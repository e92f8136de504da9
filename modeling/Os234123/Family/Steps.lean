import Os234123.Family.Wellformed

/-!
What a system call can do, one lemma for each.

* `doFork_cases`, `sysAttachProc_cases`: either an error and the same state, or `forkChild` and
  `relink`;
* `Active s c`: the process can make a call, or goes on with one;
* `Wf.waitReport_cases`, `Wf.waitScan_cases`, `Wf.sysWait4_cases`: either a quiet step, or a child is
  reaped;
* `Wf.reaps`, and what keeps `HasInit`.
-/

namespace Os234123.Family

open Linked

section

variable {s s' : Sys} {p q c t : Addr} {w : WaitArgs} {pid : ℤ}

/-! ### Forking and attaching -/

/-- `do_fork` fails, or forks with the pid it was given. -/
lemma doFork_cases (hc : 0 < (s.task c).pid) (hpid : 0 < pid) (flags : CloneFlags) :
    (s.doFork c flags pid).1 = s ∨ (s.doFork c flags pid).1 = s.forkChild c flags pid := by
  rw [Sys.doFork]
  split
  · exact Or.inl rfl
  split
  · exact Or.inl rfl
  · next hno =>
      have hclone : flags.clonePid = false := by
        by_contra hf
        exact hno ⟨by simpa using hf, hc.ne'⟩
      simp only [hclone, Bool.false_eq_true, if_false]
      rw [if_neg fun h => hpid.ne' h.1]
      exact Or.inr rfl

/-- The task that passes the checks of `sys_attach_proc`. -/
lemma attachTarget_ok (h : s.attachTarget c pid = some (.ok t)) :
    s.findTaskByPid pid = some t ∧ pid ≠ 1 ∧ s.ancestorWalk pid s.fresh c = some false
      ∧ ¬ ((s.task c).euid ≠ 0 ∧ (s.task c).euid ≠ (s.task t).euid) ∧ ¬ s.FatherBusy t pid := by
  rw [Sys.attachTarget] at h
  split at h
  · exact nomatch h
  · next t' ht' =>
      split at h
      · exact nomatch h
      · next h1 =>
          obtain ⟨met, hmet, h⟩ := Option.map_eq_some_iff.mp h
          split_ifs at h with hm he hb
          · obtain rfl := Except.ok.inj h
            exact ⟨ht', h1, by simpa [hm] using hmet, he, hb⟩

lemma attaches_eq_some : s.attaches c pid = some t ↔ s.attachTarget c pid = some (.ok t) := by
  rw [Sys.attaches]
  rcases s.attachTarget c pid with _ | e | t' <;> simp [Except.toOption]

lemma findTaskByPid_eq_some (h : s.findTaskByPid pid = some t) :
    s.Listed t ∧ (s.task t).pid = pid :=
  ⟨List.mem_of_find?_eq_some h, by simpa using List.find?_some h⟩

/-- `sys_attach_proc` fails and changes nothing, or attaches the task that passes its checks. -/
lemma sysAttachProc_cases {r : Except Errno ℤ} (h : s.sysAttachProc c pid = some (s', r)) :
    (∃ e, r = .error e ∧ s' = s)
      ∨ ∃ t, s.attachTarget c pid = some (.ok t) ∧ r = .ok (s.task (s.pOpptr t)).pid
        ∧ s' = s.relink c t := by
  obtain ⟨x, hx, h⟩ := Option.map_eq_some_iff.mp h
  cases x with
  | error e =>
      obtain ⟨rfl, rfl⟩ := Prod.mk.inj h
      exact Or.inl ⟨e, rfl, rfl⟩
  | ok t =>
      obtain ⟨rfl, rfl⟩ := Prod.mk.inj h
      exact Or.inr ⟨t, hx, rfl, rfl⟩

/-! ### Waiting -/

/-- The process can make a call, or goes on with one. -/
structure Active (s : Sys) (c : Addr) : Prop where
  listed : s.Listed c
  stays : Stays (s.place c)
  state : (s.task c).state ≠ .zombie

lemma Quiet.active (h : Quiet s s') (hc : Active s c) : Active s' c := by
  refine ⟨(h.listed c).mpr hc.listed, ?_, fun hz => hc.state ((h.task c).2.2.2.2.mp hz)⟩
  rcases h.place c with he | ⟨-, -, hs⟩
  · exact he ▸ hc.stays
  · exact hs

lemma Active.record (hc : Active s c) (e : Event) : Active (s.record e) c :=
  ⟨hc.listed, hc.stays, hc.state⟩

lemma Sys.InUser.active (h : s.InUser c) : Active s c :=
  ⟨h.1, h.2.1 ▸ ⟨fun he => (nomatch he), fun he => nomatch he⟩, h.2.2 ▸ fun he => nomatch he⟩

lemma Links.active (h : Links s) (hu : s.place c ≠ .user) (hp : Stays (s.place c)) : Active s c := by
  have hl : s.Listed c := ((h.asleep c).resolve_left hu).resolve_left hp.2
  exact ⟨hl, hp, (h.alive_of_stays (Or.inr hl) hp).2.2⟩

lemma Quiet.endWait4 (hc : Active s c) : Quiet s (s.endWait4 c) := by
  have hmod : Quiet s (s.modTask c fun t => { t with state := .running, waitBusy := 0 }) :=
    Quiet.modTask rfl rfl rfl id (iff_of_false (fun he => nomatch he) hc.state)
  exact hmod.trans (Quiet.goto hc.listed hc.stays ⟨fun he => (nomatch he), fun he => nomatch he⟩)

/-- `c` returns the pid of its zombie `p`, and passes it to `release_task`. -/
def Reaps (s : Sys) (c p : Addr) (s' : Sys) : Prop :=
  ∃ s₁, (s.record (.returned c p)).releaseTask c p = some s₁ ∧ s' = s₁.endWait4 c

/-- The process that releases a child stays active. -/
lemma Active.releaseTask (hc : Active s c) (h : s.releaseTask c p = some s') : Active s' c := by
  obtain ⟨hne, -⟩ := releaseTask_eq h
  obtain ⟨htask, -, -, -, -, hhash, hplace, -, -⟩ := releaseTask_fields h
  refine ⟨?_, hplace ▸ hc.stays, ?_⟩
  · rw [Sys.Listed, hhash]
    exact (List.mem_erase_of_ne hne.symm).mpr hc.listed
  · rw [htask, Function.update_of_ne hne.symm]
    exact hc.state

/-- What comes of a look at the children by `c`: it has returned, waits, or has selected a child and
sleeps; or it has reaped a zombie. -/
def Scanned (s : Sys) (c : Addr) (w : WaitArgs) (s' : Sys) : Prop :=
  (Quiet s s' ∧ ∃ x, s'.place = Function.update s.place c x ∧ (x = .user ∨ x = .waiting w
      ∨ ∃ p ∈ s.waitedFor c w, x = .reporting w p (decide ((s.task p).state = .zombie))))
    ∨ ∃ p ∈ s.waitedFor c w, (s.task p).state = .zombie
      ∧ ∃ s₁, Quiet s s₁ ∧ s₁.place = s.place ∧ Reaps s₁ c p s'

/-- What `sys_wait4` does about a child that is not traced: quietly return, or reap it. -/
lemma waitReport_cases {zombie ok : Bool} (hc : Active s c)
    (hp : zombie = true → s.pOpptr p = s.pPptr p) {r : Except Errno ℤ}
    (h : s.waitReport c p zombie ok = some (s', r)) :
    Quiet s s' ∧ s'.place = Function.update s.place c .user
      ∨ zombie = true ∧ ok = true ∧ Reaps s c p s' := by
  rw [Sys.waitReport] at h
  split at h
  · obtain ⟨rfl, -⟩ := Prod.mk.inj (Option.some.inj h)
    exact Or.inl ⟨.endWait4 hc, rfl⟩
  · next hok =>
      simp only at h
      split at h
      · obtain ⟨rfl, -⟩ := Prod.mk.inj (Option.some.inj h)
        have hmod : Quiet s (s.modTask p fun t => { t with exitCode := 0 }) :=
          Quiet.modTask rfl rfl rfl id Iff.rfl
        exact Or.inl ⟨hmod.trans (.endWait4 (hmod.active hc)), rfl⟩
      · next hz =>
          have hzt : zombie = true := by simpa using hz
          rw [if_neg fun hne => hne (hp hzt)] at h
          obtain ⟨s₁, hs₁, h⟩ := Option.map_eq_some_iff.mp h
          obtain ⟨rfl, -⟩ := Prod.mk.inj h
          exact Or.inr ⟨hzt, by simpa using hok, s₁, hs₁, rfl⟩

lemma readyChild_eq_some (h : s.readyChild c w = some p) :
    p ∈ s.candidates c w ∧ w.Reports (s.task p) :=
  ⟨List.mem_of_find?_eq_some h, by simpa using List.find?_some h⟩

lemma candidates_subset (h : p ∈ s.candidates c w) : p ∈ s.waitedFor c w :=
  (List.mem_filter.mp h).1

/-- What reaping does to the fields without links. -/
lemma reaps_fields (hr : Reaps s c p s') : p ≠ c ∧ s'.pPptr = s.pPptr ∧ s'.pOpptr = s.pOpptr
    ∧ s'.threadNext = Function.update s.threadNext (s.threadPrev p) (s.threadNext p)
    ∧ s'.pidhash = s.pidhash.erase p ∧ s'.place = Function.update s.place c .user
    ∧ s'.fresh = s.fresh
    ∧ s'.log = .released c p (s.pPptr p) (s.task p).firstTimeSlice :: .returned c p :: s.log
    ∧ (∀ q, (s'.task q).firstTimeSlice = (s.task q).firstTimeSlice)
    ∧ ∀ q, q ≠ c → (s'.task q).state = (s.task q).state := by
  obtain ⟨s₁, hs₁, rfl⟩ := hr
  obtain ⟨hne, -⟩ := releaseTask_eq hs₁
  obtain ⟨htask, hpp, hop, htn, -, hhash, hplace, hfresh, hlog⟩ := releaseTask_fields hs₁
  have hrec : ∀ q, (s₁.task q).firstTimeSlice = (s.task q).firstTimeSlice
      ∧ (s₁.task q).state = (s.task q).state := fun q => by
    rw [htask]
    by_cases hq : q = p
    · rw [hq, Function.update_self]
      exact ⟨rfl, rfl⟩
    · rw [Function.update_of_ne hq]
      exact ⟨rfl, rfl⟩
  have hend : ∀ q, ((s₁.endWait4 c).task q).firstTimeSlice = (s₁.task q).firstTimeSlice
      ∧ (q ≠ c → ((s₁.endWait4 c).task q).state = (s₁.task q).state) := fun q => by
    by_cases hq : q = c
    · refine ⟨?_, fun hne => absurd hq hne⟩
      rw [hq]
      simp [Sys.endWait4, Sys.goto]
    · have : (s₁.endWait4 c).task q = s₁.task q := Function.update_of_ne hq ..
      rw [this]
      exact ⟨rfl, fun _ => rfl⟩
  refine ⟨hne, hpp, hop, htn, hhash, ?_, hfresh, hlog, fun q => (hend q).1.trans (hrec q).1,
    fun q hq => ((hend q).2 hq).trans (hrec q).2⟩
  exact congrArg (fun f => Function.update f c .user) hplace

namespace Wf

/-- The children a call looks at are hashed. -/
lemma mem_waitedFor (h : Wf s) (hp : p ∈ s.waitedFor c w) : s.Listed p := by
  obtain ⟨a, -, ha⟩ := List.mem_flatMap.mp hp
  exact (h.mem_children.mp ha).1

/-- **`sys_wait4` from `repeat` on.** -/
lemma waitScan_cases (h : Wf s) (hc : Active s c) {r : Option (Except Errno ℤ)}
    (hs : s.waitScan c w = some (s', r)) :
    Scanned s c w s' := by
  have hmod : Quiet s (s.modTask c fun t => { t with state := .interruptible }) :=
    Quiet.modTask rfl rfl rfl id (iff_of_false (fun he => nomatch he) hc.state)
  have hc₁ := hmod.active hc
  rw [Sys.waitScan] at hs
  set s₁ := s.modTask c fun t => { t with state := .interruptible } with hs₁
  have hwait : Stays (.waiting w) := ⟨fun he => (nomatch he), fun he => nomatch he⟩
  simp only at hs
  split at hs
  · next p hready =>
      obtain ⟨hcand, -⟩ := readyChild_eq_some hready
      have hp : p ∈ s.waitedFor c w := (candidates_subset hcand : p ∈ s₁.waitedFor c w)
      have hz : decide ((s₁.task p).state = .zombie) = decide ((s.task p).state = .zombie) :=
        decide_eq_decide.mpr (hmod.task p).2.2.2.2
      split at hs
      · obtain ⟨rfl, -⟩ := Prod.mk.inj (Option.some.inj hs)
        refine Or.inl ⟨hmod.trans (.goto hc₁.listed hc₁.stays ?_), _, rfl, Or.inr (Or.inr ?_)⟩
        · exact ⟨fun he => (nomatch he), fun he => nomatch he⟩
        · exact ⟨p, hp, by rw [hz]⟩
      · obtain ⟨⟨s'', r'⟩, hrep, hs⟩ := Option.map_eq_some_iff.mp hs
        obtain ⟨rfl, -⟩ := Prod.mk.inj hs
        have hun : s₁.pOpptr p = s₁.pPptr p := (h.untraced p (Or.inr (h.mem_waitedFor hp))).1
        rcases waitReport_cases hc₁ (fun _ => hun) hrep with ⟨hq, hpl⟩ | ⟨hzt, -, hreap⟩
        · exact Or.inl ⟨hmod.trans hq, _, hpl, Or.inl rfl⟩
        · rw [hz] at hzt
          exact Or.inr ⟨p, hp, of_decide_eq_true hzt, s₁, hmod, rfl, hreap⟩
  · have hend : Quiet s (s₁.endWait4 c) := hmod.trans (.endWait4 hc₁)
    split at hs
    · obtain ⟨rfl, -⟩ := Prod.mk.inj (Option.some.inj hs)
      exact Or.inl ⟨hend, _, rfl, Or.inl rfl⟩
    split at hs
    · obtain ⟨rfl, -⟩ := Prod.mk.inj (Option.some.inj hs)
      exact Or.inl ⟨hend, _, rfl, Or.inl rfl⟩
    split at hs
    · obtain ⟨rfl, -⟩ := Prod.mk.inj (Option.some.inj hs)
      exact Or.inl ⟨hend, _, rfl, Or.inl rfl⟩
    · obtain ⟨rfl, -⟩ := Prod.mk.inj (Option.some.inj hs)
      exact Or.inl ⟨hmod.trans (.goto hc₁.listed hc₁.stays hwait), _, rfl, Or.inr (Or.inl rfl)⟩

/-- **`sys_wait4`**, called from user mode. -/
lemma sysWait4_cases (h : Wf s) (hc : s.InUser c) {r : Option (Except Errno ℤ)}
    (hs : s.sysWait4 c w = some (s', r)) :
    Scanned s c w s' := by
  rw [Sys.sysWait4] at hs
  split at hs
  · obtain ⟨rfl, -⟩ := Prod.mk.inj (Option.some.inj hs)
    exact Or.inl ⟨.refl s, .user, (Function.update_eq_self_iff.mpr hc.2.1.symm).symm, Or.inl rfl⟩
  · have hmod : Quiet s (s.modTask c fun t => { t with waitBusy := w.pid }) :=
      Quiet.modTask rfl rfl rfl id Iff.rfl
    have hst : ∀ p, ((s.modTask c fun t => { t with waitBusy := w.pid }).task p).state = .zombie
        ↔ (s.task p).state = .zombie := fun p => (hmod.task p).2.2.2.2
    rcases (h.quiet hmod).waitScan_cases (hmod.active hc.active) hs with
      ⟨hq, x, hpl, hx⟩ | ⟨p, hp, hz, s₁, hq, hpl, hreap⟩
    · refine Or.inl ⟨hmod.trans hq, x, hpl, hx.imp_right (Or.imp_right ?_)⟩
      rintro ⟨p, hp, rfl⟩
      exact ⟨p, hp, by rw [decide_eq_decide.mpr (hst p)]⟩
    · exact Or.inr ⟨p, hp, (hst p).mp hz, s₁, hmod.trans hq, hpl, hreap⟩

/-- Reaping a zombie keeps the links in order. -/
lemma reaps (h : Wf s) (hc : Active s c) (hp : s.Listed p) (hz : (s.task p).state = .zombie)
    (hr : Reaps s c p s') : Wf s' := by
  obtain ⟨s₁, hs₁, rfl⟩ := hr
  have hwf := (h.record (.returned c p)).releaseTask hp hz hs₁
  have hc₀ := hc.record (.returned c p)
  exact hwf.quiet (.endWait4 (hc₀.releaseTask hs₁))

end Wf

/-! ### The process `init` -/

namespace HasInit

lemma quiet (hi : HasInit s) (hq : Quiet s s') : HasInit s' :=
  ⟨(hq.listed _).mpr hi.listed, (hq.task _).2.1.trans hi.stays, (hq.task _).1.trans hi.pid⟩

lemma forkChild (hi : HasInit s) (h : Links s) (c : Addr) (flags : CloneFlags) (pid : ℤ) :
    HasInit (s.forkChild c flags pid) := by
  obtain ⟨htask, -, hhash, -⟩ := forkChild_fields s c flags pid
  have hne : childReaper ≠ s.fresh := (h.fresh _ (Or.inr hi.listed)).ne
  refine ⟨?_, ?_, ?_⟩
  · rw [Sys.Listed, hhash]
    exact List.mem_cons_of_mem _ hi.listed
  · rw [htask, Function.update_of_ne hne, hi.stays]
  · rw [htask, Function.update_of_ne hne, hi.pid]

lemma relink (hi : HasInit s) (c t : Addr) : HasInit (s.relink c t) := by
  obtain ⟨htask, -, -, -, -, hhash, -⟩ := relink_fields s c t
  refine ⟨?_, htask ▸ hi.stays, htask ▸ hi.pid⟩
  rw [Sys.Listed, hhash]
  exact hi.listed

/-- `init` may not exit. -/
lemma exitBegin (hi : HasInit s) (hc : (s.task c).pid ≠ 1) (code : ℤ) :
    HasInit (s.exitBegin c code) := by
  have hne : childReaper ≠ c := fun he => hc (he ▸ hi.pid)
  have htask : (s.exitBegin c code).task childReaper = s.task childReaper :=
    Function.update_of_ne hne ..
  exact ⟨hi.listed, htask ▸ hi.stays, htask ▸ hi.pid⟩

lemma exitNotify (hi : HasInit s) (h : Links s) (hc : s.Listed c) (hx : (s.task c).exiting = true) :
    HasInit (s.exitNotify c) := by
  have he := h.exited hi hc hx
  refine ⟨?_, (he.task _).2.1.trans hi.stays, (he.task _).1.trans hi.pid⟩
  rw [Sys.Listed, he.pidhash]
  exact hi.listed

/-- `init` is not reaped. -/
lemma reaps (hi : HasInit s) (h : Links s) (hc : Active s c) (hp : s.Listed p)
    (hz : (s.task p).state = .zombie) (hr : Reaps s c p s') : HasInit s' := by
  obtain ⟨s₁, hs₁, rfl⟩ := hr
  have hc₀ := hc.record (.returned c p)
  obtain ⟨htask, -, -, -, -, hhash, -⟩ := releaseTask_fields hs₁
  have hpi : childReaper ≠ p := fun he => by
    have hx := (h.exiting p (Or.inr hp)).mpr (Or.inr ((h.gone p (Or.inr hp)).mpr hz))
    rw [← he, hi.stays] at hx
    exact Bool.false_ne_true hx
  have hi₁ : HasInit s₁ := by
    refine ⟨?_, ?_, ?_⟩
    · rw [Sys.Listed, hhash]
      exact (List.mem_erase_of_ne hpi).mpr hi.listed
    · rw [htask, Function.update_of_ne hpi]
      exact hi.stays
    · rw [htask, Function.update_of_ne hpi]
      exact hi.pid
  exact hi₁.quiet (.endWait4 (hc₀.releaseTask hs₁))

end HasInit

end

end Os234123.Family
