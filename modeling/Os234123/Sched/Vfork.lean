import Os234123.Sched.Completion

/-!
The parent of a `vfork`.

The completion that `vfork_done` points to is a local variable of `do_fork`: the pointer is good as
long as the parent has not returned.

* `Place.Vforking f`: inside `do_fork`, with the completion of `f`;
* `VforkOk`: a child that has not released its memory has its parent there, and no other child has;
* `VforkOk.step`: every step keeps it;
* `vfork_of_run`: so it holds in every reachable state.
-/

namespace Os234123.Sched

open Machine

/-- Inside `do_fork` with `CLONE_VFORK`, with its completion on the stack. -/
def Place.Vforking (f : Tid) (pl : Place) : Prop :=
  pl = .forked ∨ pl = .asking (.vfork f) ∨ pl = .asked (.vfork f)

/-- Who has a `vfork_done`: its parent waits for it and for no other, and it has not exited. -/
structure VforkOk (x : WaitSys) : Prop where
  held : ∀ c f, x.vforkDone c = some f → (x.place f).Vforking f ∧ x.done (.vfork f) = 0
  one : ∀ c c' f, x.vforkDone c = some f → x.vforkDone c' = some f → c = c'
  child : ∀ c f, x.vforkDone c = some f → x.sys.IsTask c ∧ (x.sys.task c).state ≠ .zombie
  freed : ∀ f, (x.place f).Vforking f →
    (∃ c, x.vforkDone c = some f) ∨ x.done (.vfork f) = 1

namespace VforkOk

variable {M : Arch} {x x' : WaitSys} {c f : Tid} {h : Head}

/-- Nobody gets or loses a `vfork_done`, and nobody leaves `do_fork` before its completion. -/
lemma kept (hv : VforkOk x) (hdone : x'.vforkDone = x.vforkDone)
    (hchild : ∀ c, x.vforkDone c ≠ none → x.sys.IsTask c → (x.sys.task c).state ≠ .zombie →
      x'.sys.IsTask c ∧ (x'.sys.task c).state ≠ .zombie)
    (hf : ∀ f, ((x'.place f).Vforking f ↔ (x.place f).Vforking f)
        ∧ x'.done (.vfork f) = x.done (.vfork f)
      ∨ ¬ (x'.place f).Vforking f ∧ x.done (.vfork f) ≠ 0) : VforkOk x' := by
  refine ⟨fun c f hc => ?_, fun c c' f => ?_, fun c f hc => ?_, fun f hpl => ?_⟩
  · rw [hdone] at hc
    obtain ⟨hpl, hd⟩ := hv.held c f hc
    rcases hf f with ⟨hiff, hd'⟩ | ⟨-, hne⟩
    · exact ⟨hiff.mpr hpl, hd'.trans hd⟩
    · exact absurd hd hne
  · rw [hdone]
    exact hv.one c c' f
  · rw [hdone] at hc
    obtain ⟨ht, hz⟩ := hv.child c f hc
    exact hchild c (by simp [hc]) ht hz
  · rw [hdone]
    rcases hf f with ⟨hiff, hd'⟩ | ⟨hno, -⟩
    · rw [hd']
      exact hv.freed f (hiff.mp hpl)
    · exact absurd hpl hno

/-- A wake-up. -/
lemma rouse (hv : VforkOk x) (hr : Rouses x.sys x'.sys) (hdone : x'.vforkDone = x.vforkDone)
    (hp : x'.place = x.place) (hd : ∀ f, x'.done (.vfork f) = x.done (.vfork f)) : VforkOk x' := by
  refine hv.kept hdone (fun c _ ht hz => ⟨hr.isTask.mpr ht, ?_⟩) fun f => Or.inl ⟨by rw [hp], hd f⟩
  rcases hr.state c with he | he
  · rw [he]
    exact hz
  · simp [he]

/-- The running task moves, and may set its state. -/
lemma move (hv : VforkOk x) (pl : Place) (st : TaskState) (hst : st ≠ .zombie)
    (hsys : x'.sys = x.sys ∨ x'.sys = (x.setCurrentState st).sys)
    (hdone : x'.vforkDone = x.vforkDone) (hp : x'.place = Function.update x.place x.sys.curr pl)
    (hd : ∀ f, f ≠ x.sys.curr → x'.done (.vfork f) = x.done (.vfork f))
    (hc : (pl.Vforking x.sys.curr ↔ x.here.Vforking x.sys.curr)
        ∧ x'.done (.vfork x.sys.curr) = x.done (.vfork x.sys.curr)
      ∨ ¬ pl.Vforking x.sys.curr ∧ x.done (.vfork x.sys.curr) ≠ 0) : VforkOk x' := by
  refine hv.kept hdone (fun c _ ht hz => ?_) fun f => ?_
  · rcases hsys with hsys | hsys
    · rw [hsys]
      exact ⟨ht, hz⟩
    · rw [hsys]
      refine ⟨ht, ?_⟩
      by_cases hcc : c = x.sys.curr
      · subst hcc
        have hs : ((x.setCurrentState st).sys.task x.sys.curr).state = st := x.setCurrentState_state st
        rw [hs]
        exact hst
      · rw [x.setCurrentState_of_ne st hcc]
        exact hz
  · rw [hp]
    by_cases hfc : f = x.sys.curr
    · subst hfc
      rw [Function.update_self]
      exact hc
    · rw [Function.update_of_ne hfc]
      exact Or.inl ⟨Iff.rfl, hd f hfc⟩

/-! ### The steps -/

/-- `wait_for_completion`, from a place that is not on the way to this completion, or on the way to
that of the running task itself. -/
lemma waitForCompletion (hv : VforkOk x) (hh : x.here = .away ∧ h.exclusive = true
    ∧ (∀ f, h ≠ .vfork f) ∨ x.here = .forked ∧ h = .vfork x.sys.curr) :
    VforkOk (x.waitForCompletion h) := by
  simp only [WaitSys.waitForCompletion]
  split_ifs with hd
  · refine hv.move (.asking h) .uninterruptible (by decide) (Or.inr rfl) rfl rfl (fun _ _ => rfl)
      (Or.inl ⟨?_, rfl⟩)
    rcases hh with ⟨hh, -, hne⟩ | ⟨hh, rfl⟩
    · rw [hh]
      simp [Place.Vforking, hne]
    · rw [hh]
      simp [Place.Vforking]
  · refine hv.move .away .running (by decide) (Or.inl rfl) rfl rfl (fun f hf => ?_) ?_
    · refine Function.update_of_ne (fun he => ?_) ..
      rcases hh with ⟨-, -, hne⟩ | ⟨-, rfl⟩
      · exact hne f he.symm
      · exact hf (Head.vfork.inj he)
    · rcases hh with ⟨hh, -, hne⟩ | ⟨-, rfl⟩
      · rw [hh]
        exact Or.inl ⟨Iff.rfl, Function.update_of_ne (fun he => hne _ he.symm) ..⟩
      · exact Or.inr ⟨by simp [Place.Vforking], hd⟩

/-- The loop of `wait_for_completion`. -/
lemma waitAgain (hv : VforkOk x) (hown : ∀ f, h = .vfork f → x.sys.curr = f)
    (hh : x.here = .asked h) : VforkOk (x.waitAgain h) := by
  simp only [WaitSys.waitAgain]
  split_ifs with hd
  · refine hv.move (.asking h) .uninterruptible (by decide) (Or.inr rfl) rfl rfl (fun _ _ => rfl)
      (Or.inl ⟨?_, rfl⟩)
    rw [hh]
    simp [Place.Vforking]
  · refine hv.move .away .running (by decide) (Or.inl rfl) rfl rfl (fun f hf => ?_) ?_
    · exact Function.update_of_ne (fun he => hf (hown f he.symm).symm) ..
    · by_cases hk : h = .vfork x.sys.curr
      · subst hk
        exact Or.inr ⟨by simp [Place.Vforking], hd⟩
      · refine Or.inl ⟨?_, Function.update_of_ne (fun he => hk he.symm) ..⟩
        rw [hh]
        simp [Place.Vforking, hk]

/-- The call of `schedule` in a function that waits. -/
lemma park (hx : WaitInv x) (hv : VforkOk x) (hs : x.park M = some x') : VforkOk x' := by
  have hsched : ∀ {s' : Sys}, x.sys.schedule M = some s' → ∀ c, x.vforkDone c ≠ none →
      x.sys.IsTask c → (x.sys.task c).state ≠ .zombie → s'.IsTask c ∧ (s'.task c).state ≠ .zombie :=
    fun hs c _ ht hz => exec_alive (o := .schedule) hx.inv hs ht hz fun r hr => by simp at hr
  have hplace : ∀ {pl : Place} (f : Tid), (pl.Vforking x.sys.curr ↔ x.here.Vforking x.sys.curr) →
      ((Function.update x.place x.sys.curr pl f).Vforking f ↔ (x.place f).Vforking f) := by
    intro pl f hiff
    by_cases hf : f = x.sys.curr
    · subst hf
      rw [Function.update_self]
      exact hiff
    · rw [Function.update_of_ne hf]
  cases hh : x.here with
  | asking h =>
      simp only [WaitSys.park, hh] at hs
      obtain ⟨s', hs', rfl⟩ := Option.map_eq_some_iff.mp hs
      refine hv.kept rfl (hsched hs') fun f => Or.inl ⟨hplace f ?_, rfl⟩
      rw [hh]
      simp [Place.Vforking]
  | dozing st q =>
      simp only [WaitSys.park, hh] at hs
      obtain ⟨s', hs', rfl⟩ := Option.map_eq_some_iff.mp hs
      refine hv.kept rfl (hsched hs') fun f => Or.inl ⟨hplace f ?_, rfl⟩
      rw [hh]
      simp [Place.Vforking]
  | _ => simp [WaitSys.park, hh] at hs

/-- A new `vfork_done`, of a task that had none, for a parent that nobody had. -/
lemma start (hv : VforkOk x) (hnew : ∀ d g, x.vforkDone d = some g → d ≠ c ∧ g ≠ f)
    (hself : x'.vforkDone c = some f) (hothers : ∀ d, d ≠ c → x'.vforkDone d = x.vforkDone d)
    (hparent : (x'.place f).Vforking f ∧ x'.done (.vfork f) = 0)
    (hrest : ∀ g, g ≠ f → x'.place g = x.place g ∧ x'.done (.vfork g) = x.done (.vfork g))
    (hchild : ∀ d, d = c ∨ x.vforkDone d ≠ none →
      x'.sys.IsTask d ∧ (x'.sys.task d).state ≠ .zombie) : VforkOk x' := by
  have hcases : ∀ d g, x'.vforkDone d = some g → d = c ∧ g = f ∨ x.vforkDone d = some g := by
    intro d g hd
    by_cases hdc : d = c
    · subst hdc
      exact Or.inl ⟨rfl, (Option.some.inj (hself.symm.trans hd)).symm⟩
    · exact Or.inr ((hothers d hdc).symm.trans hd)
  refine ⟨fun d g hd => ?_, fun d d' g hd hd' => ?_, fun d g hd => ?_, fun g hg => ?_⟩
  · rcases hcases d g hd with ⟨-, rfl⟩ | hd
    · exact hparent
    · obtain ⟨hplace, hdone⟩ := hrest g (hnew d g hd).2
      rw [hplace, hdone]
      exact hv.held d g hd
  · rcases hcases d g hd with ⟨rfl, rfl⟩ | hd
    · rcases hcases d' g hd' with ⟨rfl, -⟩ | hd'
      · rfl
      · exact absurd rfl (hnew d' g hd').2
    · rcases hcases d' g hd' with ⟨rfl, rfl⟩ | hd'
      · exact absurd rfl (hnew d g hd).2
      · exact hv.one d d' g hd hd'
  · rcases hcases d g hd with ⟨rfl, -⟩ | hd
    · exact hchild d (Or.inl rfl)
    · exact hchild d (Or.inr (by simp [hd]))
  · by_cases hgf : g = f
    · exact Or.inl ⟨c, hgf ▸ hself⟩
    · obtain ⟨hplace, hdone⟩ := hrest g hgf
      rw [hplace] at hg
      rw [hdone]
      refine (hv.freed g hg).imp_left fun ⟨d, hd⟩ => ⟨d, ?_⟩
      rw [hothers d (hnew d g hd).1]
      exact hd

/-- **`do_fork` with `CLONE_VFORK`.** -/
lemma vfork (hx : WaitInv x) (hv : VforkOk x) (hb : x.CanBlock) {flags : ForkFlags} (hc : x.sys.IsFresh c)
    (hs : x.vfork M flags c = some x') : VforkOk x' := by
  obtain ⟨s', hfork, rfl⟩ := Option.map_eq_some_iff.mp hs
  obtain ⟨hin, haway⟩ := hb
  have hexec : x.sys.exec M (.fork flags c) = some s' := (if_pos ⟨hin.2, hc⟩).trans hfork
  have hforked := (hx.inv.doFork M (fun hk => hk.elim (fun ht => hc.1 ht.1) hc.2.1) hfork).2
  refine hv.start (c := c) (f := x.sys.curr) (fun d g hd => ⟨fun he => ?_, fun he => ?_⟩)
    (Function.update_self ..) (fun d hd => Function.update_of_ne hd ..)
    ⟨Or.inl (Function.update_self ..), Function.update_self ..⟩ (fun g hg => ⟨?_, ?_⟩) fun d hd => ?_
  · exact hc.1 (he ▸ (hv.child d g hd).1.1)
  · have hpl := (hv.held d g hd).1
    rw [he, show x.place x.sys.curr = .away from haway] at hpl
    simp [Place.Vforking] at hpl
  · exact Function.update_of_ne hg ..
  · exact Function.update_of_ne (fun he => hg (Head.vfork.inj he)) ..
  · by_cases hdc : d = c
    · subst hdc
      refine ⟨⟨?_, ?_⟩, ?_⟩
      · rw [hforked.live, Function.update_self]
      · rw [hforked.idle]
        exact hc.2.1
      · simp [hforked.state]
    · obtain ⟨g, hg⟩ := Option.ne_none_iff_exists'.mp (hd.resolve_left hdc)
      obtain ⟨ht, hz⟩ := hv.child d g hg
      exact exec_alive hx.inv hexec ht hz fun r hr => by simp at hr

/-- **`mm_release`.** -/
lemma mmRelease (hx : WaitInv x) (hv : VforkOk x) : VforkOk (x.mmRelease M) := by
  rw [WaitSys.mmRelease]
  cases hc : x.vforkDone x.sys.curr with
  | none => exact hv
  | some f =>
      have hr : Rouses x.sys (x.complete M (.vfork f)).sys :=
        Rouses.wakeUpCommon _ _ hx.inv fun w hw => hx.waiter_isTask hw
      have hnot : ∀ d g, Function.update x.vforkDone x.sys.curr none d = some g →
          x.vforkDone d = some g ∧ g ≠ f := by
        intro d g hd
        by_cases hdc : d = x.sys.curr
        · rw [hdc, Function.update_self] at hd
          exact absurd hd (by simp)
        · rw [Function.update_of_ne hdc] at hd
          exact ⟨hd, fun he => hdc (hv.one d x.sys.curr f (he ▸ hd) hc)⟩
      have hdone : ∀ g, g ≠ f → Function.update x.done (.vfork f) (uadd (x.done (.vfork f)) 1)
          (.vfork g) = x.done (.vfork g) := fun g hg =>
        Function.update_of_ne (fun he => hg (Head.vfork.inj he)) ..
      refine ⟨fun d g hd => ?_, fun d d' g hd hd' => ?_, fun d g hd => ?_, fun g hg => ?_⟩
      · obtain ⟨hd, hg⟩ := hnot d g hd
        exact ⟨(hv.held d g hd).1, (hdone g hg).trans (hv.held d g hd).2⟩
      · exact hv.one d d' g (hnot d g hd).1 (hnot d' g hd').1
      · obtain ⟨ht, hz⟩ := hv.child d g (hnot d g hd).1
        refine ⟨hr.isTask.mpr ht, ?_⟩
        rcases hr.state d with he | he
        · exact he ▸ hz
        · exact fun h => absurd (he.symm.trans h) (by decide)
      · by_cases hgf : g = f
        · subst hgf
          refine Or.inr ((Function.update_self ..).trans ?_)
          rw [(hv.held _ _ hc).2]
          rfl
        · rcases hv.freed g hg with ⟨d, hd⟩ | hd
          · have hdc : d ≠ x.sys.curr := fun he =>
              hgf (Option.some.inj (hd.symm.trans (he ▸ hc)))
            exact Or.inl ⟨d, (Function.update_of_ne hdc ..).trans hd⟩
          · exact Or.inr ((hdone g hgf).trans hd)

/-- An operation of the scheduler. -/
lemma op (hx : WaitInv x) (hv : VforkOk x) {o : Op} {s' : Sys} (hok : x.Allows o)
    (hs : x.sys.exec M o = some s') : VforkOk (x.afterOp o s') := by
  have hchild : ∀ c, x.vforkDone c ≠ none → x.sys.IsTask c → (x.sys.task c).state ≠ .zombie →
      s'.IsTask c ∧ (s'.task c).state ≠ .zombie := by
    intro c hc ht hz
    refine exec_alive hx.inv hs ht hz fun r hr he => ?_
    subst hr
    cases hh : x.here with
    | away =>
        simp only [WaitSys.Allows, hh] at hok
        exact hc (he ▸ hok)
    | _ => simp [WaitSys.Allows, hh] at hok
  have hdone : (x.afterOp o s').vforkDone = x.vforkDone := by
    cases o with
    | fork flags c =>
        refine Function.update_eq_self_iff.mpr ?_
        obtain ⟨⟨-, hc⟩, -⟩ := Option.ite_none_right_eq_some.mp hs
        cases hd : x.vforkDone c with
        | none => rfl
        | some g => exact absurd (hv.child c g hd).1.1 hc.1
    | _ => rfl
  obtain ⟨hsys, -, hd, hp⟩ := x.afterOp_eq o s'
  refine hv.kept hdone (by rw [hsys]; exact hchild) fun f => Or.inl ⟨by rw [hp], by rw [hd]⟩

/-- **Every step keeps it.** -/
theorem step (hx : WaitInv x) (hv : VforkOk x) {o : WaitOp} (hs : x.exec M o = some x') :
    VforkOk x' := by
  cases o with
  | op o =>
      obtain ⟨hok, hs⟩ := Option.ite_none_right_eq_some.mp hs
      obtain ⟨s', hexec, rfl⟩ := Option.map_eq_some_iff.mp hs
      exact hv.op hx hok hexec
  | wakeUp q mode n =>
      obtain rfl := Option.some.inj hs
      exact hv.rouse (Rouses.wakeUpCommon _ _ hx.inv fun w hw => hx.waiter_isTask hw) rfl rfl fun _ => rfl
  | complete c =>
      obtain rfl := Option.some.inj hs
      refine hv.rouse (Rouses.wakeUpCommon _ _ hx.inv fun w hw => hx.waiter_isTask hw) rfl rfl fun f => ?_
      have hne : Head.vfork f ≠ .completion c := by simp
      simp only [WaitSys.complete, WaitSys.wakeUp, Function.update_of_ne hne]
  | waitForCompletion c =>
      obtain ⟨⟨-, haway⟩, hs⟩ := Option.ite_none_right_eq_some.mp hs
      obtain rfl := Option.some.inj hs
      exact hv.waitForCompletion (Or.inl ⟨haway, rfl, fun f => by simp⟩)
  | sleepOn st q =>
      obtain ⟨⟨⟨-, haway⟩, hst⟩, hs⟩ := Option.ite_none_right_eq_some.mp hs
      obtain rfl := Option.some.inj hs
      have hz : st ≠ .zombie := by rcases hst with rfl | rfl <;> decide
      refine hv.move (.dozing st q) st hz (Or.inr rfl) rfl rfl (fun _ _ => rfl) (Or.inl ⟨?_, rfl⟩)
      rw [haway]
      simp [Place.Vforking]
  | vfork flags c =>
      obtain ⟨⟨hb, -, hc⟩, hs⟩ := Option.ite_none_right_eq_some.mp hs
      exact hv.vfork hx hb hc hs
  | waitVfork =>
      obtain ⟨hh, hs⟩ := Option.ite_none_right_eq_some.mp hs
      obtain rfl := Option.some.inj hs
      exact hv.waitForCompletion (Or.inr ⟨hh, rfl⟩)
  | park => exact hv.park hx hs
  | resume =>
      cases hh : x.here with
      | asked h =>
          obtain rfl : x.waitAgain h = x' := by simpa [WaitSys.exec, WaitSys.resume, hh] using hs
          refine hv.waitAgain (fun f hf => hx.enlisted.own _ f ?_) hh
          rw [show x.place x.sys.curr = .asked h from hh, hf]
          rfl
      | dozed st q =>
          obtain rfl : (x.removeWaitQueue (.queue q) ⟨x.sys.curr, false⟩).goto .away = x' := by
            simpa [WaitSys.exec, WaitSys.resume, hh] using hs
          refine hv.move .away .running (by decide) (Or.inl rfl) rfl rfl
            (fun _ _ => rfl) (Or.inl ⟨?_, rfl⟩)
          rw [hh]
          simp [Place.Vforking]
      | _ => simp [WaitSys.exec, WaitSys.resume, hh] at hs
  | mmRelease =>
      obtain ⟨-, hs⟩ := Option.ite_none_right_eq_some.mp hs
      obtain rfl := Option.some.inj hs
      exact hv.mmRelease hx

lemma booted (M : Arch) : VforkOk (WaitSys.booted M) := by
  refine ⟨fun c f hc => ?_, fun c c' f hc => ?_, fun c f hc => ?_, fun f hf => ?_⟩
  · exact absurd hc (by simp [WaitSys.booted])
  · exact absurd hc (by simp [WaitSys.booted])
  · exact absurd hc (by simp [WaitSys.booted])
  · exact absurd hf (by simp [WaitSys.booted, Place.Vforking])

end VforkOk

/-! ### Runs -/

section

variable {M : Arch} {x : WaitSys}

lemma vforkOk_of_run {ops : List WaitOp}
    (h : run (WaitSys.exec M) ops (WaitSys.booted M) = some x) : VforkOk x :=
  (run_induct (P := fun x => WaitInv x ∧ VforkOk x)
    (fun _ _ _ hx hs => ⟨hx.1.step hs, hx.2.step hx.1 hs⟩) ⟨WaitInv.booted M, VforkOk.booted M⟩ h).2

/-- Once its completion is done, a task inside `do_fork` can run. -/
lemma WaitInv.vfork_ready (hx : WaitInv x) {f : Tid} (hf : (x.place f).Vforking f)
    (hd : x.done (.vfork f) = 1) : x.place f = .forked ∧ f = x.sys.curr
      ∨ (x.sys.task f).state = .running ∧ (x.sys.task f).array ≠ none := by
  rcases hf with hf | hf
  · exact Or.inl ⟨hf, hx.held f (by rw [hf]; trivial)⟩
  · have hhead : (x.place f).head = some (.vfork f) := by rcases hf with hf | hf <;> rw [hf] <;> rfl
    have hmem : (⟨f, true⟩ : Waiter) ∈ x.waiters (.vfork f) :=
      (hx.enlisted.mem _ _).mpr ⟨hhead, rfl⟩
    have hpos := List.length_pos_of_mem hmem
    have ht := hx.tokens (.vfork f) rfl
    rw [Tokens, hd, Nat.min_eq_left hpos] at ht
    -- nobody else stands in this queue
    obtain ⟨w, hw, hr⟩ := List.countP_pos_iff.mp ht
    have hwf : w.task = f := hx.enlisted.own _ _ ((hx.enlisted.mem _ w).mp hw).1
    have hrun := of_decide_eq_true hr
    exact Or.inr (hwf ▸ ⟨hrun, hx.toWaitOk.queued hw hrun⟩)

/-- **The parent of a `vfork` waits for its child, and is let go.**  In every reachable state a task
whose `vfork_done` is set has not exited, its parent is still inside `do_fork` with a completion that
is not done, and no other task refers to it; a parent there to which no task refers has its completion
done and can run. -/
theorem vfork_of_run {ops : List WaitOp}
    (h : run (WaitSys.exec M) ops (WaitSys.booted M) = some x) :
    (∀ c f, x.vforkDone c = some f →
        ((x.place f).Vforking f ∧ x.done (.vfork f) = 0)
        ∧ (x.sys.IsTask c ∧ (x.sys.task c).state ≠ .zombie)
        ∧ ∀ c', x.vforkDone c' = some f → c' = c)
      ∧ ∀ f, (x.place f).Vforking f → (∀ c, x.vforkDone c ≠ some f) → x.done (.vfork f) = 1
        ∧ (x.place f = .forked ∧ f = x.sys.curr
          ∨ (x.sys.task f).state = .running ∧ (x.sys.task f).array ≠ none) := by
  have hx := waitInv_of_run h
  have hv := vforkOk_of_run h
  refine ⟨fun c f hc => ⟨hv.held c f hc, hv.child c f hc, fun c' hc' => hv.one c' c f hc' hc⟩,
    fun f hf hno => ?_⟩
  have hd : x.done (.vfork f) = 1 := (hv.freed f hf).resolve_left fun ⟨c, hc⟩ => hno c hc
  exact ⟨hd, hx.vfork_ready hf hd⟩

end

/-- A task forks with `CLONE_VFORK` and waits, and the child releases its memory. -/
def vforkRun : List WaitOp :=
  [.op (.fork ⟨false, false⟩ 1), .op .schedule, .vfork ⟨false, true⟩ 2, .waitVfork, .park, .mmRelease]

/-- The child is on the processor then, and its parent can run. -/
theorem vfork_vforkRun : ∃ x, run (WaitSys.exec .hz100) vforkRun (WaitSys.booted .hz100) = some x
    ∧ x.sys.curr = 2 ∧ (x.sys.task 1).state = .running ∧ (x.sys.task 1).array ≠ none := by
  have hrun : ((run (WaitSys.exec .hz100) vforkRun (WaitSys.booted .hz100)).any fun x =>
      decide (x.sys.curr = 2 ∧ x.place 1 = .asked (.vfork 1) ∧ x.done (.vfork 1) = 1)) = true := by
    decide +kernel
  obtain ⟨x, hx, hdec⟩ := (Option.any_eq_true _ _).mp hrun
  obtain ⟨hcurr, hplace, hdone⟩ := of_decide_eq_true hdec
  obtain ⟨hheld, hfreed⟩ := vfork_of_run hx
  have hno : ∀ c, x.vforkDone c ≠ some 1 := fun c hc => by
    have := (hheld c 1 hc).1.2
    omega
  rcases (hfreed 1 (Or.inr (Or.inr hplace)) hno).2 with ⟨hc, -⟩ | hready
  · exact absurd (hplace.symm.trans hc) (by decide)
  · exact ⟨x, hx, hcurr, hready⟩

end Os234123.Sched
