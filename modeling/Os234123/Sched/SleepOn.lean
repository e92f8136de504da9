import Os234123.Sched.Completion

/-!
Tasks asleep in `sleep_on` and `interruptible_sleep_on`.

* `Remains`: a task stays where it is, and is woken at most;
* `WaitInv.dozed`: so does a task inside, until `schedule` returns to it;
* `wakeUp_of_run`: a wake-up of the queue is not lost on any of them.

A wake-up that comes before `SLEEP_ON_HEAD` does not find the task in the queue.
-/

namespace Os234123.Sched

open Machine

/-- The step is not that in which `schedule` returns to task `p`. -/
def NotBack (p : Tid) (x : WaitSys) : WaitOp → Prop
  | .resume => p ≠ x.sys.curr
  | _ => True

instance (p : Tid) (x : WaitSys) (o : WaitOp) : Decidable (NotBack p x o) := by
  unfold NotBack
  induction o using WaitOp.casesOn <;> infer_instance

section

variable {M : Arch} {x x' : WaitSys} {o : WaitOp} {p : Tid} {st : TaskState} {q : ℕ}

/-- The task stays where it is, and is woken at most. -/
def Remains (p : Tid) (x x' : WaitSys) : Prop :=
  x'.place p = x.place p
    ∧ ((x'.sys.task p).state = (x.sys.task p).state ∨ (x'.sys.task p).state = .running)

namespace Remains

lemma refl (p : Tid) (x : WaitSys) : Remains p x x := ⟨rfl, Or.inl rfl⟩

lemma rouse {s' : Sys} (hr : Rouses x.sys s') (hsys : x'.sys = s') (hp : x'.place = x.place) :
    Remains p x x' := ⟨congrFun hp p, by rw [hsys]; exact hr.state p⟩

/-- The running task moves, and may set its state. -/
lemma move (hpc : p ≠ x.sys.curr) (pl : Place) (st : TaskState)
    (hsys : x'.sys = x.sys ∨ x'.sys = (x.setCurrentState st).sys)
    (hp : x'.place = Function.update x.place x.sys.curr pl) : Remains p x x' := by
  refine ⟨by rw [hp, Function.update_of_ne hpc], Or.inl ?_⟩
  rcases hsys with hsys | hsys
  · rw [hsys]
  · rw [hsys, x.setCurrentState_of_ne st hpc]

lemma waitForCompletion (hpc : p ≠ x.sys.curr) (h : Head) : Remains p x (x.waitForCompletion h) := by
  simp only [WaitSys.waitForCompletion]
  split_ifs
  · exact move hpc (.asking h) .uninterruptible (Or.inr rfl) rfl
  · exact move hpc .away .running (Or.inl rfl) rfl

lemma waitAgain (hpc : p ≠ x.sys.curr) (h : Head) : Remains p x (x.waitAgain h) := by
  simp only [WaitSys.waitAgain]
  split_ifs
  · exact move hpc (.asking h) .uninterruptible (Or.inr rfl) rfl
  · exact move hpc .away .running (Or.inl rfl) rfl

/-- A call of `schedule` in a function that waits. -/
lemma park (hx : WaitInv x) (hpc : p ≠ x.sys.curr) (hs : x.park M = some x') : Remains p x x' := by
  have hsched : ∀ {s' : Sys} {pl : Place} {w : Head → List Waiter}, x.sys.schedule M = some s' →
      Remains p x { x.goto pl with sys := s', waiters := w } := fun hs =>
    ⟨Function.update_of_ne hpc .., hx.inv.schedule_states hs p⟩
  cases hh : x.here with
  | asking h =>
      simp only [WaitSys.park, hh] at hs
      obtain ⟨s', hs', rfl⟩ := Option.map_eq_some_iff.mp hs
      exact hsched hs'
  | dozing st q =>
      simp only [WaitSys.park, hh] at hs
      obtain ⟨s', hs', rfl⟩ := Option.map_eq_some_iff.mp hs
      exact hsched hs'
  | _ => simp [WaitSys.park, hh] at hs

lemma resume (hpc : p ≠ x.sys.curr) (hs : x.resume = some x') : Remains p x x' := by
  cases hh : x.here with
  | asked h =>
      obtain rfl : x.waitAgain h = x' := by simpa [WaitSys.resume, hh] using hs
      exact waitAgain hpc h
  | dozed st q =>
      obtain rfl : (x.removeWaitQueue (.queue q) ⟨x.sys.curr, false⟩).goto .away = x' := by
        simpa [WaitSys.resume, hh] using hs
      exact move hpc .away .running (Or.inl rfl) rfl
  | _ => simp [WaitSys.resume, hh] at hs

lemma complete (hx : WaitInv x) (h : Head) : Remains p x (x.complete M h) :=
  rouse (Rouses.wakeUpCommon 3 1 hx.inv fun _ hw => hx.waiter_isTask hw) rfl rfl

lemma mmRelease (hx : WaitInv x) : Remains p x (x.mmRelease M) := by
  rw [WaitSys.mmRelease]
  cases x.vforkDone x.sys.curr with
  | none => exact refl p x
  | some f =>
      have hy : WaitInv { x with vforkDone := Function.update x.vforkDone x.sys.curr none } :=
        hx.congr rfl rfl rfl rfl
      exact complete (M := M) hy (.vfork f)

/-- An operation of the scheduler. -/
lemma op (hx : WaitInv x) {o : Op} {s' : Sys} (hne : x.place p ≠ .away) (hok : x.Allows o)
    (hs : x.sys.exec M o = some s') : Remains p x (x.afterOp o s') := by
  obtain ⟨hsys, -, -, hp⟩ := x.afterOp_eq o s'
  refine ⟨congrFun hp p, ?_⟩
  rw [hsys]
  by_cases haway : x.here = .away
  · exact hx.toWaitOk.away_state haway hs p hne
  · exact (hx.toWaitOk.rouses_op haway hok hs).state p

/-- `do_fork` with `CLONE_VFORK`. -/
lemma vfork (hx : WaitInv x) (hb : x.CanBlock) (hpc : p ≠ x.sys.curr) (hne : x.place p ≠ .away)
    {flags : ForkFlags} {c : Tid} (hc : x.sys.IsFresh c) (hs : x.vfork M flags c = some x') :
    Remains p x x' := by
  obtain ⟨s', hfork, rfl⟩ := Option.map_eq_some_iff.mp hs
  have hexec : x.sys.exec M (.fork flags c) = some s' := (if_pos ⟨hb.1.2, hc⟩).trans hfork
  exact ⟨Function.update_of_ne hpc .., hx.toWaitOk.away_state hb.2 hexec p hne⟩

end Remains

/-- **A task asleep in `sleep_on` stays there, and is woken at most**, until `schedule` returns to it. -/
lemma WaitInv.dozed (hx : WaitInv x) (hp : x.place p = .dozed st q)
    (hno : NotBack p x o) (hs : x.exec M o = some x') : Remains p x x' := by
  have hne : x.place p ≠ .away := by simp [hp]
  -- a task that can take another step than `resume` is not asleep
  have helse : ∀ pl, x.here = pl → (∀ st q, pl ≠ .dozed st q) → p ≠ x.sys.curr := by
    rintro pl hh hpl rfl
    exact hpl st q (hh.symm.trans hp)
  cases o with
  | op o =>
      obtain ⟨hok, hs⟩ := Option.ite_none_right_eq_some.mp hs
      obtain ⟨s', hexec, rfl⟩ := Option.map_eq_some_iff.mp hs
      exact .op hx hne hok hexec
  | wakeUp q mode n =>
      obtain rfl := Option.some.inj hs
      exact .rouse (Rouses.wakeUpCommon mode n hx.inv fun _ hw => hx.waiter_isTask hw) rfl rfl
  | complete c =>
      obtain rfl := Option.some.inj hs
      exact .complete hx _
  | waitForCompletion c =>
      obtain ⟨⟨-, haway⟩, hs⟩ := Option.ite_none_right_eq_some.mp hs
      obtain rfl := Option.some.inj hs
      exact .waitForCompletion (helse _ haway (by simp)) _
  | sleepOn st' q' =>
      obtain ⟨⟨⟨-, haway⟩, -⟩, hs⟩ := Option.ite_none_right_eq_some.mp hs
      obtain rfl := Option.some.inj hs
      exact .move (helse _ haway (by simp)) (.dozing st' q') st' (Or.inr rfl) rfl
  | vfork flags c =>
      obtain ⟨⟨hb, -, hc⟩, hs⟩ := Option.ite_none_right_eq_some.mp hs
      exact .vfork hx hb (helse _ hb.2 (by simp)) hne hc hs
  | waitVfork =>
      obtain ⟨hh, hs⟩ := Option.ite_none_right_eq_some.mp hs
      obtain rfl := Option.some.inj hs
      exact .waitForCompletion (helse _ hh (by simp)) _
  | park =>
      refine .park hx ?_ hs
      rintro rfl
      simp [WaitSys.exec, WaitSys.park, show x.here = .dozed st q from hp] at hs
  | resume => exact .resume hno hs
  | mmRelease =>
      obtain ⟨-, hs⟩ := Option.ite_none_right_eq_some.mp hs
      obtain rfl := Option.some.inj hs
      exact .mmRelease hx

/-- Once it is running, it stays so. -/
lemma running_of_run (st : TaskState) (q : ℕ) {later : List WaitOp} (hx : WaitInv x) (hp : x.place p = .dozed st q)
    (hr : (x.sys.task p).state = .running) (hno : Along (WaitSys.exec M) (NotBack p) later x)
    (hrun : run (WaitSys.exec M) later x = some x') :
    WaitInv x' ∧ x'.place p = .dozed st q ∧ (x'.sys.task p).state = .running := by
  refine run_induct_along
    (P := fun x => WaitInv x ∧ x.place p = .dozed st q ∧ (x.sys.task p).state = .running)
    (fun x o x' hi hok hs => ?_) ⟨hx, hp, hr⟩ hno hrun
  obtain ⟨hx, hp, hr⟩ := hi
  obtain ⟨hplace, hstate⟩ := hx.dozed hp hok hs
  exact ⟨hx.step hs, hplace.trans hp, hstate.elim (fun he => he.trans hr) id⟩

/-- A wake-up of its queue, in a mode that has its state, leaves it running. -/
lemma WaitInv.wakeUp_dozed (hx : WaitInv x) (hp : x.place p = .dozed st q) {mode : ℕ} {n : ℤ}
    (hm : st.bit &&& mode ≠ 0) :
    ((x.wakeUp M (.queue q) mode n).sys.task p).state = .running := by
  have htask : ∀ w ∈ x.waiters (.queue q), x.sys.IsTask w.task := fun w hw => hx.waiter_isTask hw
  have hfits := hx.fits p
  rw [hp] at hfits
  rcases hfits.2 with hr | hst
  · exact (Rouses.wakeUpCommon mode n hx.inv htask).stays hr
  · have hmem : (⟨p, false⟩ : Waiter) ∈ x.waiters (.queue q) :=
      (hx.enlisted.mem _ _).mpr ⟨by rw [hp]; rfl, rfl⟩
    refine wakeUpCommon_all hx.inv htask (fun w hw => ?_) hmem (by rw [hst]; exact hm)
    exact ((hx.enlisted.mem _ w).mp hw).2

/-- **No wake-up of a queue is lost on a task that sleeps in it**: whatever else happens, it can run,
and nothing makes it sleep again before `schedule` returns to it. -/
theorem wakeUp_of_run {ops later : List WaitOp} {mode : ℕ} {n : ℤ}
    (hrun : run (WaitSys.exec M) ops (WaitSys.booted M) = some x) (hp : x.place p = .dozed st q)
    (hm : st.bit &&& mode ≠ 0)
    (hno : Along (WaitSys.exec M) (NotBack p) (.wakeUp q mode n :: later) x)
    (hrun' : run (WaitSys.exec M) (.wakeUp q mode n :: later) x = some x') :
    x'.place p = .dozed st q ∧ (x'.sys.task p).state = .running ∧ (x'.sys.task p).array ≠ none := by
  have hx := waitInv_of_run hrun
  obtain ⟨x₁, hs, hlater⟩ := run_cons_eq_some.mp hrun'
  have hx₁ := hx.step hs
  obtain rfl : x.wakeUp M (.queue q) mode n = x₁ := Option.some.inj hs
  obtain ⟨hx', hp', hr'⟩ :=
    running_of_run st q hx₁ hp (hx.wakeUp_dozed hp hm) (hno.2 _ hs) hlater
  have hmem : (⟨p, false⟩ : Waiter) ∈ x'.waiters (.queue q) :=
    (hx'.enlisted.mem _ _).mpr ⟨by rw [hp']; rfl, rfl⟩
  exact ⟨hp', hr', hx'.toWaitOk.queued hmem hr'⟩

end

/-- Two tasks sleep on a queue, and the idle task is on the processor. -/
def sleepersRun : List WaitOp :=
  [.op (.fork ⟨false, false⟩ 1), .op .schedule, .op (.fork ⟨false, false⟩ 2),
    .sleepOn .interruptible 7, .park, .sleepOn .uninterruptible 7, .park]

/-- One of them returns, the other can run. -/
theorem wakeUp_sleepersRun : ∃ x x',
    run (WaitSys.exec .hz100) sleepersRun (WaitSys.booted .hz100) = some x
      ∧ run (WaitSys.exec .hz100) [.wakeUp 7 3 1, .op .schedule, .resume] x = some x'
      ∧ x'.sys.curr = 2 ∧ x'.place 2 = .away
      ∧ x'.place 1 = .dozed .interruptible 7 ∧ (x'.sys.task 1).state = .running
      ∧ (x'.sys.task 1).array ≠ none := by
  have hrun : ((run (WaitSys.exec .hz100) sleepersRun (WaitSys.booted .hz100)).any fun x =>
      decide (x.place 1 = .dozed .interruptible 7
          ∧ Along (WaitSys.exec .hz100) (NotBack 1) [.wakeUp 7 3 1, .op .schedule, .resume] x)
        && (run (WaitSys.exec .hz100) [.wakeUp 7 3 1, .op .schedule, .resume] x).any fun x' =>
          decide (x'.sys.curr = 2 ∧ x'.place 2 = .away)) = true := by
    decide +kernel
  obtain ⟨x, hx, h⟩ := (Option.any_eq_true _ _).mp hrun
  obtain ⟨h1, h⟩ := (Bool.and_eq_true _ _).mp h
  obtain ⟨hp, hno⟩ := of_decide_eq_true h1
  obtain ⟨x', hx', h⟩ := (Option.any_eq_true _ _).mp h
  obtain ⟨hcurr, haway⟩ := of_decide_eq_true h
  exact ⟨x, x', hx, hx', hcurr, haway, wakeUp_of_run hx hp (by decide) hno hx'⟩

end Os234123.Sched
