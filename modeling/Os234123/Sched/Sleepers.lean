import Os234123.Lib.Counts
import Os234123.Sched.Slices
import Os234123.Sched.States

/-!
`nr_uninterruptible` counts the tasks that sleep and cannot be interrupted.

* `Sys.Dozes`: such a task;
* `Uncounted`: what leaves the counter alone;
* `KeepsCount`: a task that forks, yields or changes its parameters is not on its way to sleep;
* `SleepersOk.step`: a step keeps the count, by what it does to the states;
* `nrUninterruptible_of_run`: so it holds in every reachable state.
-/

namespace Os234123.Sched

open Machine

namespace Sys

/-- The task sleeps, and only a wake-up meant for it ends that. -/
def Dozes (s : Sys) (p : Tid) : Prop :=
  s.IsTask p ∧ (s.task p).array = none ∧ (s.task p).state = .uninterruptible

end Sys

/-! ### The counter -/

section

variable {M : Arch} {s s' : Sys} {p c f : Tid} {a : ArrayId} {l : List Tid}

@[simp] lemma Sys.dequeueTask_nrUninterruptible :
    (s.dequeueTask p a).nrUninterruptible = s.nrUninterruptible := by
  obtain ⟨arr, h⟩ := s.dequeueTask_frame p a
  rw [h]

@[simp] lemma Sys.enqueueAs_nrUninterruptible :
    (s.enqueueAs p a l).nrUninterruptible = s.nrUninterruptible := rfl

@[simp] lemma Sys.modTask_nrUninterruptible {g : Task → Task} :
    (s.modTask p g).nrUninterruptible = s.nrUninterruptible := rfl

@[simp] lemma Sys.activateTask_nrUninterruptible :
    (s.activateTask M p).nrUninterruptible = s.nrUninterruptible := rfl

lemma Sys.deactivateTask_nrUninterruptible (s : Sys) (p : Tid) :
    (s.deactivateTask p).nrUninterruptible
      = s.nrUninterruptible + if (s.task p).state = .uninterruptible then 1 else 0 := by
  simp only [deactivateTask]
  split_ifs <;> split <;> simp

lemma Sys.schedulerTick_nrUninterruptible :
    (s.schedulerTick M).nrUninterruptible = s.nrUninterruptible := by
  simp only [schedulerTick, tickRt, tickSlice, reschedTask, enqueueTask]
  split_ifs
  all_goals try simp
  · obtain ⟨e, b, -, heq⟩ := RqInv.expireOther_eq M (s.modTask s.curr fun t =>
        { t with sleepAvg := t.sleepAvg - 1, timeSlice := usub t.timeSlice 1 }) s.curr
    rw [heq]
    simp [enqueueTask]
  · simp only [expireShort, enqueueTask]
    split_ifs <;> split <;> simp

lemma Sys.tryToWakeUp_nrUninterruptible : (s.tryToWakeUp M p).nrUninterruptible = s.nrUninterruptible
    - if (s.task p).array = none ∧ (s.task p).state = .uninterruptible then 1 else 0 := by
  simp only [tryToWakeUp, reschedTask]
  cases ha : (s.task p).array with
  | some a => simp
  | none =>
      by_cases hst : (s.task p).state = .uninterruptible <;> simp only [hst] <;> split_ifs <;> simp_all

lemma Sys.setUserNice_nrUninterruptible {n : ℤ} :
    (s.setUserNice p n).nrUninterruptible = s.nrUninterruptible := by
  simp only [setUserNice]
  split_ifs
  · rfl
  · rfl
  · cases (s.task p).array with
    | none => rfl
    | some a =>
        have hq : (((s.dequeueTask p a).modTask p (renice n)).enqueueTask p a).nrUninterruptible
            = s.nrUninterruptible := dequeueTask_nrUninterruptible
        dsimp only
        split_ifs
        · exact hq
        · exact hq

lemma Sys.applyParams_nrUninterruptible {pol : Policy} {lp : SchedParam}
    (hst : (s.task p).array = none ∨ (s.task p).state ≠ .uninterruptible) :
    (s.applyParams M p pol lp).nrUninterruptible = s.nrUninterruptible := by
  have hch : ∀ s₁ : Sys, (s₁.changeParams M p pol lp).nrUninterruptible = s₁.nrUninterruptible := by
    intro s₁
    simp only [changeParams, reschedTask]
    split_ifs <;> rfl
  simp only [applyParams]
  cases ha : (s.task p).array with
  | none => exact hch s
  | some a =>
      have hne := hst.resolve_left (by simp [ha])
      dsimp only
      rw [activateTask_nrUninterruptible, hch, deactivateTask_nrUninterruptible, if_neg hne, add_zero]

lemma Sys.yieldQueue_nrUninterruptible (hst : (s.task s.curr).state ≠ .uninterruptible) :
    (s.yieldQueue M).nrUninterruptible = s.nrUninterruptible := by
  simp only [yieldQueue]
  by_cases hp : (s.task s.curr).policy = .short
  · rw [if_pos hp, activateTask_nrUninterruptible, deactivateTask_nrUninterruptible, if_neg hst, add_zero]
  rw [if_neg hp]
  cases (s.task s.curr).array with
  | none => rfl
  | some a =>
      dsimp only
      split_ifs <;> rfl

lemma Sys.schedulePrev_nrUninterruptible : s.schedulePrev.nrUninterruptible = s.nrUninterruptible
    + if (s.task s.curr).state = .uninterruptible then 1 else 0 := by
  have hstamp : ((s.modTask s.curr fun t => { t with sleepTimestamp := s.jiffies }).task s.curr).state
      = (s.task s.curr).state := by rw [modTask_task_self]
  have hoff : ∀ st, (s.task s.curr).state = st → ((s.modTask s.curr fun t =>
      { t with sleepTimestamp := s.jiffies }).deactivateTask s.curr).nrUninterruptible
        = s.nrUninterruptible + if st = .uninterruptible then 1 else 0 := by
    rintro st rfl
    rw [deactivateTask_nrUninterruptible, hstamp, modTask_nrUninterruptible]
  cases hst : (s.task s.curr).state with
  | running => simp [schedulePrev, hst]
  | interruptible =>
      simp only [schedulePrev, hstamp, hst]
      split
      · simp
      · exact hoff _ hst
  | uninterruptible =>
      simp only [schedulePrev, hstamp, hst]
      exact hoff _ hst
  | zombie =>
      simp only [schedulePrev, hstamp, hst]
      exact hoff _ hst
  | stopped =>
      simp only [schedulePrev, hstamp, hst]
      exact hoff _ hst

lemma Sys.switchTo_nrUninterruptible (s : Sys) (next : Tid) :
    (s.switchTo next).nrUninterruptible = s.nrUninterruptible := by
  simp only [switchTo]
  split_ifs <;> rfl

lemma Sys.schedule_nrUninterruptible (hs : s.schedule M = some s') :
    s'.nrUninterruptible = s.nrUninterruptible
      + if (s.task s.curr).state = .uninterruptible then 1 else 0 := by
  obtain ⟨next, -, rfl⟩ := Option.map_eq_some_iff.mp hs
  rw [← schedulePrev_nrUninterruptible]
  have hpick : (s.schedulePrev.pickNext M).1.nrUninterruptible = s.schedulePrev.nrUninterruptible := by
    simp only [pickNext, switchArrays]
    split_ifs <;> rfl
  exact (switchTo_nrUninterruptible _ _).trans hpick

lemma Sys.queueShortChild_nrUninterruptible (hst : (s.task f).state ≠ .uninterruptible) :
    (s.queueShortChild M f c).nrUninterruptible = s.nrUninterruptible := by
  set s₁ : Sys := { s.enqueueFirst c .shortActive with
    nrRunning := (s.enqueueFirst c .shortActive).nrRunning + 1 } with hs₁
  have hsame : (s₁.task f).state = (s.task f).state :=
    SameStates.enqueueAs (x := none) (s := s) (p := c) (a := .shortActive)
      (l := c :: (s.arr .shortActive).queue (s.task c).prio) f (by simp)
  have heq : s.queueShortChild M f c = (s₁.deactivateTask f).activateTask M f := rfl
  rw [heq, activateTask_nrUninterruptible, deactivateTask_nrUninterruptible, hsame, if_neg hst, add_zero]
  rfl

lemma Sys.doFork_nrUninterruptible {flags : ForkFlags} (hc : c ≠ s.curr)
    (hst : (s.task s.curr).state ≠ .uninterruptible) (hs : s.doFork M flags c = some s') :
    s'.nrUninterruptible = s.nrUninterruptible := by
  obtain ⟨s₁, hshare, rfl⟩ := Option.map_eq_some_iff.mp hs
  have hcopy : ((s.forkCopy c).task (s.forkCopy c).curr).state = (s.task s.curr).state := by
    rw [forkCopy, modTask_curr, modTask_task_of_ne _ _ _ hc.symm]
  have hshared := forkShare_shared (s := s.forkCopy c) hc hshare
  have hcurr : s₁.curr = s.curr := (hshared.frame (s := s.forkCopy c) hc).2.2.1
  have hst₁ : (s₁.task s₁.curr).state ≠ .uninterruptible := by
    rw [hcurr, SameStates.forkShare (s := s.forkCopy c) hc hshare _ fun he => hc (Option.some.inj he)]
    exact hcopy ▸ hst
  have h₁ : s₁.nrUninterruptible = s.nrUninterruptible := by
    cases hshared with
    | halved _ _ => rfl
    | charged _ _ => exact schedulerTick_nrUninterruptible
  rw [← h₁]
  have hlink : ((s₁.linkChild flags c).task s₁.curr).state ≠ .uninterruptible := by
    rw [linkChild_of_ne s₁ flags fun he => hc (he.symm.trans hcurr)]
    exact hst₁
  have hcut : ∀ t : Sys, (t.cutSleepAvg M c).nrUninterruptible = t.nrUninterruptible := fun t => by
    simp only [cutSleepAvg]
    split_ifs <;> rfl
  have hshort : ((s₁.linkChild flags c).wakeUpShortForkedProcess M s₁.curr c).nrUninterruptible
      = s₁.nrUninterruptible := by
    simp only [wakeUpShortForkedProcess]
    split_ifs
    · rfl
    · refine (queueShortChild_nrUninterruptible ?_).trans (hcut _)
      rw [SameStates.cutSleepAvg s₁.curr fun he => hc ((Option.some.inj he).trans hcurr)]
      exact hlink
  have hwake : ((s₁.linkChild flags c).wakeUpForkedProcess M c).nrUninterruptible
      = s₁.nrUninterruptible := hcut _
  simp only [forkWake]
  split_ifs
  · exact hshort
  · exact hwake
  · exact hshort
  · exact hwake

lemma Sys.schedExit_nrUninterruptible : (s.schedExit M p).nrUninterruptible = s.nrUninterruptible := by
  simp only [schedExit]
  split_ifs <;> rfl

/-- A pass of `schedule` keeps uninterruptible sleep. -/
lemma Inv.schedule_uninterruptible (h : Inv s) (hs : s.schedule M = some s') (p : Tid) :
    (s'.task p).state = .uninterruptible ↔ (s.task p).state = .uninterruptible := by
  obtain ⟨s₁, next, heq, -, -, -, htask, -⟩ := h.schedule_cases M
  obtain rfl := Option.some.inj (heq.symm.trans hs)
  rw [((switchTo_frame s₁ next).2.2.2.1 p).state, htask]
  by_cases hp : p = s.curr
  · subst hp
    have hoff : ((s.modTask s.curr fun t => { t with sleepTimestamp := s.jiffies }).deactivateTask
        s.curr).task s.curr
          = { s.task s.curr with sleepTimestamp := s.jiffies, array := none } := by
      rw [deactivateTask_self, Sys.modTask_task_self]
    cases hst : (s.task s.curr).state with
    | running => simp [Sys.schedulePrev, hst]
    | interruptible =>
        simp only [Sys.schedulePrev, Sys.modTask_task_self, hst]
        split_ifs
        · simp
        · simp [hoff, hst]
    | _ => simp [Sys.schedulePrev, hst, hoff]
  · rw [(h.schedulePrev_quiet.kept p fun he => hp (Option.some.inj he).symm).state]

end

/-! ### Steps -/

/-- The calls during which the kernel takes the caller, or the task it names, off its queue. -/
def Op.requeues : Op → Bool
  | .fork _ _ => true
  | .setscheduler _ _ _ => true
  | .yield => true
  | _ => false

/-- A task that makes one of these calls is not on its way to sleep. -/
def KeepsCount (s : Sys) (o : Op) : Prop :=
  o.requeues = true → (s.task s.curr).state ≠ .uninterruptible

instance (s : Sys) (o : Op) : Decidable (KeepsCount s o) :=
  inferInstanceAs (Decidable (_ → _))

/-- The counter is right. -/
def SleepersOk (s : Sys) : Prop := Counts s.Dozes s.nrUninterruptible

section

variable {M : Arch} {s s' : Sys} {p : Tid} {o : Op}

/-- A task sleeps when it does not run and its state says so. -/
lemma Inv.dozes_iff (h : Inv s) :
    s.Dozes p ↔ p ≠ s.curr ∧ s.IsTask p ∧ (s.task p).state = .uninterruptible := by
  constructor
  · rintro ⟨ht, ha, hst⟩
    refine ⟨fun hc => ?_, ht, hst⟩
    exact h.curr (hc ▸ ht.2) (hc ▸ ha)
  · rintro ⟨hc, ht, hst⟩
    refine ⟨ht, by_contra fun ha => ?_, hst⟩
    have := (h.awake p ht hc).mpr ha
    rw [hst] at this
    exact absurd this (by decide)

/-- An operation that leaves the states of the tasks that do not run. -/
lemma SleepersOk.still (hs : SleepersOk s) (h : Inv s) (h' : Inv s') (hc : s'.curr = s.curr)
    (hn : s'.nrUninterruptible = s.nrUninterruptible)
    (hst : ∀ p, p ≠ s.curr → (s'.IsTask p ∧ (s'.task p).state = .uninterruptible
      ↔ s.IsTask p ∧ (s.task p).state = .uninterruptible)) : SleepersOk s' := by
  rw [SleepersOk, hn]
  refine hs.congr fun p => ?_
  rw [h.dozes_iff, h'.dozes_iff, hc]
  exact and_congr_right (hst p)

/-- Nobody comes or goes. -/
lemma SleepersOk.of_same {x : Option Tid} (hs : SleepersOk s) (h : Inv s) (h' : Inv s')
    (hc : s'.curr = s.curr) (hlive : s'.live = s.live) (hidle : s'.idle = s.idle)
    (hn : s'.nrUninterruptible = s.nrUninterruptible) (hst : SameStates x s s')
    (hx : x = none ∨ x = some s.curr) : SleepersOk s' := by
  refine hs.still h h' hc hn fun p hp => ?_
  rw [Sys.IsTask, Sys.IsTask, hlive, hidle, hst p fun he => ?_]
  rcases hx with rfl | rfl
  · exact absurd he (by simp)
  · exact hp (Option.some.inj he).symm

/-- **A wake-up.** -/
lemma SleepersOk.tryToWakeUp (hs : SleepersOk s) (h : Inv s) (hp : s.IsTask p) :
    SleepersOk (s.tryToWakeUp M p) := by
  have h' : Inv (s.tryToWakeUp M p) := (Step.wake h hp).inv
  have hquiet := Quiet.tryToWakeUp (M := M) h.known_curr (Or.inl hp)
  have hself : ((s.tryToWakeUp M p).task p).state = .running := (tryToWakeUp_self M s p).2.1
  have hother : ∀ q, q ≠ p → ((s.tryToWakeUp M p).task q).state = (s.task q).state := fun q hq =>
    (hquiet.kept q fun he => hq (Option.some.inj he).symm).state
  have htask : ∀ q, (s.tryToWakeUp M p).IsTask q ↔ s.IsTask q := fun q => by
    rw [Sys.IsTask, Sys.IsTask, hquiet.live, hquiet.idle]
  have hn := Sys.tryToWakeUp_nrUninterruptible (M := M) (s := s) (p := p)
  by_cases hd : s.Dozes p
  · rw [if_pos hd.2] at hn
    rw [SleepersOk, hn]
    refine hs.erase hd fun q => ?_
    rw [h.dozes_iff, h'.dozes_iff, hquiet.curr, htask]
    by_cases hq : q = p
    · rw [hq, hself]
      simp
    · rw [hother q hq]
      simp [hq]
  · rw [if_neg fun hc => hd ⟨hp, hc⟩, sub_zero] at hn
    refine hs.still h h' hquiet.curr hn fun q hq => ?_
    rw [htask]
    by_cases hqp : q = p
    · subst hqp
      rw [hself]
      refine iff_of_false (by simp) fun hc => hd ?_
      exact h.dozes_iff.mpr ⟨hq, hc⟩
    · rw [hother q hqp]

/-- **A pass of `schedule`** counts the running task if it goes to sleep. -/
lemma SleepersOk.schedule (hs : SleepersOk s) (h : Inv s) (hsched : s.schedule M = some s') :
    SleepersOk s' := by
  have hstep : Step M s .schedule s' := exec_step h hsched
  have hn := Sys.schedule_nrUninterruptible hsched
  have htask : ∀ q, s'.IsTask q ↔ s.IsTask q := fun q => by
    rw [Sys.IsTask, Sys.IsTask, hstep.live, hstep.idle]
    rfl
  -- the task that gets the processor is running
  have hdozes : ∀ q, s'.Dozes q ↔ s.IsTask q ∧ (s.task q).state = .uninterruptible := fun q => by
    rw [hstep.inv.dozes_iff, htask, h.schedule_uninterruptible hsched]
    refine ⟨And.right, fun hq => ⟨fun hc => ?_, hq⟩⟩
    have hrun := h.schedule_state hsched (hc ▸ ((htask q).mpr hq.1).2)
    rw [← hc] at hrun
    rw [(h.schedule_uninterruptible hsched q).mpr hq.2] at hrun
    exact absurd hrun (by decide)
  by_cases hst : (s.task s.curr).state = .uninterruptible
  · have hne : s.curr ≠ s.idle := fun hi => by
      rw [hi, h.idle.state] at hst
      exact absurd hst (by decide)
    rw [SleepersOk, hn, if_pos hst]
    refine hs.insert (x := s.curr) (fun hd => (h.dozes_iff.mp hd).1 rfl) fun q => ?_
    rw [hdozes, h.dozes_iff]
    by_cases hq : q = s.curr
    · rw [hq]
      exact iff_of_true ⟨h.queued _ (h.curr hne), hst⟩ (Or.inl rfl)
    · simp [hq]
  · rw [SleepersOk, hn, if_neg hst, add_zero]
    refine hs.congr fun q => ?_
    rw [hdozes, h.dozes_iff]
    refine ⟨fun hq => ⟨fun hc => hst (hc ▸ hq.2), hq⟩, And.right⟩

/-- **Every operation keeps the counter right.** -/
theorem SleepersOk.step (hs : SleepersOk s) (h : Inv s) (hok : KeepsCount s o)
    (he : s.exec M o = some s') : SleepersOk s' := by
  have hstep := exec_step h he
  have h' := hstep.inv
  cases o with
  | elapse =>
      obtain rfl := Option.some.inj he
      exact hs.of_same h h' rfl rfl rfl rfl (SameStates.refl s) (Or.inl rfl)
  | tick =>
      obtain rfl := Option.some.inj he
      exact hs.of_same h h' (hstep.curr rfl) hstep.live hstep.idle Sys.schedulerTick_nrUninterruptible
        SameStates.schedulerTick (Or.inl rfl)
  | wake q =>
      obtain ⟨hq, he⟩ := Option.ite_none_right_eq_some.mp he
      obtain rfl := Option.some.inj he
      exact hs.tryToWakeUp h hq
  | signal q b =>
      obtain ⟨-, he⟩ := Option.ite_none_right_eq_some.mp he
      obtain rfl := Option.some.inj he
      exact hs.of_same h h' rfl rfl rfl rfl (SameStates.modTask rfl) (Or.inl rfl)
  | setState st =>
      obtain ⟨-, he⟩ := Option.ite_none_right_eq_some.mp he
      obtain rfl := Option.some.inj he
      exact hs.of_same h h' rfl rfl rfl rfl SameStates.modSelf (Or.inr rfl)
  | setCred u e c =>
      obtain ⟨-, he⟩ := Option.ite_none_right_eq_some.mp he
      obtain rfl := Option.some.inj he
      exact hs.of_same h h' rfl rfl rfl rfl (SameStates.modTask rfl) (Or.inl rfl)
  | schedule => exact hs.schedule h he
  | fork flags c =>
      obtain ⟨⟨-, hc⟩, hf⟩ := Option.ite_none_right_eq_some.mp he
      have hforked := (h.doFork M (fun hk => hk.elim (fun ht => hc.1 ht.1) hc.2.1) hf).2
      have hsame : SameStates (some c) s s' := SameStates.doFork hc.2.2 hf
      refine hs.still h h' (hstep.curr rfl) (Sys.doFork_nrUninterruptible hc.2.2 (hok rfl) hf)
        fun p _ => ?_
      by_cases hpc : p = c
      · subst hpc
        rw [hforked.state]
        exact iff_of_false (by simp) fun hp => hc.1 hp.1.1
      · rw [Sys.IsTask, Sys.IsTask, hforked.live, hforked.idle, Function.update_of_ne hpc,
          hsame p fun he => hpc (Option.some.inj he).symm]
  | nice q n =>
      obtain ⟨hq, he⟩ := Option.ite_none_right_eq_some.mp he
      obtain rfl := Option.some.inj he
      have hquiet : Quiet none s (s.setUserNice q n) := Quiet.setUserNice h.known_curr (Or.inl hq)
      exact hs.of_same h h' (hstep.curr rfl) hstep.live hstep.idle Sys.setUserNice_nrUninterruptible
        (SameStates.of_quiet hquiet) (Or.inl rfl)
  | setscheduler pid policy param =>
      obtain ⟨hin, he⟩ := Option.ite_none_right_eq_some.mp he
      obtain rfl := Option.some.inj he
      rcases s.setscheduler_outcome M pid policy param with
        ⟨sp, e, heq⟩ | ⟨q, pol, lp, -, hfind, rfl, hout⟩
      · rw [heq]
        exact hs
      · generalize s.setscheduler M pid policy (.readable lp) = x at hout hstep h'
        cases hout with
        | refused sp e => exact hs
        | changed sp hacc =>
            set s₁ : Sys := { s with superpriv := sp }
            have h₁ : Inv s₁ := ⟨h.toRqInv.of_counters, h.curr, h.awake⟩
            have hq : s₁.IsTask q := h.isTask_of_find hin.1 hfind
            have hquiet : Quiet (some q) s₁ (s₁.applyParams M q pol lp) :=
              Quiet.applyParams h₁.known_curr (Or.inl hq)
            have hsame : SameStates none s (s₁.applyParams M q pol lp) := fun p _ => by
              by_cases hpq : p = q
              · exact hpq ▸ (applyParams_self M s₁ q pol lp).2.1
              · exact (hquiet.kept p fun he => hpq (Option.some.inj he).symm).state
            -- the task taken off its queue runs, and so it is not counted
            have hst : (s₁.task q).array = none ∨ (s₁.task q).state ≠ .uninterruptible := by
              by_cases hqc : q = s.curr
              · exact Or.inr (hqc ▸ hok rfl)
              · refine or_iff_not_imp_left.mpr fun ha hu => ?_
                rw [(h.awake q hq hqc).mpr ha] at hu
                exact absurd hu (by decide)
            exact hs.of_same h h' hquiet.curr hquiet.live hquiet.idle
              (Sys.applyParams_nrUninterruptible hst) hsame (Or.inl rfl)
  | yield =>
      obtain ⟨hin, he⟩ := Option.ite_none_right_eq_some.mp he
      have hquiet : Quiet none s (s.yieldQueue M) := Quiet.yieldQueue h hin.1
      have hy : Inv (s.yieldQueue M) := h.yieldQueue hin.1
      have hs₁ : SleepersOk (s.yieldQueue M) := hs.of_same h hy hquiet.curr hquiet.live hquiet.idle
        (Sys.yieldQueue_nrUninterruptible (hok rfl)) (SameStates.of_quiet hquiet) (Or.inl rfl)
      exact hs₁.schedule hy he
  | exit r =>
      obtain ⟨-, he⟩ := Option.ite_none_right_eq_some.mp he
      obtain rfl := Option.some.inj he
      have hquiet := Quiet.doExit h.toRqInv h.known_curr (r := r)
      exact hs.of_same h h' (hstep.curr rfl) hstep.live hstep.idle rfl (SameStates.of_quiet hquiet)
        (Or.inr rfl)
  | reap q =>
      obtain ⟨hq, he⟩ := Option.ite_none_right_eq_some.mp he
      obtain rfl := Option.some.inj he
      refine hs.still h h' (hstep.curr rfl) Sys.schedExit_nrUninterruptible fun p _ => ?_
      have hsame : SameStates none s (s.schedExit M q) := SameStates.schedExit
      have hlive : (s.releaseTask M q).live = Function.update s.live q false := hstep.live
      rw [Sys.IsTask, Sys.IsTask, hlive, hstep.idle]
      by_cases hpq : p = q
      · subst hpq
        rw [Function.update_self]
        refine iff_of_false (by simp) fun hp => ?_
        rw [hq.2.2.2.1] at hp
        exact absurd hp.2 (by decide)
      · rw [Function.update_of_ne hpq]
        exact and_congr_right fun _ => by rw [← hsame p (by simp)]; rfl

lemma SleepersOk.booted (M : Arch) : SleepersOk (Sys.booted M) := by
  have hn : (Sys.booted M).nrUninterruptible = 0 := by
    rw [booted_eq, Sys.modTask_nrUninterruptible, Sys.deactivateTask_nrUninterruptible]
    rfl
  rw [SleepersOk, hn]
  refine Counts.zero fun p hp => ?_
  have := hp.1.1
  simp [booted_live] at this

/-- **`nr_uninterruptible` counts the tasks in uninterruptible sleep**, in every state reached while no
task forks, yields or changes parameters on its way to sleep. -/
theorem nrUninterruptible_of_run {ops : List Op}
    (hok : Along (Sys.exec M) KeepsCount ops (Sys.booted M))
    (h : run (Sys.exec M) ops (Sys.booted M) = some s) : Counts s.Dozes s.nrUninterruptible :=
  (run_induct_along (P := fun s => Inv s ∧ SleepersOk s)
    (fun _ _ _ hi ho hs => ⟨(exec_step hi.1 hs).inv, hi.2.step hi.1 ho hs⟩)
    ⟨booted_inv M, SleepersOk.booted M⟩ hok h).2

end

/-- A run at whose end two tasks wait for the disk, after a third has been woken. -/
def diskRun : List Op :=
  [.fork ⟨false, false⟩ 1, .schedule, .fork ⟨false, false⟩ 2, .fork ⟨false, false⟩ 3,
    .setState .uninterruptible, .schedule, .setState .uninterruptible, .schedule,
    .setState .uninterruptible, .schedule, .wake 2]

/-- The counter says two. -/
theorem nrUninterruptible_diskRun : ∃ s, run (Sys.exec .hz100) diskRun (Sys.booted .hz100) = some s
    ∧ Counts s.Dozes 2 := by
  have hrun : ((run (Sys.exec .hz100) diskRun (Sys.booted .hz100)).any fun s =>
      decide (s.nrUninterruptible = 2)) = true := by
    decide +kernel
  obtain ⟨s, hs, hdec⟩ := (Option.any_eq_true _ _).mp hrun
  have hcount := nrUninterruptible_of_run (by decide +kernel) hs
  rw [of_decide_eq_true hdec] at hcount
  exact ⟨s, hs, hcount⟩

end Os234123.Sched
