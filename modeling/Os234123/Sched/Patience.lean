import Os234123.Sched.SleepAvg
import Os234123.Sched.Slices

/-!
How long a task can keep others from the processor.

* `tick_other`, `tick_regular`: the tick of a task with a slice, exactly;
* `patience`: how many ticks an ordinary task can take before it is expired;
* `weight`: how many ticks a queued task can take before one that waits is served;
* `weight_tick_other`, `weight_tick_regular`: a tick lowers the weight of the task that runs;
* `weight_le`: no weight is larger than fourteen seconds.
-/

namespace Os234123.Sched

/-! ### The tick of a task with a slice -/

section

variable {M : Arch} {s s' : Sys} {p q : Tid}

/-- A task without a sleep average is not interactive, whatever its nice value. -/
lemma not_interactive_of_sleepAvg (M : Arch) {t : Task} (hst : maxRtPrio ≤ t.staticPrio)
    (hst' : t.staticPrio < maxPrio) (h0 : t.sleepAvg = 0) :
    ¬ Task.Interactive { t with prio := t.effectivePrio M } := by
  have hprio : t.effectivePrio M = min (t.staticPrio + 5) 139 := by
    simp only [Task.effectivePrio, h0, maxRtPrio, maxPrio, maxUserPrio, prioBonusRatio] at *
    simp only [mul_zero, Nat.zero_div]
    split_ifs <;> omega
  have hdelta : -5 < t.delta ∧ (134 < t.staticPrio → 0 < t.delta) := by
    have hten : ((maxUserPrio * prioBonusRatio / 100 : ℕ) : ℤ) = 10 := by decide
    have hdiv := Int.mul_tdiv_add_tmod (t.nice * 10) 40
    have hmod := Int.tmod_lt_of_pos (t.nice * 10) (by decide : (0 : ℤ) < 40)
    rw [Task.delta, hten]
    simp only [Task.nice, prioToNice, maxRtPrio, maxPrio, interactiveDelta] at *
    omega
  show ¬ ((t.effectivePrio M : ℕ) : ℤ) ≤ (t.staticPrio : ℤ) - t.delta
  rw [hprio]
  simp only [maxPrio] at hst'
  omega

/-- Where a task goes when its slice has ended: it stays in the active array only with a sleep
average left. -/
lemma expireOther_array (h : RqInv s) (ha : (s.task p).array = some s.active) :
    ∃ a, (s.expireOther M p).task = Function.update s.task p
        { Sys.refillOther M (s.task p) with array := some a }
      ∧ (a = s.expired ∨ a = s.active ∧ (s.task p).sleepAvg ≠ 0) := by
  have ht := (h.tasks p (h.queued p (by simp [ha]))).static
  set s₁ := (s.dequeueTask p s.active).modTask p (Sys.refillOther M) with hs₁
  have hself : s₁.task p = Sys.refillOther M (s.task p) := by simp [hs₁]
  have hend : ∀ a, (s₁.enqueueTask p a).task = Function.update s.task p
      { Sys.refillOther M (s.task p) with array := some a } := fun a => by
    simp only [hs₁, Sys.enqueueTask, Sys.enqueueAs_task, Sys.modTask, Sys.dequeueTask_task,
      Function.update_self, Function.update_idem]
  have hexp : s₁.expired = s.expired := by simp [hs₁]
  have hact : s₁.active = s.active := by simp [hs₁]
  simp only [Sys.expireOther, ← hs₁, hself]
  split_ifs with hi h0
  · exact ⟨s.expired, by rw [← hexp]; exact hend _, Or.inl rfl⟩
  · exact ⟨s.expired, by rw [← hexp]; exact hend _, Or.inl rfl⟩
  · refine ⟨s.active, by rw [← hact]; exact hend _, Or.inr ⟨rfl, fun hz => ?_⟩⟩
    rw [not_or, not_not] at hi
    exact not_interactive_of_sleepAvg M (t := { s.task p with needResched := true }) ht.1 ht.2 hz hi.1

/-- **The tick of an ordinary task.** -/
lemma tick_other (h : RqInv s) (hc : s.curr ≠ s.idle) (ha : (s.task s.curr).array = some s.active)
    (hp : (s.task s.curr).policy = .other) (hpos : 1 ≤ (s.task s.curr).timeSlice)
    (hlt : (s.task s.curr).timeSlice < uintSize) :
    1 < (s.task s.curr).timeSlice ∧ (s.schedulerTick M).task s.curr
        = { s.task s.curr with
          sleepAvg := (s.task s.curr).sleepAvg - 1, timeSlice := (s.task s.curr).timeSlice - 1 }
      ∨ (s.task s.curr).timeSlice = 1 ∧ ∃ a, (s.schedulerTick M).task s.curr
          = { Sys.refillOther M { s.task s.curr with
              sleepAvg := (s.task s.curr).sleepAvg - 1, timeSlice := 0 } with array := some a }
        ∧ (a = s.expired ∨ a = s.active ∧ 1 < (s.task s.curr).sleepAvg) := by
  have ht := h.tasks s.curr (h.queued _ (by simp [ha]))
  have hrt : ¬ (s.task s.curr).IsRt := by
    rw [ht.isRt_iff, hp]
    decide
  have hon : s.OnTickedArray s.curr := Or.inl ha
  have hspend : usub (s.task s.curr).timeSlice 1 = (s.task s.curr).timeSlice - 1 := usub_of_le hlt hpos
  simp only [Sys.schedulerTick, if_neg hc, hon, not_true_eq_false, if_false, if_neg hrt,
    Sys.tickSlice, Sys.modTask_task_self, hspend]
  set s₁ := s.modTask s.curr fun t =>
    { t with sleepAvg := t.sleepAvg - 1, timeSlice := usub t.timeSlice 1 } with hs₁
  have hself : s₁.task s.curr = { s.task s.curr with
      sleepAvg := (s.task s.curr).sleepAvg - 1, timeSlice := (s.task s.curr).timeSlice - 1 } := by
    rw [hs₁, Sys.modTask_task_self, hspend]
  have h₁ : RqInv s₁ := h.modKey ⟨rfl, rfl, rfl, rfl, rfl⟩ fun hi => absurd hi hc
  by_cases h1 : (s.task s.curr).timeSlice = 1
  · refine Or.inr ⟨h1, ?_⟩
    have hz : (s.task s.curr).timeSlice - 1 = 0 := by omega
    rw [if_pos hz, if_pos (by simp [hp])]
    obtain ⟨a, htask, hor⟩ := expireOther_array (M := M) h₁ (p := s.curr) (by rw [hself]; exact ha)
    refine ⟨a, ?_, ?_⟩
    · rw [htask, Function.update_self, hself, hz]
    · rw [hself] at hor
      refine hor.imp_right fun hact => ⟨hact.1, ?_⟩
      have hne : (s.task s.curr).sleepAvg - 1 ≠ 0 := hact.2
      omega
  · have hz : (s.task s.curr).timeSlice - 1 ≠ 0 := by omega
    rw [if_neg hz]
    exact Or.inl ⟨by omega, hself⟩

/-- **The tick of a regular SHORT task.** -/
lemma tick_regular (h : RqInv s) (hc : s.curr ≠ s.idle)
    (ha : (s.task s.curr).array = some .shortActive) (hp : (s.task s.curr).IsRegular)
    (hpos : 1 ≤ (s.task s.curr).timeSlice) (hlt : (s.task s.curr).timeSlice < uintSize) :
    1 < (s.task s.curr).timeSlice ∧ (s.schedulerTick M).task s.curr
        = { s.task s.curr with
          sleepAvg := (s.task s.curr).sleepAvg - 1, timeSlice := (s.task s.curr).timeSlice - 1 }
      ∨ (s.task s.curr).timeSlice = 1 ∧ (s.schedulerTick M).task s.curr
          = { Sys.turnOverdue M { s.task s.curr with
              sleepAvg := (s.task s.curr).sleepAvg - 1, timeSlice := 0 } with
            array := some .overdue } := by
  have ht := h.tasks s.curr (h.queued _ (by simp [ha]))
  have hrt : ¬ (s.task s.curr).IsRt := by
    rw [ht.isRt_iff, hp.1]
    decide
  have hon : s.OnTickedArray s.curr := Or.inr (Or.inl ha)
  have hspend : usub (s.task s.curr).timeSlice 1 = (s.task s.curr).timeSlice - 1 := usub_of_le hlt hpos
  simp only [Sys.schedulerTick, if_neg hc, hon, not_true_eq_false, if_false, if_neg hrt,
    Sys.tickSlice, Sys.modTask_task_self, hspend]
  by_cases h1 : (s.task s.curr).timeSlice = 1
  · have hz : (s.task s.curr).timeSlice - 1 = 0 := by omega
    rw [if_pos hz, if_neg (by simp [hp.1]), Sys.expireShort_task, Function.update_self,
      Sys.modTask_task_self, if_pos hp.2, hspend, hz]
    exact Or.inr ⟨h1, rfl⟩
  · have hz : (s.task s.curr).timeSlice - 1 ≠ 0 := by omega
    rw [if_neg hz, Sys.modTask_task_self, hspend]
    exact Or.inl ⟨by omega, rfl⟩

/-! ### How long others have to wait -/

/-- How many ticks an ordinary task of the active array can take before it is expired: the slice it
has if its sleep average does not outlast it, and otherwise no more than a whole slice after the
average is used up. -/
def patience (M : Arch) (t : Task) : ℕ :=
  if t.sleepAvg ≤ t.timeSlice then t.timeSlice else t.sleepAvg + M.maxTimeslice

/-- How many ticks a queued task can take before a task that waits is served: before the arrays are
exchanged and, if the task waits in the expired one (`both`), after that. -/
def weight (M : Arch) (active : ArrayId) (both : Bool) (t : Task) : ℕ :=
  if t.array = none then 0
  else if t.policy = .short then if t.isShort = 1 then t.timeSlice else 0
  else if t.array = some active then
    patience M t + if both then max (patience M t) M.maxTimeslice else 0
  else if both then patience M t else 0

/-- The weight of an ordinary task. -/
lemma weight_other {active : ArrayId} {both : Bool} {t : Task} (hp : t.policy = .other) {a : ArrayId}
    (ha : t.array = some a) : weight M active both t = if a = active then
      patience M t + if both then max (patience M t) M.maxTimeslice else 0
    else if both then patience M t else 0 := by
  simp [weight, ha, hp]

/-- A tick within the slice. -/
lemma patience_spend {t : Task} (h1 : 1 < t.timeSlice) :
    patience M { t with sleepAvg := t.sleepAvg - 1, timeSlice := t.timeSlice - 1 } < patience M t := by
  simp only [patience]
  split_ifs <;> omega

/-- A new slice: with a sleep average left it takes a tick off the patience, and in any case the new
patience is one of another round. -/
lemma patience_refill (hz : 100 ≤ M.HZ) {t : Task} {a : ArrayId} (hst : maxRtPrio ≤ t.staticPrio)
    (h1 : t.timeSlice = 1) :
    let t' := { Sys.refillOther M { t with sleepAvg := t.sleepAvg - 1, timeSlice := 0 } with
      array := some a }
    patience M t' ≤ max (patience M t) M.maxTimeslice
      ∧ (1 < t.sleepAvg → patience M t' < patience M t) := by
  intro t'
  obtain ⟨hmin, hmax⟩ := t.timeslice_bounds M hst
  have hts : t'.timeSlice = t.timeslice M := rfl
  have havg : t'.sleepAvg = t.sleepAvg - 1 := rfl
  have hpos : 1 ≤ M.minTimeslice := by
    simp only [Arch.minTimeslice]
    omega
  simp only [patience, hts, havg, h1]
  constructor
  · split_ifs <;> omega
  · intro h
    split_ifs <;> omega

/-- **A tick lowers the weight of the ordinary task that runs.** -/
lemma weight_tick_other (hz : 100 ≤ M.HZ) (h : RqInv s) (hc : s.curr ≠ s.idle)
    (ha : (s.task s.curr).array = some s.active) (hp : (s.task s.curr).policy = .other)
    (hpos : 1 ≤ (s.task s.curr).timeSlice) (hlt : (s.task s.curr).timeSlice < uintSize)
    (both : Bool) : weight M s.active both ((s.schedulerTick M).task s.curr)
      < weight M s.active both (s.task s.curr) := by
  have hst := (h.tasks s.curr (h.queued _ (by simp [ha]))).static.1
  have hpat : 1 ≤ patience M (s.task s.curr) := by
    simp only [patience]
    split_ifs <;> omega
  have hold : weight M s.active both (s.task s.curr) = patience M (s.task s.curr)
      + if both then max (patience M (s.task s.curr)) M.maxTimeslice else 0 := by
    rw [weight_other hp ha, if_pos rfl]
  rw [hold]
  have htick := tick_other (M := M) h hc ha hp hpos hlt
  generalize (s.schedulerTick M).task s.curr = t' at htick ⊢
  rcases htick with ⟨h1, he⟩ | ⟨h1, a, he, hor⟩
  · have hdrop : patience M t' < patience M (s.task s.curr) := by
      rw [he]
      exact patience_spend h1
    have hp' : t'.policy = .other := by
      rw [he]
      exact hp
    have ha' : t'.array = some s.active := by
      rw [he]
      exact ha
    rw [weight_other hp' ha', if_pos rfl]
    cases both <;> simp only [Bool.false_eq_true, if_true, if_false] <;> omega
  · have hpat' : patience M t' ≤ max (patience M (s.task s.curr)) M.maxTimeslice
        ∧ (1 < (s.task s.curr).sleepAvg → patience M t' < patience M (s.task s.curr)) := by
      rw [he]
      exact patience_refill (a := a) hz hst h1
    have hp' : t'.policy = .other := by
      rw [he]
      exact hp
    have ha' : t'.array = some a := by
      rw [he]
    rw [weight_other hp' ha']
    rcases hor with rfl | ⟨rfl, havg⟩
    · rw [if_neg h.ends_ne.symm]
      cases both <;> simp only [Bool.false_eq_true, if_true, if_false] <;> omega
    · have hd := hpat'.2 havg
      rw [if_pos rfl]
      cases both <;> simp only [Bool.false_eq_true, if_true, if_false] <;> omega

/-- **A tick lowers the weight of the regular SHORT task that runs.** -/
lemma weight_tick_regular (h : RqInv s) (hc : s.curr ≠ s.idle)
    (ha : (s.task s.curr).array = some .shortActive) (hp : (s.task s.curr).IsRegular)
    (hpos : 1 ≤ (s.task s.curr).timeSlice) (hlt : (s.task s.curr).timeSlice < uintSize)
    (both : Bool) : weight M s.active both ((s.schedulerTick M).task s.curr)
      < weight M s.active both (s.task s.curr) := by
  have hold : weight M s.active both (s.task s.curr) = (s.task s.curr).timeSlice := by
    simp [weight, ha, hp.1, hp.2]
  rw [hold]
  rcases tick_regular (M := M) h hc ha hp hpos hlt with ⟨h1, he⟩ | ⟨h1, he⟩ <;> rw [he]
  · simp only [weight, ha, hp.1, hp.2, if_true]
    simp
    omega
  · simp [weight, Sys.turnOverdue, hp.1, h1]

/-- No weight is larger than fourteen seconds. -/
lemma weight_le {active : ArrayId} {both : Bool} {t : Task} (havg : t.sleepAvg ≤ M.maxSleepAvg)
    (hts : t.policy = .short → t.isShort = 1 → t.timeSlice ≤ 7 * M.HZ)
    (hts' : t.policy ≠ .short → t.timeSlice ≤ 7 * M.HZ) : weight M active both t ≤ 14 * M.HZ := by
  have hmax : M.maxTimeslice ≤ M.HZ := by
    simp only [Arch.maxTimeslice]
    omega
  have hpat : t.policy ≠ .short → patience M t ≤ 7 * M.HZ := fun hp => by
    have := hts' hp
    simp only [patience, Arch.maxSleepAvg] at *
    split_ifs <;> omega
  simp only [weight]
  split_ifs with h1 h2 h3 h4 h5 h6
  · exact Nat.zero_le _
  · have := hts h2 h3
    omega
  · exact Nat.zero_le _
  · have := hpat h2
    omega
  · have := hpat h2
    omega
  · have := hpat h2
    omega
  · exact Nat.zero_le _

end

end Os234123.Sched
