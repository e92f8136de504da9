import Os234123.Sched.Invariant

/-!
The timer tick keeps the runqueue in order, and what it does to the task it charges.

* `Charged`: the tick takes a jiffy off the slice of the task;
* `TickOf`: the records a charged task can have after the tick;
* `RqInv.schedulerTick`: the runqueue stays in order;
* `schedulerTick_charged`, `schedulerTick_uncharged`: the effect on the running task.
-/

namespace Os234123.Sched

namespace Sys

variable (M : Arch) (s : Sys)

/-- The tick takes a jiffy off the slice of `p`: it runs, stands on an array the tick accepts,
and is not a `SCHED_FIFO` task. -/
def Charged (p : Tid) : Prop :=
  p = s.curr ∧ p ≠ s.idle ∧ s.OnTickedArray p
    ∧ (¬ (s.task p).IsRt ∨ (s.task p).policy = .rr)

instance (p : Tid) : Decidable (s.Charged p) := inferInstanceAs (Decidable (_ ∧ _))

/-- Whether a tick charges a task depends on fields the invariant reads. -/
lemma charged_congr {s s' : Sys} {p : Tid} (hcurr : s'.curr = s.curr) (hidle : s'.idle = s.idle)
    (hact : s'.active = s.active) (hk : SameKey (s.task p) (s'.task p)) :
    s'.Charged p ↔ s.Charged p := by
  simp only [Charged, OnTickedArray, Task.IsRt, hcurr, hidle, hact, hk.array, hk.prio, hk.policy]

lemma modTask_modTask (p : Tid) (f g : Task → Task) :
    (s.modTask p f).modTask p g = s.modTask p fun t => g (f t) := by
  simp only [modTask, Function.update_self, Function.update_idem]

lemma modTask_id (p : Tid) : s.modTask p (fun t => t) = s := by
  simp [modTask]

end Sys

/-- What a tick that charges a task with record `t` can leave: one jiffy less, or, once the
slice has ended, a new slice on the array of the class the task is now in. -/
inductive TickOf (M : Arch) (active expired : ArrayId) (t : Task) : Task → Prop where
  | spend (avg : ℕ) (h : usub t.timeSlice 1 ≠ 0) :
      TickOf M active expired t { t with timeSlice := usub t.timeSlice 1, sleepAvg := avg }
  | refillRr (h : usub t.timeSlice 1 = 0) (hp : t.policy = .rr) :
      TickOf M active expired t
        { Sys.refillRr M { t with timeSlice := 0 } with array := some active }
  | refillOther (avg : ℕ) (a : ArrayId) (h : usub t.timeSlice 1 = 0) (hp : t.policy = .other)
      (ha : a = active ∨ a = expired) :
      TickOf M active expired t
        { Sys.refillOther M { t with timeSlice := 0, sleepAvg := avg } with array := some a }
  | turnOverdue (avg : ℕ) (h : usub t.timeSlice 1 = 0) (hp : t.IsRegular) :
      TickOf M active expired t
        { Sys.turnOverdue M { t with timeSlice := 0, sleepAvg := avg } with array := some .overdue }
  | turnOther (avg : ℕ) (h : usub t.timeSlice 1 = 0) (hp : t.IsOverdue) :
      TickOf M active expired t
        { Sys.turnOther M { t with timeSlice := 0, sleepAvg := avg } with array := some active }

/-- A charged task stays queued. -/
lemma TickOf.queued {M : Arch} {active expired : ArrayId} {t t' : Task}
    (h : TickOf M active expired t t') (ha : t.array ≠ none) : t'.array ≠ none := by
  cases h with
  | spend avg _ => exact ha
  | _ => exact Option.some_ne_none _

namespace TaskOk

variable {active expired : ArrayId} {t : Task}

/-- Off the SHORT arrays, the array the tick accepts is the active one. -/
lemma array_eq_active (h : TaskOk active expired t)
    (hends : (active = .arrays0 ∧ expired = .arrays1) ∨ (active = .arrays1 ∧ expired = .arrays0))
    (hon : t.array = some active ∨ t.array = some .shortActive ∨ t.array = some .overdue)
    (hp : t.policy ≠ .short) : t.array = some active := by
  rcases hon with h1 | h1 | h1
  · exact h1
  all_goals
    rcases h.markers with ⟨h2, _⟩ | ⟨h2, _⟩ | ⟨_, _, h2⟩
    · exact absurd h2 hp
    · exact absurd h2 hp
    · rcases hends with ⟨ha, he⟩ | ⟨ha, he⟩ <;> simp [h1, ha, he] at h2

end TaskOk

namespace RqInv

variable {M : Arch} {s : Sys} {p : Tid}

/-! ### The branches of the tick -/

lemma requeue_self (h : RqInv s) {a : ArrayId} (ha : (s.task p).array = some a) :
    RqInv ((s.dequeueTask p a).enqueueTask p a) := by
  have hp := h.queued p (by simp [ha])
  have := h.requeue ha (b := a) (fun t => t) ((h.tasks p hp).congr ⟨by simp [ha], rfl, rfl, rfl, rfl⟩)
  rwa [Sys.modTask_id] at this

lemma tickRt (h : RqInv s) (ha : (s.task p).array = some s.active) : RqInv (s.tickRt M p) := by
  have hp := h.queued p (by simp [ha])
  simp only [Sys.tickRt]
  split_ifs with hrr hz
  · rw [Sys.modTask_modTask]
    refine RqInv.requeue_self (h.modKey ?_ fun hi => absurd hi hp.2) ?_
    · exact ⟨rfl, rfl, rfl, rfl, rfl⟩
    · rw [Sys.modTask_task_self]
      exact ha
  · exact h.modKey ⟨rfl, rfl, rfl, rfl, rfl⟩ fun hi => absurd hi hp.2
  · exact h

lemma refillOther_ok (h : RqInv s) (hp : s.IsTask p) (hpol : (s.task p).policy = .other)
    {b : ArrayId} (hb : b = s.active ∨ b = s.expired) :
    TaskOk s.active s.expired { Sys.refillOther M (s.task p) with array := some b } := by
  have ht := h.tasks p hp
  refine TaskOk.of_other hpol (ht.isShort_ne_one (by simp [hpol])) (Or.inr ?_)
    (Task.effectivePrio_bounds M _) ht.static
  rcases hb with rfl | rfl
  · exact Or.inl rfl
  · exact Or.inr rfl

/-- The end of an ordinary slice, the two branches in one equation. -/
lemma expireOther_eq (M : Arch) (s : Sys) (p : Tid) : ∃ e b, (b = s.active ∨ b = s.expired) ∧
    s.expireOther M p = { ((s.dequeueTask p s.active).modTask p
      (Sys.refillOther M)).enqueueTask p b with expiredTimestamp := e } := by
  set s₁ := (s.dequeueTask p s.active).modTask p (Sys.refillOther M) with hs₁
  have hact : s₁.active = s.active := by simp [hs₁]
  have hexp : s₁.expired = s.expired := by simp [hs₁]
  simp only [Sys.expireOther, ← hs₁]
  split_ifs
  · exact ⟨s₁.jiffies, s₁.expired, Or.inr hexp, rfl⟩
  · refine ⟨(s₁.enqueueTask p s₁.expired).expiredTimestamp, s₁.expired, Or.inr hexp, ?_⟩
    generalize s₁.enqueueTask p s₁.expired = s'
    rfl
  · refine ⟨(s₁.enqueueTask p s₁.active).expiredTimestamp, s₁.active, Or.inl hact, ?_⟩
    generalize s₁.enqueueTask p s₁.active = s'
    rfl

/-- The invariant does not read the counters that only statistics use. -/
lemma of_counters (h : RqInv s) {e sw j : ℕ} {u : ℤ} {sp : Tid → Bool} {c : Tid} :
    RqInv { s with expiredTimestamp := e, nrSwitches := sw, jiffies := j, nrUninterruptible := u
                   superpriv := sp, curr := c } :=
  ⟨h.queues.of_arr rfl, h.nrRunning, h.ends, h.tasks, h.queued, h.idle, h.unlisted⟩

lemma expireOther (h : RqInv s) (ha : (s.task p).array = some s.active)
    (hpol : (s.task p).policy = .other) : RqInv (s.expireOther M p) := by
  have hp := h.queued p (by simp [ha])
  obtain ⟨e, b, hb, heq⟩ := expireOther_eq M s p
  rw [heq]
  exact (h.requeue ha (Sys.refillOther M) (h.refillOther_ok hp hpol hb)).of_counters

lemma expireShort (h : RqInv s) {a : ArrayId} (ha : (s.task p).array = some a)
    (hpol : (s.task p).policy = .short) : RqInv (s.expireShort M p) := by
  have hp := h.queued p (by simp [ha])
  have ht := h.tasks p hp
  simp only [Sys.expireShort, ha, Sys.dequeueTask_task, Sys.dequeueTask_active]
  split_ifs with h1
  · exact h.requeue ha _ (TaskOk.of_overdue hpol rfl (Or.inr rfl) rfl ht.static)
  · have h2 := ht.isShort_eq_neg_one hpol h1
    exact h.requeue ha _ (TaskOk.of_other rfl (Or.inr h2) (Or.inr (Or.inl rfl))
      (Task.effectivePrio_bounds M _) ht.static)

lemma tickSlice (h : RqInv s) (hon : s.OnTickedArray p) (hrt : ¬ (s.task p).IsRt) :
    RqInv (s.tickSlice M p) := by
  have hne : (s.task p).array ≠ none := by
    rcases hon with h1 | h1 | h1 <;> simp [h1]
  have hp := h.queued p hne
  have ht := h.tasks p hp
  simp only [Sys.tickSlice]
  set s₁ := s.modTask p fun t =>
    { t with sleepAvg := t.sleepAvg - 1, timeSlice := usub t.timeSlice 1 } with hs₁
  have h₁ : RqInv s₁ := h.modKey ⟨rfl, rfl, rfl, rfl, rfl⟩ fun hi => absurd hi hp.2
  have hpol₁ : (s₁.task p).policy = (s.task p).policy := by simp [hs₁]
  have harr₁ : (s₁.task p).array = (s.task p).array := by simp [hs₁]
  split_ifs with hz hsh
  · have hother : (s.task p).policy = .other := by
      have := (not_congr ht.isRt_iff).mp hrt
      rw [hpol₁] at hsh
      cases hc : (s.task p).policy <;> simp_all
    refine h₁.expireOther ?_ (hpol₁.trans hother)
    rw [harr₁]
    exact ht.array_eq_active h.ends hon (by simp [hother])
  · obtain ⟨a, ha⟩ := Option.ne_none_iff_exists'.mp hne
    exact h₁.expireShort (harr₁.trans ha) (not_not.mp hsh)
  · exact h₁

/-- **The tick keeps the runqueue in order.** -/
theorem schedulerTick (h : RqInv s) : RqInv (s.schedulerTick M) := by
  simp only [Sys.schedulerTick]
  split_ifs with hidle hon hrt
  · exact h
  · have hne : (s.task s.curr).array ≠ none := by
      rcases hon with h1 | h1 | h1 <;> simp [h1]
    have ht := h.tasks _ (h.queued _ hne)
    refine h.tickRt (ht.array_eq_active h.ends hon ?_)
    rcases ht.isRt_iff.mp hrt with h1 | h1 <;> simp [h1]
  · exact h.tickSlice hon hrt
  · exact h.modKey ⟨rfl, rfl, rfl, rfl, rfl⟩ fun hi => absurd hi hidle

end RqInv

/-! ### The effect of a tick on the tasks -/

namespace Sys

variable {M : Arch} {s : Sys} {p : Tid}

lemma tickRt_task_of_ne {q : Tid} (hq : q ≠ p) : (s.tickRt M p).task q = s.task q := by
  simp only [tickRt]
  split_ifs <;> simp [enqueueTask, enqueueAs_task, modTask_task_of_ne _ _ _ hq, hq]

lemma expireOther_task : ∃ b, (b = s.active ∨ b = s.expired) ∧ (s.expireOther M p).task
    = Function.update s.task p { refillOther M (s.task p) with array := some b } := by
  obtain ⟨e, b, hb, heq⟩ := RqInv.expireOther_eq M s p
  refine ⟨b, hb, ?_⟩
  simp only [heq, enqueueTask, enqueueAs_task, modTask, dequeueTask_task, Function.update_self,
    Function.update_idem]

lemma expireShort_task : (s.expireShort M p).task = Function.update s.task p
    (if (s.task p).isShort = 1
      then { turnOverdue M (s.task p) with array := some .overdue }
      else { turnOther M (s.task p) with array := some s.active }) := by
  cases ha : (s.task p).array with
  | none =>
      simp only [expireShort, ha]
      split_ifs <;> simp only [enqueueTask, enqueueAs_task, modTask, Function.update_self,
        Function.update_idem]
  | some a =>
      simp only [expireShort, ha, dequeueTask_task]
      split_ifs <;> simp only [enqueueTask, enqueueAs_task, modTask, dequeueTask_task,
        dequeueTask_active, Function.update_self, Function.update_idem]

lemma tickSlice_task_of_ne {q : Tid} (hq : q ≠ p) : (s.tickSlice M p).task q = s.task q := by
  simp only [tickSlice]
  split_ifs
  · obtain ⟨b, -, hb⟩ := expireOther_task (M := M) (p := p)
      (s := s.modTask p fun t =>
        { t with sleepAvg := t.sleepAvg - 1, timeSlice := usub t.timeSlice 1 })
    rw [hb, Function.update_of_ne hq, modTask_task_of_ne _ _ _ hq]
  · rw [expireShort_task, Function.update_of_ne hq, modTask_task_of_ne _ _ _ hq]
  · rw [modTask_task_of_ne _ _ _ hq]

/-- A tick only touches the running task. -/
lemma schedulerTick_task_of_ne {q : Tid} (hq : q ≠ s.curr) :
    (s.schedulerTick M).task q = s.task q := by
  simp only [schedulerTick]
  split_ifs
  · rfl
  · exact tickRt_task_of_ne hq
  · exact tickSlice_task_of_ne hq
  · exact modTask_task_of_ne _ _ _ hq

/-- A task the tick does not charge keeps its record, but for `need_resched`. -/
lemma schedulerTick_uncharged (h : ¬ s.Charged p) :
    ∃ b, (s.schedulerTick M).task p = { s.task p with needResched := b } := by
  by_cases hp : p = s.curr
  · subst hp
    simp only [schedulerTick]
    split_ifs with hidle hon hrt
    · exact ⟨_, rfl⟩
    · have hrr : (s.task s.curr).policy ≠ .rr := fun hrr =>
        h ⟨rfl, hidle, hon, Or.inr hrr⟩
      exact ⟨(s.task s.curr).needResched, by simp only [tickRt, if_neg hrr]⟩
    · exact absurd ⟨rfl, hidle, hon, Or.inl hrt⟩ h
    · exact ⟨true, by simp [reschedTask]⟩
  · exact ⟨_, by rw [schedulerTick_task_of_ne hp]⟩

/-- **The effect of a tick on the task it charges.** -/
theorem schedulerTick_charged (hinv : RqInv s) (h : s.Charged p) :
    TickOf M s.active s.expired (s.task p) ((s.schedulerTick M).task p) := by
  obtain ⟨rfl, hidle, hon, hpol⟩ := h
  have hne : (s.task s.curr).array ≠ none := by
    rcases hon with h1 | h1 | h1 <;> simp [h1]
  have ht := hinv.tasks _ (hinv.queued _ hne)
  simp only [schedulerTick, if_neg hidle, not_true_eq_false, hon, if_false]
  split_ifs with hrt
  · have hrr : (s.task s.curr).policy = .rr := hpol.resolve_left (not_not.mpr hrt)
    simp only [tickRt, if_pos hrr, modTask_task_self]
    split_ifs with hz
    · have : TickOf M s.active s.expired _ _ := .refillRr hz hrr
      simpa only [enqueueTask, enqueueAs_task, modTask_modTask, dequeueTask_task, modTask_active,
        modTask_task_self, Function.update_self, hz] using this
    · rw [modTask_task_self]
      exact TickOf.spend (s.task s.curr).sleepAvg hz
  · simp only [tickSlice, modTask_task_self]
    split_ifs with hz hsh
    · have hother : (s.task s.curr).policy = .other := by
        have := (not_congr ht.isRt_iff).mp hrt
        cases hc : (s.task s.curr).policy <;> simp_all
      obtain ⟨b, hb, heq⟩ := expireOther_task (M := M) (p := s.curr)
        (s := s.modTask s.curr fun t =>
          { t with sleepAvg := t.sleepAvg - 1, timeSlice := usub t.timeSlice 1 })
      rw [heq, Function.update_self, modTask_task_self, hz]
      exact TickOf.refillOther _ b hz hother hb
    · rw [not_not] at hsh
      rw [expireShort_task, Function.update_self, modTask_task_self, hz]
      split_ifs with h1
      · exact TickOf.turnOverdue _ hz ⟨hsh, h1⟩
      · exact TickOf.turnOther _ hz ⟨hsh, ht.isShort_eq_neg_one hsh h1⟩
    · rw [modTask_task_self]
      exact TickOf.spend _ hz

@[simp] lemma schedulerTick_frame : (s.schedulerTick M).curr = s.curr
    ∧ (s.schedulerTick M).idle = s.idle ∧ (s.schedulerTick M).live = s.live
    ∧ (s.schedulerTick M).active = s.active ∧ (s.schedulerTick M).expired = s.expired
    ∧ (s.schedulerTick M).jiffies = s.jiffies := by
  simp only [schedulerTick, tickRt, tickSlice, reschedTask, enqueueTask]
  split_ifs
  all_goals try simp
  · obtain ⟨e, b, -, heq⟩ := RqInv.expireOther_eq M (s.modTask s.curr fun t =>
        { t with sleepAvg := t.sleepAvg - 1, timeSlice := usub t.timeSlice 1 }) s.curr
    rw [heq]
    simp [enqueueTask]
  · simp only [expireShort, enqueueTask]
    split_ifs <;> split <;> simp

end Sys

end Os234123.Sched
