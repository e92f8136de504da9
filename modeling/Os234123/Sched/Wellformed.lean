import Os234123.Sched.Boot

/-!
The runqueue in every reachable state, and what `schedule` does with it.

* `WellFormed`: bitmaps, counters, queues and the fields of the tasks agree;
* `reach_wellFormed`: so they do in every reachable state;
* `ScheduleOk`: `schedule` takes the head of the lowest queue of the best class;
* `reach_scheduleOk`: so it does wherever it is called.
-/

namespace Os234123.Sched

open Machine

/-! ### The representation -/

/-- The runqueue is well formed. -/
structure WellFormed (s : Sys) : Prop where
  ends : (s.active = .arrays0 ∧ s.expired = .arrays1)
    ∨ (s.active = .arrays1 ∧ s.expired = .arrays0)
  bit : ∀ a, ∀ k < maxPrio, ((s.arr a).bitmap k = true ↔ (s.arr a).queue k ≠ [])
  delimiter : ∀ a, (s.arr a).bitmap maxPrio = true
  nrActive : ∀ a, (s.arr a).nrActive
    = ((∑ k ∈ Finset.range maxPrio, ((s.arr a).queue k).length : ℕ) : ℤ)
  nodup : ∀ a k, ((s.arr a).queue k).Nodup
  once : ∀ p a k a' k', p ∈ (s.arr a).queue k → p ∈ (s.arr a').queue k' → a = a' ∧ k = k'
  placed : ∀ p a k, p ∈ (s.arr a).queue k ↔ (s.task p).array = some a ∧ (s.task p).prio = k
  nowhere : ∀ p, (s.task p).array = none ↔ ∀ a k, p ∉ (s.arr a).queue k
  nrRunning : s.nrRunning = (s.arr s.active).nrActive + (s.arr s.expired).nrActive
    + (s.arr .shortActive).nrActive + (s.arr .overdue).nrActive
  idle : ∀ a k, s.idle ∉ (s.arr a).queue k

lemma RqInv.wellFormed {s : Sys} (h : RqInv s) : WellFormed s where
  ends := h.ends
  bit := fun a => (h.queues.arrayOk a).bit
  delimiter := fun a => (h.queues.arrayOk a).delimiter
  nrActive := fun a => (h.queues.arrayOk a).count
  nodup := fun a k => h.queues.located.nodup (a, k)
  once := fun p a k a' k' hp hp' => by
    obtain ⟨ha, hk⟩ := h.mem_queue_iff.mp hp
    obtain ⟨ha', hk'⟩ := h.mem_queue_iff.mp hp'
    exact ⟨Option.some.inj (ha.symm.trans ha'), hk.symm.trans hk'⟩
  placed := fun p a k => h.mem_queue_iff
  nowhere := fun p => by
    refine ⟨fun hn a k hp => ?_, fun hn => ?_⟩
    · have := (h.mem_queue_iff.mp hp).1
      simp [hn] at this
    · by_contra hne
      obtain ⟨a, ha⟩ := Option.ne_none_iff_exists'.mp hne
      exact hn a _ (h.mem_queue_iff.mpr ⟨ha, rfl⟩)
  nrRunning := by
    rw [h.nrRunning, Sys.totalActive]
    rcases h.ends with ⟨ha, he⟩ | ⟨ha, he⟩ <;> rw [ha, he]
    ring
  idle := fun a k hp => by
    have := (h.mem_queue_iff.mp hp).1
    simp [h.idle_array] at this

/-- **The runqueue is well formed in every reachable state.** -/
theorem reach_wellFormed {M : Arch} {ops : List Op} {s : Sys}
    (h : run (Sys.exec M) ops (Sys.booted M) = some s) : WellFormed s :=
  (reach_inv h).toRqInv.wellFormed

/-- A run in which a task becomes SHORT, forks, and its child is charged two ticks. -/
def shortForkRun : List Op :=
  [.fork ⟨false, false⟩ 1, .schedule, .setscheduler 0 5 (.readable ⟨0, 100⟩),
    .fork ⟨false, false⟩ 2, .schedule, .tick, .tick]

theorem wellFormed_shortForkRun : ∃ s,
    run (Sys.exec .hz100) shortForkRun (Sys.booted .hz100) = some s ∧ WellFormed s := by
  obtain ⟨s, hs⟩ := Option.isSome_iff_exists.mp (by decide +kernel :
    (run (Sys.exec .hz100) shortForkRun (Sys.booted .hz100)).isSome = true)
  exact ⟨s, hs, reach_wellFormed hs⟩

/-! ### The choice of the next task -/

/-- `next` is the head of the lowest queue of the best class: real-time before regular SHORT
before OTHER in the active array before OTHER in the expired one before overdue SHORT. -/
structure IsChoice (s : Sys) (next : Tid) (a : ArrayId) : Prop where
  runnable : s.Runnable next
  array : (s.task next).array = some a
  head : ((s.arr a).queue (s.task next).prio).head? = some next
  best : ∀ p, s.Runnable p → (s.rankOf next).place < (s.rankOf p).place
    ∨ s.rankOf p = s.rankOf next ∧ (s.task next).prio ≤ (s.task p).prio
  overdue : s.rankOf next = .overdue → ∀ p, s.Runnable p → s.rankOf p = .overdue

/-- What `schedule` does in the state `s`.  Let `s₁` be that state once the running task is off
its queue if it must be.  If no task is runnable the idle task is taken.  Otherwise the array
and the queue `schedule` looks at are not empty, and their first task is the right one. -/
def ScheduleOk (M : Arch) (s : Sys) : Prop :=
  let s₁ := s.schedulePrev
  ∃ s₂ next s', s₁.pickNext M = (s₂, some next) ∧ s.schedule M = some s' ∧ s'.curr = next
    ∧ ((∀ p, ¬ s₁.Runnable p) ∧ next = s₁.idle
      ∨ (∃ p, s₁.Runnable p) ∧ (s₂.arr (s₂.pickArray M)).nrActive ≠ 0
        ∧ (s₂.pickQueue M).head? = some next ∧ IsChoice s₁ next (s₂.pickArray M))

/-- Once the running task is off its queue if it must be, the runnable tasks are the queued
ones. -/
lemma Inv.runnable_iff {s : Sys} (h : Inv s) {p : Tid} :
    s.schedulePrev.Runnable p ↔ (s.schedulePrev.task p).array ≠ none := by
  refine ⟨fun hr => (h.schedulePrev_settled hr.1).mp hr.2, fun hq => ?_⟩
  have hp := h.schedulePrev.queued p hq
  exact ⟨hp, (h.schedulePrev_settled hp).mpr hq⟩

lemma Inv.scheduleOk {s : Sys} (h : Inv s) (M : Arch) : ScheduleOk M s := by
  have h₁ := h.schedulePrev
  obtain ⟨s₂, next, hsched, hpick, -⟩ := h.schedule_cases M
  have hcurr := (switchTo_frame s₂ next).2.2.1
  refine ⟨s₂, next, _, hpick, hsched, hcurr, ?_⟩
  by_cases hn : s.schedulePrev.nrRunning = 0
  · rw [RqInv.pickNext_idle hn] at hpick
    obtain ⟨-, hnext⟩ := Prod.mk.inj hpick
    refine Or.inl ⟨fun p hp => h.runnable_iff.mp hp ?_, (Option.some.inj hnext).symm⟩
    exact h₁.nrRunning_eq_zero_iff.mp hn p
  · rw [RqInv.pickNext_switched hn] at hpick
    obtain ⟨hs₂, hhead⟩ := Prod.mk.inj hpick
    obtain ⟨next', hhead', hact, hch⟩ := h₁.pickQueue_spec (M := M) hn
    obtain rfl : next' = next := Option.some.inj (hhead'.symm.trans hhead)
    have hrun : s.schedulePrev.Runnable next' := h.runnable_iff.mpr (by simp [hch.array])
    rw [← hs₂]
    refine Or.inr ⟨⟨next', hrun⟩, by simpa using hact, hhead, hrun, hch.array, hch.head,
      fun p hp => hch.best p (h.runnable_iff.mp hp), fun ho p hp => ?_⟩
    rcases hch.best p (h.runnable_iff.mp hp) with hlt | ⟨heq, -⟩
    · rw [ho] at hlt
      cases hr : s.schedulePrev.rankOf p <;> simp [hr, Rank.place] at hlt
    · exact heq.trans ho

/-- **`schedule` chooses right in every reachable state**, and so it does when
`sys_sched_yield` calls it. -/
theorem reach_scheduleOk {M : Arch} {ops : List Op} {s : Sys}
    (h : run (Sys.exec M) ops (Sys.booted M) = some s) :
    ScheduleOk M s ∧ (s.InProcess → ScheduleOk M (s.yieldQueue M)) :=
  ⟨(reach_inv h).scheduleOk M, fun hp => ((reach_inv h).yieldQueue hp.1).scheduleOk M⟩

theorem scheduleOk_shortForkRun : ∃ s,
    run (Sys.exec .hz100) shortForkRun (Sys.booted .hz100) = some s ∧ ScheduleOk .hz100 s := by
  obtain ⟨s, hs⟩ := Option.isSome_iff_exists.mp (by decide +kernel :
    (run (Sys.exec .hz100) shortForkRun (Sys.booted .hz100)).isSome = true)
  exact ⟨s, hs, (reach_scheduleOk hs).1⟩

end Os234123.Sched
