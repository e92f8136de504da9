import Os234123.Sched.Records

/-!
Where the tasks stand in their queues, operation by operation.

* `Moved p s s'`: the queues are as they were, or the task `p` has left its queue, gone to the end
  of one, or, if it is not a SHORT task, been put somewhere else in one;
* `Moved.without`: without `p` every queue is the same list before and after;
* `Moved.tryToWakeUp` .. `Moved.applyParams`: the operations about one task;
* `queueAt_schedulerTick`: a tick moves the running task once its slice has ended.
-/

namespace Os234123.Sched

open Buckets

/-! ### The elementary moves -/

namespace Sys

variable (s : Sys) (a : ArrayId) (k : ℕ)

/-- A change to an array that keeps its queues. -/
lemma queueAt_modArr {f : PrioArray → PrioArray} (hf : (f (s.arr a)).queue = (s.arr a).queue) :
    (s.modArr a f).queueAt = s.queueAt := by
  have h : (s.modArr a f).queueAt = Function.update s.queueAt (a, 0) ((s.arr a).queue 0) :=
    queueAt_of_update rfl (by rw [hf, Function.update_eq_self])
  rw [h]
  exact Function.update_eq_self (a, 0) s.queueAt

lemma queueAt_setBit : (s.setBit a k).queueAt = s.queueAt := s.queueAt_modArr a rfl

lemma queueAt_clearBit : (s.clearBit a k).queueAt = s.queueAt := s.queueAt_modArr a rfl

end Sys

namespace RqInv

variable {M : Arch} {s : Sys} {p : Tid} {a b : ArrayId}

lemma queueAt_deactivate (h : RqInv s) (p : Tid) :
    (s.deactivateTask p).queueAt = without p s.queueAt := by
  cases ha : (s.task p).array with
  | none =>
      have hw : without p s.queueAt = s.queueAt :=
        h.queues.located.erase_eq_self (Sys.locOf_eq_none ha)
      rw [hw]
      refine Sys.queueAt_of_arr ?_
      simp only [Sys.deactivateTask]
      split_ifs <;> simp [ha]
  | some a =>
      obtain ⟨n, heq⟩ := s.deactivateTask_eq p ha
      have hq : QueuesOk ({ s with nrRunning := s.nrRunning - 1, nrUninterruptible := n } : Sys)
          s.locOf := h.queues.of_arr rfl
      rw [heq, Sys.queueAt_of_arr (Sys.modTask_arr _ _ _)]
      exact hq.queueAt_dequeueTask (Sys.locOf_eq_some ha)

/-- A task is taken off its queue, changed, and put at the end of another. -/
lemma queueAt_requeue (h : RqInv s) (ha : (s.task p).array = some a) (f : Task → Task) :
    (((s.dequeueTask p a).modTask p f).enqueueTask p b).queueAt
      = sendTo p (b, (f (s.task p)).prio) s.queueAt := by
  have hq : ((s.dequeueTask p a).modTask p f).queueAt = without p s.queueAt :=
    (Sys.queueAt_of_arr rfl).trans (h.queues.queueAt_dequeueTask (Sys.locOf_eq_some ha))
  have hl : (((s.dequeueTask p a).modTask p f).arr b).queue (f (s.task p)).prio
      = ((s.arr b).queue (f (s.task p)).prio).erase p := congrFun hq (b, _)
  rw [Sys.enqueueTask, Sys.queueAt_enqueueAs, Sys.modTask_task_self, Sys.dequeueTask_task, hq, hl]
  rfl

/-- A task off the queues is put at the end of the queue of its class. -/
lemma queueAt_activate (h : RqInv s) (ha : (s.task p).array = none) :
    (s.activateTask M p).queueAt = sendTo p
      (homeOf s.active (s.task p), (bonusOf M s.jiffies (s.task p)).prio) s.queueAt := by
  rw [h.queues.located.sendTo_of_none (Sys.locOf_eq_none ha)]
  have hact : (s.activateTask M p).queueAt = ((s.modTask p (bonusOf M s.jiffies)).enqueueTask p
      (homeOf s.active (s.task p))).queueAt := Sys.queueAt_of_arr rfl
  rw [hact, Sys.enqueueTask, Sys.queueAt_enqueueAs, Sys.modTask_task_self,
    Sys.queueAt_of_arr (Sys.modTask_arr _ _ _)]
  rfl

/-- A task leaves its queue and is put at the end of the queue of its class. -/
lemma queueAt_reactivate (h : RqInv s) (ha : (s.task p).array = some a) :
    ((s.deactivateTask p).activateTask M p).queueAt = sendTo p
      (homeOf s.active (s.task p), (bonusOf M s.jiffies (s.task p)).prio) s.queueAt := by
  have hoff := deactivateTask_self s p
  have hq := (h.deactivate ha).queueAt_activate (M := M) (p := p) (by rw [hoff])
  have hrt : Task.IsRt { s.task p with array := none } ↔ (s.task p).IsRt := Iff.rfl
  have hprio : (bonusOf M s.jiffies { s.task p with array := none }).prio
      = (bonusOf M s.jiffies (s.task p)).prio := by
    simp only [bonusOf, hrt]
    split_ifs <;> rfl
  rw [hoff, (s.deactivateTask_frame p).active, Sys.deactivateTask_jiffies, hprio,
    h.queueAt_deactivate p, h.queues.located.sendTo_without] at hq
  exact hq

/-- A task stands where it has been sent. -/
lemma array_of_sendTo {s' : Sys} (h' : RqInv s') {k : ArrayId × ℕ}
    (hk : s'.queueAt = sendTo p k s.queueAt) :
    (s'.task p).array = some k.1 ∧ (s'.task p).prio = k.2 := by
  refine h'.mem_queue_iff.mp ?_
  have hq : (s'.arr k.1).queue k.2 = sendTo p k s.queueAt k := congrFun hk k
  rw [hq, sendTo_self]
  simp

end RqInv

/-! ### Moves of one task -/

/-- What an operation about the task `p` does to the queues. -/
inductive Moved (p : Tid) (s s' : Sys) : Prop where
  | still (h : s'.queueAt = s.queueAt)
  | off (h : s'.queueAt = without p s.queueAt)
  | last (k : ArrayId × ℕ) (h : s'.queueAt = sendTo p k s.queueAt)
  | put (k : ArrayId × ℕ) (l : List Tid) (hl : l.erase p = (s.queueAt k).erase p)
      (h : s'.queueAt = Function.update (without p s.queueAt) k l)
      (hp : (s.task p).policy ≠ .short)

namespace Moved

variable {M : Arch} {s s' : Sys} {p : Tid}

lemma of_arr (h : s'.arr = s.arr) : Moved p s s' := .still (Sys.queueAt_of_arr h)

/-- The queues do not see the rest of the memory. -/
lemma arr (h : Moved p s s') {s'' : Sys} (harr : s''.arr = s'.arr) : Moved p s s'' := by
  have hq := Sys.queueAt_of_arr harr
  cases h with
  | still h => exact .still (hq.trans h)
  | off h => exact .off (hq.trans h)
  | last k h => exact .last k (hq.trans h)
  | put k l hl h hp => exact .put k l hl (hq.trans h) hp

/-- **Without the task that moves, every queue is the same list before and after.** -/
theorem without (h : RqInv s) (hm : Moved p s s') :
    Buckets.without p s'.queueAt = Buckets.without p s.queueAt := by
  have hno : ∀ k, p ∉ (s.queueAt k).erase p := fun k hp =>
    (((h.queues.located.nodup k).mem_erase_iff).mp hp).1 rfl
  cases hm with
  | still hq => rw [hq]
  | off hq => rw [hq, h.queues.located.without_without]
  | last k hq => rw [hq, without_sendTo h.queues.located.nodup]
  | put k l hl hq _ =>
      rw [hq]
      funext k'
      rw [Buckets.without]
      by_cases hk : k' = k
      · rw [hk, Function.update_self, hl]
        rfl
      · rw [Function.update_of_ne hk]
        exact List.erase_of_not_mem (hno k')

/-! ### The operations -/

/-- Waking a task that sleeps sends it to the end of a queue. -/
lemma tryToWakeUp (h : RqInv s) : ((s.task p).array ≠ none → (s.tryToWakeUp M p).arr = s.arr)
    ∧ Moved p s (s.tryToWakeUp M p) := by
  simp only [Sys.tryToWakeUp]
  cases ha : (s.task p).array with
  | some a => exact ⟨fun _ => rfl, of_arr rfl⟩
  | none =>
      refine ⟨fun hne => absurd rfl hne, ?_⟩
      have hact : ∀ n, Moved p s (({ s with nrUninterruptible := n } : Sys).activateTask M p) :=
        fun n => by
          have h₁ : RqInv ({ s with nrUninterruptible := n } : Sys) := h.of_counters
          exact .last _ (h₁.queueAt_activate ha)
      refine arr ?_ (Sys.modTask_arr _ _ _)
      split_ifs
      · exact (hact (s.nrUninterruptible - 1)).arr (Sys.modTask_arr _ _ _)
      · exact hact (s.nrUninterruptible - 1)
      · exact (hact s.nrUninterruptible).arr (Sys.modTask_arr _ _ _)
      · exact hact s.nrUninterruptible

/-- A new nice value sends a queued task to the end of a queue, unless it is the old one, out of
range, or the task is real-time. -/
lemma setUserNice (h : RqInv s) (n : ℤ) :
    ((s.task p).nice = n ∨ n < -20 ∨ 19 < n → (s.setUserNice p n).arr = s.arr)
      ∧ Moved p s (s.setUserNice p n) := by
  simp only [Sys.setUserNice]
  split_ifs with hn hrt
  · exact ⟨fun _ => rfl, of_arr rfl⟩
  · exact ⟨fun hc => absurd hc hn, of_arr rfl⟩
  · refine ⟨fun hc => absurd hc hn, ?_⟩
    cases ha : (s.task p).array with
    | none => exact of_arr rfl
    | some a =>
        have hq := h.queueAt_requeue ha (b := a) (Sys.renice n)
        dsimp only
        split_ifs
        · exact arr (.last _ hq) rfl
        · exact .last _ hq

/-- A change of parameters sends a queued task to the end of the queue of its new class. -/
lemma applyParams (h : RqInv s) (hp : s.IsTask p) {pol : Policy} {lp : SchedParam}
    (hs : (s.task p).policy = .short → pol = .short ∧ (s.task p).isShort = 1) :
    Moved p s (s.applyParams M p pol lp) := by
  have harr : ∀ s₁ : Sys, (s₁.changeParams M p pol lp).arr = s₁.arr := fun s₁ => by
    simp only [Sys.changeParams]
    split_ifs <;> rfl
  simp only [Sys.applyParams]
  cases ha : (s.task p).array with
  | none => exact of_arr (harr s)
  | some a =>
      have hoff : (s.deactivateTask p).task p = { s.task p with array := none } :=
        deactivateTask_self s p
      obtain ⟨h₂, -, ha₂⟩ := (h.deactivate ha).changeParams M pol lp
        (RqInv.isTask_deactivate.mpr hp) (by rw [hoff]) (by rw [hoff]; exact hs)
      have hq := h₂.queueAt_activate (M := M) ha₂
      rw [Sys.queueAt_of_arr (harr _), h.queueAt_deactivate p,
        h.queues.located.sendTo_without] at hq
      exact .last _ hq

end Moved

/-! ### The tick -/

section

variable {M : Arch} {s : Sys} {p : Tid}

/-- The end of a real-time slice. -/
lemma queueAt_tickRt (h : RqInv s) (ha : (s.task p).array = some s.active) :
    (s.tickRt M p).queueAt = s.queueAt
      ∨ usub (s.task p).timeSlice 1 = 0 ∧ (s.task p).policy = .rr
        ∧ ∃ k, (s.tickRt M p).queueAt = sendTo p k s.queueAt := by
  have hp := h.queued p (by simp [ha])
  simp only [Sys.tickRt]
  split_ifs with hrr hz
  · rw [Sys.modTask_task_self] at hz
    rw [Sys.modTask_modTask]
    set s₁ := s.modTask p fun t =>
      Sys.refillRr M { t with timeSlice := usub t.timeSlice 1 } with hs₁
    have h₁ : RqInv s₁ :=
      h.modKey ⟨rfl, rfl, rfl, rfl, rfl⟩ fun hi => absurd hi hp.2
    have ha₁ : (s₁.task p).array = some s.active := by
      rw [hs₁, Sys.modTask_task_self]
      exact ha
    have hq := h₁.queueAt_requeue ha₁ (b := s.active) fun t => t
    rw [Sys.modTask_id] at hq
    exact Or.inr ⟨hz, hrr, _, hq⟩
  · exact Or.inl (Sys.queueAt_of_arr rfl)
  · exact Or.inl rfl

/-- The end of any other slice. -/
lemma queueAt_tickSlice (h : RqInv s) (hon : s.OnTickedArray p) (hrt : ¬ (s.task p).IsRt) :
    (s.tickSlice M p).queueAt = s.queueAt
      ∨ usub (s.task p).timeSlice 1 = 0 ∧ ∃ k, (s.tickSlice M p).queueAt = sendTo p k s.queueAt := by
  have hne : (s.task p).array ≠ none := by
    rcases hon with h1 | h1 | h1 <;> simp [h1]
  have hp := h.queued p hne
  have ht := h.tasks p hp
  obtain ⟨a, ha⟩ := Option.ne_none_iff_exists'.mp hne
  simp only [Sys.tickSlice, Sys.modTask_task_self]
  set s₁ := s.modTask p fun t =>
    { t with sleepAvg := t.sleepAvg - 1, timeSlice := usub t.timeSlice 1 } with hs₁
  have h₁ : RqInv s₁ := h.modKey ⟨rfl, rfl, rfl, rfl, rfl⟩ fun hi => absurd hi hp.2
  have ha₁ : (s₁.task p).array = some a := by
    rw [hs₁, Sys.modTask_task_self]
    exact ha
  have hq₁ : s₁.queueAt = s.queueAt := Sys.queueAt_of_arr (Sys.modTask_arr _ _ _)
  split_ifs with hz hsh
  · have hother : (s.task p).policy = .other := by
      have := (not_congr ht.isRt_iff).mp hrt
      cases hc : (s.task p).policy <;> simp_all
    have hact := ht.array_eq_active h.ends hon (by simp [hother])
    obtain ⟨e, b, -, heq⟩ := RqInv.expireOther_eq M s₁ p
    have hact₁ : s₁.active = s.active := Sys.modTask_active ..
    have hq := h₁.queueAt_requeue (a := s₁.active) (b := b) (by rw [ha₁, ← ha, hact, hact₁])
      (Sys.refillOther M)
    have harr : (s₁.expireOther M p).arr
        = (((s₁.dequeueTask p s₁.active).modTask p (Sys.refillOther M)).enqueueTask p b).arr := by
      rw [heq]
    rw [← Sys.queueAt_of_arr harr, hq₁] at hq
    exact Or.inr ⟨hz, _, hq⟩
  · simp only [Sys.expireShort, ha₁, Sys.dequeueTask_task, Sys.dequeueTask_active]
    split_ifs
    · exact Or.inr ⟨hz, _, h₁.queueAt_requeue ha₁ _⟩
    · exact Or.inr ⟨hz, _, h₁.queueAt_requeue ha₁ _⟩
  · exact Or.inl (Sys.queueAt_of_arr rfl)

/-- **A tick sends the running task to the end of a queue when its slice has ended, and does
nothing else to the queues.** -/
theorem queueAt_schedulerTick (h : RqInv s) : (s.schedulerTick M).queueAt = s.queueAt
    ∨ s.Charged s.curr ∧ usub (s.task s.curr).timeSlice 1 = 0
      ∧ ∃ k, (s.schedulerTick M).queueAt = sendTo s.curr k s.queueAt := by
  simp only [Sys.schedulerTick]
  split_ifs with hidle hon hrt
  · exact Or.inl rfl
  · have hne : (s.task s.curr).array ≠ none := by
      rcases hon with h1 | h1 | h1 <;> simp [h1]
    have ht := h.tasks _ (h.queued _ hne)
    have ha := ht.array_eq_active h.ends hon
      (by rcases ht.isRt_iff.mp hrt with h1 | h1 <;> simp [h1])
    rcases queueAt_tickRt (M := M) h ha with hq | ⟨hz, hrr, hq⟩
    · exact Or.inl hq
    · exact Or.inr ⟨⟨rfl, hidle, hon, Or.inr hrr⟩, hz, hq⟩
  · rcases queueAt_tickSlice (M := M) h hon hrt with hq | ⟨hz, hq⟩
    · exact Or.inl hq
    · exact Or.inr ⟨⟨rfl, hidle, hon, Or.inl hrt⟩, hz, hq⟩
  · exact Or.inl (Sys.queueAt_of_arr rfl)

/-! ### Rescheduling -/

/-- The running task is taken off its queue if it must be. -/
lemma schedulePrev_queues (h : Inv s) : s.schedulePrev.queueAt = s.queueAt
    ∨ s.schedulePrev.queueAt = Buckets.without s.curr s.queueAt := by
  have h₁ := h.stamp
  rcases schedulePrev_cases s with ⟨heq, -⟩ | heq | ⟨heq, -⟩ <;> rw [heq]
  · exact Or.inl rfl
  · exact Or.inl rfl
  · refine Or.inr ((h₁.toRqInv.queueAt_deactivate s.curr).trans ?_)
    rw [Sys.queueAt_of_arr (Sys.modTask_arr _ _ _)]

/-- The choice of the next task and the switch to it leave the arrays alone. -/
lemma schedule_arr {s' : Sys} (h : Inv s) (hs : s.schedule M = some s') :
    s'.arr = s.schedulePrev.arr := by
  obtain ⟨s₁, next, heq, hpick, -, -, -, -⟩ := h.schedule_cases M
  obtain rfl := Option.some.inj (heq.symm.trans hs)
  have hswitch : (s₁.switchTo next).arr = s₁.arr := by
    simp only [Sys.switchTo]
    split_ifs <;> rfl
  have h₁ : s₁ = (s.schedulePrev.pickNext M).1 := by rw [hpick]
  rw [hswitch, h₁]
  simp only [Sys.pickNext]
  split_ifs
  · rfl
  · exact RqInv.switchArrays_arr _

/-- `schedule` takes the running task off its queue if it must, and does nothing else to the
queues. -/
theorem schedule_queues {s' : Sys} (h : Inv s) (hs : s.schedule M = some s') :
    s'.queueAt = s.queueAt ∨ s'.queueAt = Buckets.without s.curr s.queueAt := by
  rw [Sys.queueAt_of_arr (schedule_arr h hs)]
  exact schedulePrev_queues h

/-- Yielding puts the running task back into a queue. -/
lemma Moved.yieldQueue (h : Inv s) (hc : s.curr ≠ s.idle) :
    Moved s.curr s (s.yieldQueue M) := by
  obtain ⟨a, ha⟩ := Option.ne_none_iff_exists'.mp (h.curr hc)
  simp only [Sys.yieldQueue, ha]
  by_cases hsh : (s.task s.curr).policy = .short
  · rw [if_pos hsh]
    exact .last _ (h.toRqInv.queueAt_reactivate ha)
  rw [if_neg hsh]
  have hno : ∀ k, s.curr ∉ (s.queueAt k).erase s.curr := fun k hp =>
    (((h.queues.located.nodup k).mem_erase_iff).mp hp).1 rfl
  split_ifs with hrt hl
  · exact .put (a, _) _ (erase_append_singleton (hno _)) (Sys.queueAt_listPut _ a _ _) hsh
  · exact .put (a, _) _ (erase_insertSecond (hno _)) (Sys.queueAt_listPut _ a _ _) hsh
  · set s₁ := (s.listDel s.curr).clearBit a (s.task s.curr).prio with hs₁
    have hq₁ : s₁.queueAt = Buckets.without s.curr s.queueAt := Sys.queueAt_clearBit _ a _
    set i := Sys.yieldPrio M (s₁.arr a).bitmap (s.task s.curr).prio
    have hq : (s₁.arr a).queue i = (s.queueAt (a, i)).erase s.curr := congrFun hq₁ (a, i)
    refine .put (a, i) (insertSecond s.curr ((s.queueAt (a, i)).erase s.curr))
      (erase_insertSecond (hno _)) ?_ hsh
    rw [Sys.queueAt_setBit, Sys.queueAt_listPut, Sys.queueAt_of_arr (Sys.modTask_arr _ _ _), hq₁,
      Sys.modTask_arr, hq]

end

end Os234123.Sched
