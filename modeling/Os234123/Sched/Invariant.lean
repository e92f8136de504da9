import Os234123.Sched.Machine

/-!
The invariant of the runqueue, and what the elementary moves do to it.

* `ClassMarkers`: policy, `is_short` and array of a task agree;
* `TaskOk`: the markers together with the priority range of the class;
* `RqInv`: the queues hold every task exactly where its own fields say, the counters add up,
  and every task is in order; `Inv` adds which tasks are queued;
* `RqInv.mapKey`, `RqInv.modStay`, `RqInv.modOff`: changes of fields that move no task;
* `RqInv.requeueAs`, `RqInv.enqueue`, `RqInv.deactivate`, `RqInv.activate`: the ways of moving
  one task.
-/

namespace Os234123.Sched

open Buckets

/-! ### One task in order -/

/-- The three class markers agree. -/
def ClassMarkers (active expired : ArrayId) (t : Task) : Prop :=
  (t.policy = .short ∧ t.isShort = 1 ∧ (t.array = none ∨ t.array = some .shortActive))
    ∨ (t.policy = .short ∧ t.isShort = -1 ∧ (t.array = none ∨ t.array = some .overdue))
    ∨ (t.policy ≠ .short ∧ (t.isShort = 0 ∨ t.isShort = -1)
        ∧ (t.array = none ∨ t.array = some active ∨ t.array = some expired))

instance (active expired : ArrayId) (t : Task) : Decidable (ClassMarkers active expired t) :=
  inferInstanceAs (Decidable (_ ∨ _))

/-- The markers agree and the priority lies in the range of the class; a real-time task never
sits in the expired array. -/
structure TaskOk (active expired : ArrayId) (t : Task) : Prop where
  markers : ClassMarkers active expired t
  rt : t.policy = .fifo ∨ t.policy = .rr → t.prio < maxRtPrio ∧ t.array ≠ some expired
  usual : t.policy = .other ∨ t.policy = .short → maxRtPrio ≤ t.prio ∧ t.prio < maxPrio
  overdue : t.IsOverdue → t.prio = maxPrio - 1
  static : maxRtPrio ≤ t.staticPrio ∧ t.staticPrio < maxPrio

/-- Two records that differ only in fields the invariant does not read. -/
structure SameKey (t t' : Task) : Prop where
  array : t'.array = t.array
  prio : t'.prio = t.prio
  policy : t'.policy = t.policy
  isShort : t'.isShort = t.isShort
  staticPrio : t'.staticPrio = t.staticPrio

lemma SameKey.refl (t : Task) : SameKey t t := ⟨rfl, rfl, rfl, rfl, rfl⟩

namespace TaskOk

variable {active expired : ArrayId} {t t' : Task}

lemma congr (h : TaskOk active expired t) (hk : SameKey t t') : TaskOk active expired t' := by
  obtain ⟨ha, hp, hpol, hs, hst⟩ := hk
  obtain ⟨h1, h2, h3, h4, h5⟩ := h
  constructor <;> simpa only [ClassMarkers, Task.IsOverdue, ha, hp, hpol, hs, hst]

lemma prio_lt (h : TaskOk active expired t) : t.prio < maxPrio := by
  by_cases hp : t.policy = .other ∨ t.policy = .short
  · exact (h.usual hp).2
  · have hrt : t.policy = .fifo ∨ t.policy = .rr := by
      cases hpol : t.policy <;> simp_all
    exact (h.rt hrt).1.trans (by decide)

/-- The priority tells a real-time task from the others, as `rt_task` takes it to. -/
lemma isRt_iff (h : TaskOk active expired t) :
    t.IsRt ↔ t.policy = .fifo ∨ t.policy = .rr := by
  refine ⟨fun hrt => ?_, fun hp => (h.rt hp).1⟩
  by_contra hp
  have husual : t.policy = .other ∨ t.policy = .short := by
    cases hpol : t.policy <;> simp_all
  exact absurd hrt (not_lt.mpr (h.usual husual).1)

lemma isShort_eq_neg_one (h : TaskOk active expired t) (hp : t.policy = .short)
    (h1 : t.isShort ≠ 1) : t.isShort = -1 := by
  rcases h.markers with ⟨_, h2, _⟩ | ⟨_, h2, _⟩ | ⟨h2, _⟩
  · exact absurd h2 h1
  · exact h2
  · exact absurd hp h2

lemma isShort_ne_one (h : TaskOk active expired t) (hp : t.policy ≠ .short) :
    t.isShort = 0 ∨ t.isShort = -1 := by
  rcases h.markers with ⟨h2, _⟩ | ⟨h2, _⟩ | ⟨_, h2, _⟩
  · exact absurd h2 hp
  · exact absurd h2 hp
  · exact h2

/-- A task taken off its array stays in order. -/
lemma off (h : TaskOk active expired t) : TaskOk active expired { t with array := none } := by
  obtain ⟨h1, h2, h3, h4, h5⟩ := h
  refine ⟨?_, fun hp => ⟨(h2 hp).1, by simp⟩, h3, h4, h5⟩
  simp only [ClassMarkers] at h1 ⊢
  simp only [true_or, and_true]
  rcases h1 with ⟨a, b, _⟩ | ⟨a, b, _⟩ | ⟨a, b, _⟩
  · exact Or.inl ⟨a, b⟩
  · exact Or.inr (Or.inl ⟨a, b⟩)
  · exact Or.inr (Or.inr ⟨a, b⟩)

/-- A regular SHORT task on its array. -/
lemma of_regular (hp : t.policy = .short) (hs : t.isShort = 1)
    (ha : t.array = none ∨ t.array = some .shortActive)
    (hprio : maxRtPrio ≤ t.prio ∧ t.prio < maxPrio)
    (hst : maxRtPrio ≤ t.staticPrio ∧ t.staticPrio < maxPrio) : TaskOk active expired t :=
  ⟨Or.inl ⟨hp, hs, ha⟩, by simp [hp], fun _ => hprio, by simp [Task.IsOverdue, hs], hst⟩

/-- An overdue SHORT task on its array. -/
lemma of_overdue (hp : t.policy = .short) (hs : t.isShort = -1)
    (ha : t.array = none ∨ t.array = some .overdue) (hprio : t.prio = maxPrio - 1)
    (hst : maxRtPrio ≤ t.staticPrio ∧ t.staticPrio < maxPrio) : TaskOk active expired t :=
  ⟨Or.inr (Or.inl ⟨hp, hs, ha⟩), by simp [hp], fun _ => by rw [hprio]; decide, fun _ => hprio,
    hst⟩

/-- An ordinary task on one of the two ordinary arrays. -/
lemma of_other (hp : t.policy = .other) (hs : t.isShort = 0 ∨ t.isShort = -1)
    (ha : t.array = none ∨ t.array = some active ∨ t.array = some expired)
    (hprio : maxRtPrio ≤ t.prio ∧ t.prio < maxPrio)
    (hst : maxRtPrio ≤ t.staticPrio ∧ t.staticPrio < maxPrio) : TaskOk active expired t :=
  ⟨Or.inr (Or.inr ⟨by simp [hp], hs, ha⟩), by simp [hp], fun _ => hprio,
    by simp [Task.IsOverdue, hp], hst⟩

/-- A real-time task on the active array. -/
lemma of_rt (hp : t.policy = .fifo ∨ t.policy = .rr) (hs : t.isShort = 0 ∨ t.isShort = -1)
    (ha : t.array = none ∨ t.array = some active) (hne : active ≠ expired)
    (hprio : t.prio < maxRtPrio)
    (hst : maxRtPrio ≤ t.staticPrio ∧ t.staticPrio < maxPrio) : TaskOk active expired t := by
  have hne' : t.policy ≠ .short := by rcases hp with h | h <;> simp [h]
  refine ⟨Or.inr (Or.inr ⟨hne', hs, ?_⟩), fun _ => ⟨hprio, ?_⟩, ?_, ?_, hst⟩
  · rcases ha with h | h
    · exact Or.inl h
    · exact Or.inr (Or.inl h)
  · rcases ha with h | h <;> simp [h, hne]
  · rcases hp with h | h <;> simp [h]
  · exact fun ho => absurd ho.1 hne'

end TaskOk

/-! ### The runqueue in order -/

/-- The idle task: never queued, always runnable, of no class. -/
structure IdleOk (t : Task) : Prop where
  state : t.state = .running
  policy : t.policy = .other
  isShort : t.isShort = 0
  prio : t.prio = maxPrio
  static : maxRtPrio ≤ t.staticPrio ∧ t.staticPrio < maxPrio

/-- The runqueue holds every task exactly where its own fields say, and every task is in
order. -/
structure RqInv (s : Sys) : Prop where
  queues : QueuesOk s s.locOf
  nrRunning : s.nrRunning = s.totalActive
  ends : (s.active = .arrays0 ∧ s.expired = .arrays1)
    ∨ (s.active = .arrays1 ∧ s.expired = .arrays0)
  tasks : ∀ p, s.IsTask p → TaskOk s.active s.expired (s.task p)
  queued : ∀ p, (s.task p).array ≠ none → s.IsTask p
  idle : IdleOk (s.task s.idle)
  unlisted : s.live s.idle = false

/-- A task is awake exactly when it is queued. -/
def Awake (t : Task) : Prop := t.state = .running ↔ t.array ≠ none

/-- The invariant between two operations: the running task is queued as well, and every other
task is queued exactly when it is runnable. -/
structure Inv (s : Sys) : Prop extends RqInv s where
  curr : s.curr ≠ s.idle → (s.task s.curr).array ≠ none
  awake : ∀ p, s.IsTask p → p ≠ s.curr → Awake (s.task p)

namespace Sys

lemma locOf_eq_some {s : Sys} {p : Tid} {a : ArrayId} (h : (s.task p).array = some a) :
    s.locOf p = some (a, (s.task p).prio) := by
  rw [locOf, h, Option.map_some]

lemma locOf_eq_none {s : Sys} {p : Tid} (h : (s.task p).array = none) : s.locOf p = none := by
  rw [locOf, h, Option.map_none]

end Sys

/-- `s'` differs from `s` in the arrays, in counters, and in the record of one task. -/
structure Frame (s s' : Sys) (p : Tid) : Prop where
  live : s'.live = s.live
  idle : s'.idle = s.idle
  active : s'.active = s.active
  expired : s'.expired = s.expired
  task : ∀ q, q ≠ p → s'.task q = s.task q

/-! ### What activation does to one task -/

namespace Sys

variable (M : Arch) (s : Sys) (p : Tid)

section

variable (j : ℕ) (t : Task)

@[simp] lemma bonusOf_array : (bonusOf M j t).array = t.array := by
  simp only [bonusOf]; split_ifs <;> rfl
@[simp] lemma bonusOf_state : (bonusOf M j t).state = t.state := by
  simp only [bonusOf]; split_ifs <;> rfl
@[simp] lemma bonusOf_policy : (bonusOf M j t).policy = t.policy := by
  simp only [bonusOf]; split_ifs <;> rfl
@[simp] lemma bonusOf_isShort : (bonusOf M j t).isShort = t.isShort := by
  simp only [bonusOf]; split_ifs <;> rfl
@[simp] lemma bonusOf_staticPrio : (bonusOf M j t).staticPrio = t.staticPrio := by
  simp only [bonusOf]; split_ifs <;> rfl
@[simp] lemma bonusOf_timeSlice : (bonusOf M j t).timeSlice = t.timeSlice := by
  simp only [bonusOf]; split_ifs <;> rfl
@[simp] lemma bonusOf_firstTimeSlice : (bonusOf M j t).firstTimeSlice = t.firstTimeSlice := by
  simp only [bonusOf]; split_ifs <;> rfl
@[simp] lemma bonusOf_requestedTime : (bonusOf M j t).requestedTime = t.requestedTime := by
  simp only [bonusOf]; split_ifs <;> rfl

/-- The sleep bonus leaves a real-time or SHORT task alone. -/
lemma bonusOf_of_class (ht : t.IsRt ∨ t.policy = .short) : bonusOf M j t = t := by
  simp only [bonusOf]
  rw [if_neg]
  rintro ⟨hrt, -, hp⟩
  exact ht.elim hrt hp

end

/-- The record of an activated task. -/
lemma activateTask_task : (s.activateTask M p).task = Function.update s.task p
    { bonusOf M s.jiffies (s.task p) with array := some (homeOf s.active (s.task p)) } := by
  simp only [activateTask, enqueueTask, enqueueAs_task, modTask, Function.update_self,
    Function.update_idem]

lemma deactivateTask_task : (s.deactivateTask p).task
    = Function.update s.task p { s.task p with array := none } := by
  simp only [deactivateTask, modTask]
  split_ifs <;> split <;> simp

lemma activateTask_frame : Frame s (s.activateTask M p) p where
  live := rfl
  idle := rfl
  active := rfl
  expired := rfl
  task := fun q hq => by rw [activateTask_task, Function.update_of_ne hq]

lemma deactivateTask_frame : Frame s (s.deactivateTask p) p where
  live := by simp only [deactivateTask]; split_ifs <;> split <;> simp
  idle := by simp only [deactivateTask]; split_ifs <;> split <;> simp
  active := by simp only [deactivateTask]; split_ifs <;> split <;> simp
  expired := by simp only [deactivateTask]; split_ifs <;> split <;> simp
  task := fun q hq => by rw [deactivateTask_task, Function.update_of_ne hq]

@[simp] lemma activateTask_curr : (s.activateTask M p).curr = s.curr := rfl

@[simp] lemma deactivateTask_curr : (s.deactivateTask p).curr = s.curr := by
  simp only [deactivateTask]; split_ifs <;> split <;> simp

@[simp] lemma deactivateTask_jiffies : (s.deactivateTask p).jiffies = s.jiffies := by
  simp only [deactivateTask]; split_ifs <;> split <;> simp

/-- Deactivating a queued task is dequeuing it, after the counters. -/
lemma deactivateTask_eq {a : ArrayId} (ha : (s.task p).array = some a) :
    ∃ n, s.deactivateTask p
      = (({ s with nrRunning := s.nrRunning - 1, nrUninterruptible := n } : Sys).dequeueTask p
          a).modTask p fun t => { t with array := none } := by
  simp only [deactivateTask]
  split_ifs
  · exact ⟨s.nrUninterruptible + 1, by simp only [ha]⟩
  · exact ⟨s.nrUninterruptible, by simp only [ha]⟩

end Sys

namespace TaskOk

variable {active expired : ArrayId} {t : Task}

/-- A task with its sleep bonus stays in order. -/
lemma bonus (h : TaskOk active expired t) {M : Arch} {j : ℕ} :
    TaskOk active expired (bonusOf M j t) := by
  simp only [bonusOf]
  split_ifs with hb
  · have hother : t.policy = .other := by
      have := (not_congr h.isRt_iff).mp hb.1
      cases hp : t.policy <;> simp_all
    refine of_other hother (h.isShort_ne_one hb.2.2) ?_ (Task.effectivePrio_bounds M _) h.static
    rcases h.markers with ⟨h1, _⟩ | ⟨h1, _⟩ | ⟨_, _, h3⟩
    · exact absurd h1 hb.2.2
    · exact absurd h1 hb.2.2
    · exact h3
  · exact h

/-- A task put on the array it belongs on is in order. -/
lemma home (h : TaskOk active expired t) (hne : active ≠ expired) :
    TaskOk active expired { t with array := some (homeOf active t) } := by
  by_cases hp : t.policy = .short
  · by_cases h1 : t.isShort = 1
    · exact of_regular hp h1 (Or.inr (by simp [homeOf, hp, h1])) (h.usual (Or.inr hp)) h.static
    · have h2 := h.isShort_eq_neg_one hp h1
      exact of_overdue hp h2 (Or.inr (by simp [homeOf, hp, h2])) (h.overdue ⟨hp, h2⟩) h.static
  · have h3 := h.isShort_ne_one hp
    by_cases ho : t.policy = .other
    · exact of_other ho h3 (Or.inr (Or.inl (by simp [homeOf, hp]))) (h.usual (Or.inl ho))
        h.static
    · have hrt : t.policy = .fifo ∨ t.policy = .rr := by
        cases hpol : t.policy <;> simp_all
      exact of_rt hrt h3 (Or.inr (by simp [homeOf, hp])) hne (h.rt hrt).1 h.static

end TaskOk

/-! ### The moves keep the invariant -/

namespace RqInv

variable {s s' : Sys} {p : Tid}

lemma ends_ne (h : RqInv s) : s.active ≠ s.expired := by
  rcases h.ends with ⟨ha, he⟩ | ⟨ha, he⟩ <;> simp [ha, he]

/-- A queued task is queued at a priority of the array. -/
lemma idle_array (h : RqInv s) : (s.task s.idle).array = none := by
  by_contra hne
  exact (h.queued _ hne).2 rfl

/-- The moves of one task: the queues follow it and it ends up in order. -/
lemma move (h : RqInv s) (hf : Frame s s' p) (hp : s.IsTask p) {l : Option (ArrayId × ℕ)}
    (hq : QueuesOk s' (Function.update s.locOf p l)) (hl : s'.locOf p = l)
    (hn : s'.nrRunning = s'.totalActive) (ht : TaskOk s'.active s'.expired (s'.task p)) :
    RqInv s' := by
  have hloc : s'.locOf = Function.update s.locOf p l := by
    funext q
    by_cases hqp : q = p
    · rw [hqp, hl, Function.update_self]
    · rw [Function.update_of_ne hqp, Sys.locOf, Sys.locOf, hf.task q hqp]
  have htask : ∀ q, s'.IsTask q ↔ s.IsTask q := fun q => by
    rw [Sys.IsTask, Sys.IsTask, hf.live, hf.idle]
  refine ⟨hloc ▸ hq, hn, ?_, fun q hqt => ?_, fun q hqa => ?_, ?_, ?_⟩
  · rw [hf.active, hf.expired]
    exact h.ends
  · by_cases hqp : q = p
    · exact hqp ▸ ht
    · rw [hf.active, hf.expired, hf.task q hqp]
      exact h.tasks q ((htask q).mp hqt)
  · refine (htask q).mpr ?_
    by_cases hqp : q = p
    · exact hqp ▸ hp
    · exact h.queued q (hf.task q hqp ▸ hqa)
  · rw [hf.idle, hf.task s.idle (Ne.symm hp.2)]
    exact h.idle
  · rw [hf.live, hf.idle]
    exact h.unlisted

/-- A change, to any tasks, of fields the invariant does not read. -/
lemma mapKey (h : RqInv s) {g : Tid → Task} (hg : ∀ q, SameKey (s.task q) (g q))
    (hst : (g s.idle).state = .running) : RqInv { s with task := g } := by
  have hloc : ({ s with task := g } : Sys).locOf = s.locOf := by
    funext q
    simp only [Sys.locOf, (hg q).array, (hg q).prio]
  have hi := h.idle
  have hgi := hg s.idle
  refine ⟨hloc ▸ h.queues.of_arr rfl, h.nrRunning, h.ends,
    fun q hq => (h.tasks q hq).congr (hg q), fun q hq => h.queued q ?_, ?_, h.unlisted⟩
  · exact (hg q).array ▸ hq
  · exact ⟨hst, hgi.policy ▸ hi.policy, hgi.isShort ▸ hi.isShort, hgi.prio ▸ hi.prio,
      hgi.staticPrio ▸ hi.static⟩

/-- A change, to one task, of fields the invariant does not read. -/
lemma modKey (h : RqInv s) {f : Task → Task} (hf : SameKey (s.task p) (f (s.task p)))
    (hst : p = s.idle → (f (s.task p)).state = .running) : RqInv (s.modTask p f) := by
  refine h.mapKey (fun q => ?_) ?_
  · by_cases hq : q = p
    · rw [hq, Function.update_self]
      exact hf
    · rw [Function.update_of_ne hq]
      exact SameKey.refl _
  · by_cases hp : p = s.idle
    · rw [← hp, Function.update_self]
      exact hst hp
    · rw [Function.update_of_ne (Ne.symm hp)]
      exact h.idle.state

/-- A change to one task that leaves it where it is. -/
lemma modStay (h : RqInv s) {f : Task → Task} (hp : s.IsTask p)
    (ha : (f (s.task p)).array = (s.task p).array) (hpr : (f (s.task p)).prio = (s.task p).prio)
    (ht : TaskOk s.active s.expired (f (s.task p))) : RqInv (s.modTask p f) := by
  have hl : (s.modTask p f).locOf p = s.locOf p := by
    simp only [Sys.locOf, Sys.modTask_task_self, ha, hpr]
  refine h.move (p := p) (l := s.locOf p)
    ⟨rfl, rfl, rfl, rfl, fun q hq => Sys.modTask_task_of_ne _ _ _ hq⟩ hp ?_ hl h.nrRunning
    (by rwa [Sys.modTask_task_self])
  rw [Function.update_eq_self]
  exact h.queues.of_arr rfl

/-- A change to a task that is off the queues. -/
lemma modOff (h : RqInv s) {f : Task → Task} (hp : s.IsTask p) (ha : (s.task p).array = none)
    (hfa : (f (s.task p)).array = none) (ht : TaskOk s.active s.expired (f (s.task p))) :
    RqInv (s.modTask p f) := by
  have hloc : Function.update s.locOf p none = s.locOf :=
    Function.update_eq_self_iff.mpr (Sys.locOf_eq_none ha).symm
  refine h.move (p := p) (l := none)
    ⟨rfl, rfl, rfl, rfl, fun q hq => Sys.modTask_task_of_ne _ _ _ hq⟩ hp
    (hloc.symm ▸ h.queues.of_arr rfl) ?_ h.nrRunning (by rwa [Sys.modTask_task_self])
  exact Sys.locOf_eq_none (by rwa [Sys.modTask_task_self])

/-- A task leaves its queue, changes, and enters the queue of its new priority in the array
`b`, at any position; the counters stay. -/
lemma requeueAs (h : RqInv s) {a b : ArrayId} (ha : (s.task p).array = some a) (f : Task → Task)
    (ht : TaskOk s.active s.expired { f (s.task p) with array := some b }) {l : List Tid}
    (hl : l.Perm (p :: ((s.dequeueTask p a).arr b).queue (f (s.task p)).prio)) :
    RqInv (((s.dequeueTask p a).modTask p f).enqueueAs p b l) := by
  set s₁ := (s.dequeueTask p a).modTask p f with hs₁
  have hp : s.IsTask p := h.queued p (by simp [ha])
  have htask : s₁.task p = f (s.task p) := by simp [hs₁]
  have hq₁ : QueuesOk s₁ (Function.update s.locOf p none) :=
    (h.queues.dequeueTask (Sys.locOf_eq_some ha)).of_arr rfl
  have hprio : (s₁.task p).prio < maxPrio := htask ▸ ht.prio_lt
  have hq₂ := hq₁.enqueueAs (a := b) (l := l) (Function.update_self ..) hprio
    (by rw [htask]; exact hl)
  rw [Function.update_idem] at hq₂
  refine h.move (p := p) ⟨by simp [hs₁], by simp [hs₁], by simp [hs₁], by simp [hs₁],
    fun q hqp => ?_⟩ hp hq₂ ?_ ?_ ?_
  · rw [Sys.enqueueAs_task, Function.update_of_ne hqp, hs₁, Sys.modTask_task_of_ne _ _ _ hqp,
      Sys.dequeueTask_task]
  · simp [Sys.locOf, Sys.enqueueAs_task]
  · have h1 : s₁.totalActive = s.totalActive - 1 :=
      Sys.totalActive_dequeueTask h.queues (Sys.locOf_eq_some ha)
    rw [Sys.totalActive_enqueueAs, h1, Sys.enqueueAs_nrRunning]
    simp [hs₁, h.nrRunning]
  · simpa [Sys.enqueueAs_task, htask, hs₁] using ht

/-- The same, in at the tail. -/
lemma requeue (h : RqInv s) {a b : ArrayId} (ha : (s.task p).array = some a) (f : Task → Task)
    (ht : TaskOk s.active s.expired { f (s.task p) with array := some b }) :
    RqInv (((s.dequeueTask p a).modTask p f).enqueueTask p b) := by
  refine h.requeueAs ha f ht ?_
  rw [Sys.modTask_task_self, Sys.dequeueTask_task]
  exact append_singleton_perm _ _

/-- A task off the queues enters one of them, at any position, and is counted. -/
lemma enqueue (h : RqInv s) {b : ArrayId} (hp : s.IsTask p) (ha : (s.task p).array = none)
    (ht : TaskOk s.active s.expired { s.task p with array := some b }) {l : List Tid}
    (hl : l.Perm (p :: (s.arr b).queue (s.task p).prio)) :
    RqInv { s.enqueueAs p b l with nrRunning := s.nrRunning + 1 } := by
  have hq := h.queues.enqueueAs (a := b) (Sys.locOf_eq_none ha) (ht.prio_lt) hl
  have hf : Frame s { s.enqueueAs p b l with nrRunning := s.nrRunning + 1 } p :=
    ⟨s.enqueueAs_live p b l, s.enqueueAs_idle p b l, s.enqueueAs_active p b l,
      s.enqueueAs_expired p b l, fun q hqp => Function.update_of_ne hqp ..⟩
  refine h.move hf hp (hq.of_arr rfl) ?_ ?_ ?_
  · simp [Sys.locOf, Sys.enqueueAs_task]
  · have h1 := s.totalActive_enqueueAs p b l
    simp only [Sys.totalActive] at h1 ⊢
    rw [h1, h.nrRunning, Sys.totalActive]
  · simpa [Sys.enqueueAs_task] using ht

/-- `deactivate_task`. -/
lemma deactivate (h : RqInv s) {a : ArrayId} (ha : (s.task p).array = some a) :
    RqInv (s.deactivateTask p) := by
  have hp : s.IsTask p := h.queued p (by simp [ha])
  have hloc := Sys.locOf_eq_some ha
  obtain ⟨n, heq⟩ := s.deactivateTask_eq p ha
  have hq : QueuesOk ({ s with nrRunning := s.nrRunning - 1, nrUninterruptible := n } : Sys)
      s.locOf := h.queues.of_arr rfl
  have htotal := Sys.totalActive_dequeueTask hq hloc
  refine h.move (s.deactivateTask_frame p) hp (l := none) ?_ ?_ ?_ ?_
  · rw [heq]
    exact (hq.dequeueTask hloc).of_arr rfl
  · exact Sys.locOf_eq_none (by rw [Sys.deactivateTask_task, Function.update_self])
  · rw [heq]
    refine Eq.trans ?_ htotal.symm
    rw [Sys.modTask_nrRunning, Sys.dequeueTask_nrRunning]
    exact congrArg (· - 1) h.nrRunning
  · rw [Sys.deactivateTask_task, Function.update_self]
    have hf := s.deactivateTask_frame p
    rw [hf.active, hf.expired]
    exact (h.tasks p hp).off

/-- `activate_task`. -/
lemma activate (M : Arch) (h : RqInv s) (hp : s.IsTask p) (ha : (s.task p).array = none) :
    RqInv (s.activateTask M p) := by
  have ht := h.tasks p hp
  have hbonus : TaskOk s.active s.expired (bonusOf M s.jiffies (s.task p)) := ht.bonus
  have h₁ : RqInv (s.modTask p (bonusOf M s.jiffies)) := h.modOff hp ha (by simp [ha]) hbonus
  have hhome : TaskOk s.active s.expired
      { bonusOf M s.jiffies (s.task p) with array := some (homeOf s.active (s.task p)) } := by
    simpa [homeOf] using hbonus.home h.ends_ne
  refine h₁.enqueue (p := p) (b := homeOf s.active (s.task p)) hp ?_ ?_
    (append_singleton_perm _ _)
  · simp [ha]
  · rw [Sys.modTask_task_self]
    exact hhome

end RqInv

end Os234123.Sched
