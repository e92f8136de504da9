import Os234123.Sched.Tick

/-!
What an operation leaves alone.

* `SameCore`: class, request and slice of a task stay;
* `Kept`: so do its state and whether it is queued;
* `Quiet x`: the operation keeps every task but `x`, the list of tasks and the running task;
* `Inv.of_quiet`: a quiet operation keeps the invariant, if it does for the task it is about.

The fields in `SameCore` are those the claims about time slices and classes depend on.
-/

namespace Os234123.Sched

/-- The fields that say what class a task is in and how long it may run. -/
structure SameCore (t t' : Task) : Prop where
  policy : t'.policy = t.policy
  isShort : t'.isShort = t.isShort
  requestedTime : t'.requestedTime = t.requestedTime
  timeSlice : t'.timeSlice = t.timeSlice

lemma SameCore.refl (t : Task) : SameCore t t := ⟨rfl, rfl, rfl, rfl⟩

lemma SameCore.trans {t t' t'' : Task} (h : SameCore t t') (h' : SameCore t' t'') :
    SameCore t t'' :=
  ⟨h'.policy.trans h.policy, h'.isShort.trans h.isShort,
    h'.requestedTime.trans h.requestedTime, h'.timeSlice.trans h.timeSlice⟩

/-- The task keeps its class, its slice, its state and whether it is queued. -/
structure Kept (t t' : Task) : Prop extends SameCore t t' where
  state : t'.state = t.state
  queued : t'.array ≠ none ↔ t.array ≠ none

lemma Kept.refl (t : Task) : Kept t t := ⟨SameCore.refl t, rfl, Iff.rfl⟩

lemma Kept.trans {t t' t'' : Task} (h : Kept t t') (h' : Kept t' t'') : Kept t t'' :=
  ⟨h.toSameCore.trans h'.toSameCore, h'.state.trans h.state, h'.queued.trans h.queued⟩

lemma Kept.awake {t t' : Task} (h : Kept t t') : Awake t' ↔ Awake t := by
  rw [Awake, Awake, h.state, h.queued]

/-- The system knows the task: it is listed, or it is the idle task. -/
def Sys.Known (s : Sys) (p : Tid) : Prop := s.IsTask p ∨ p = s.idle

/-- The operation keeps every task but `x`, and does not touch what the system does not
know. -/
structure Quiet (x : Option Tid) (s s' : Sys) : Prop where
  live : s'.live = s.live
  idle : s'.idle = s.idle
  curr : s'.curr = s.curr
  kept : ∀ q, x ≠ some q → Kept (s.task q) (s'.task q)
  off : ∀ q, ¬ s.Known q → s'.task q = s.task q

namespace Quiet

variable {x : Option Tid} {s s' s'' : Sys} {p : Tid}

lemma refl (s : Sys) : Quiet x s s := ⟨rfl, rfl, rfl, fun _ _ => Kept.refl _, fun _ _ => rfl⟩

lemma known (h : Quiet x s s') (q : Tid) : s'.Known q ↔ s.Known q := by
  rw [Sys.Known, Sys.Known, Sys.IsTask, Sys.IsTask, h.live, h.idle]

lemma trans (h : Quiet x s s') (h' : Quiet x s' s'') : Quiet x s s'' where
  live := h'.live.trans h.live
  idle := h'.idle.trans h.idle
  curr := h'.curr.trans h.curr
  kept := fun q hq => (h.kept q hq).trans (h'.kept q hq)
  off := fun q hq => (h'.off q ((not_congr (h.known q)).mpr hq)).trans (h.off q hq)

/-- An operation that keeps every task keeps every task but one. -/
lemma weaken (h : Quiet none s s') : Quiet x s s' :=
  ⟨h.live, h.idle, h.curr, fun q _ => h.kept q (Option.some_ne_none q).symm, h.off⟩

/-- An operation on a task it keeps. -/
lemma strengthen (h : Quiet (some p) s s') (hp : Kept (s.task p) (s'.task p)) :
    Quiet none s s' := by
  refine ⟨h.live, h.idle, h.curr, fun q _ => ?_, h.off⟩
  by_cases hq : q = p
  · exact hq ▸ hp
  · exact h.kept q fun he => hq (Option.some.inj he).symm

/-- An operation that changes one record. -/
lemma of_others (hlive : s'.live = s.live) (hidle : s'.idle = s.idle) (hcurr : s'.curr = s.curr)
    (hp : s.Known p) (htask : ∀ q, q ≠ p → s'.task q = s.task q) : Quiet (some p) s s' := by
  refine ⟨hlive, hidle, hcurr, fun q hq => ?_, fun q hq => htask q fun he => hq (he ▸ hp)⟩
  rw [htask q fun he => hq (he ▸ rfl)]
  exact Kept.refl _

lemma of_frame (hf : Frame s s' p) (hcurr : s'.curr = s.curr) (hp : s.Known p) :
    Quiet (some p) s s' := of_others hf.live hf.idle hcurr hp hf.task

/-- An operation that changes no task. -/
lemma of_task (hlive : s'.live = s.live) (hidle : s'.idle = s.idle) (hcurr : s'.curr = s.curr)
    (htask : s'.task = s.task) : Quiet x s s' :=
  ⟨hlive, hidle, hcurr, fun _ _ => htask ▸ Kept.refl _, fun _ _ => htask ▸ rfl⟩

/-! ### The elementary moves -/

lemma modTask {f : Task → Task} (hp : s.Known p) : Quiet (some p) s (s.modTask p f) :=
  of_others rfl rfl rfl hp fun _ hq => Sys.modTask_task_of_ne _ _ _ hq

lemma modTask_kept {f : Task → Task} (hp : s.Known p)
    (hf : Kept (s.task p) (f (s.task p))) : Quiet none s (s.modTask p f) :=
  (modTask hp).strengthen (by rwa [Sys.modTask_task_self])

lemma reschedTask (hp : s.Known p) : Quiet none s (s.reschedTask p) :=
  modTask_kept hp ⟨⟨rfl, rfl, rfl, rfl⟩, rfl, Iff.rfl⟩

lemma activate (M : Arch) (hp : s.Known p) : Quiet (some p) s (s.activateTask M p) :=
  of_frame (s.activateTask_frame M p) rfl hp

lemma deactivate (hp : s.Known p) : Quiet (some p) s (s.deactivateTask p) :=
  of_frame (s.deactivateTask_frame p) (by simp) hp

lemma andModTask {f : Task → Task} (h : Quiet (some p) s s') (hp : s.Known p) :
    Quiet (some p) s (s'.modTask p f) := h.trans (modTask ((h.known p).mpr hp))

lemma andResched {q : Tid} (h : Quiet x s s') (hq : s.Known q) :
    Quiet x s (s'.reschedTask q) := h.trans (reschedTask ((h.known q).mpr hq)).weaken

lemma andActivate (M : Arch) (h : Quiet (some p) s s') (hp : s.Known p) :
    Quiet (some p) s (s'.activateTask M p) := h.trans (activate M ((h.known p).mpr hp))

/-- A dequeued task put back into some queue. -/
lemma requeue {a b : ArrayId} {f : Task → Task} {l : List Tid} (hp : s.Known p) :
    Quiet (some p) s (((s.dequeueTask p a).modTask p f).enqueueAs p b l) := by
  refine of_others (by simp) (by simp) (by simp) hp fun q hq => ?_
  rw [Sys.enqueueAs_task, Function.update_of_ne hq, Sys.modTask_task_of_ne _ _ _ hq,
    Sys.dequeueTask_task]

lemma schedulerTick (M : Arch) (hp : s.Known s.curr) :
    Quiet (some s.curr) s (s.schedulerTick M) :=
  of_others Sys.schedulerTick_frame.2.2.1 Sys.schedulerTick_frame.2.1 Sys.schedulerTick_frame.1
    hp fun _ hq => Sys.schedulerTick_task_of_ne hq

end Quiet

namespace Inv

variable {s s' : Sys} {x : Option Tid} {p : Tid}

lemma known_curr (h : Inv s) : s.Known s.curr := by
  by_cases hc : s.curr = s.idle
  · exact Or.inr hc
  · exact Or.inl (h.queued _ (h.curr hc))

/-- A quiet operation keeps the invariant, if it does for the task it is about. -/
lemma of_quiet_but (h : Inv s) (hq : Quiet (some p) s s') (hs' : RqInv s')
    (hcurr : p = s.curr → p ≠ s.idle → (s'.task p).array ≠ none)
    (hawake : s.IsTask p → p ≠ s.curr → Awake (s'.task p)) : Inv s' := by
  have htask : ∀ q, s'.IsTask q ↔ s.IsTask q := fun q => by
    rw [Sys.IsTask, Sys.IsTask, hq.live, hq.idle]
  refine ⟨hs', fun hne => ?_, fun q hqt hqc => ?_⟩
  · rw [hq.curr, hq.idle] at hne
    rw [hq.curr]
    by_cases hp : s.curr = p
    · rw [hp]
      exact hcurr hp.symm (hp ▸ hne)
    · exact (hq.kept _ fun he => hp (Option.some.inj he).symm).queued.mpr (h.curr hne)
  · rw [htask] at hqt
    rw [hq.curr] at hqc
    by_cases hp : q = p
    · exact hp ▸ hawake (hp ▸ hqt) (hp ▸ hqc)
    · exact (hq.kept _ fun he => hp (Option.some.inj he).symm).awake.mpr (h.awake q hqt hqc)

lemma of_quiet (h : Inv s) (hq : Quiet none s s') (hs' : RqInv s') : Inv s' :=
  h.of_quiet_but (p := s.curr) hq.weaken hs'
    (fun _ hne => (hq.kept _ (Option.some_ne_none _).symm).queued.mpr (h.curr hne))
    fun _ hne => absurd rfl hne

end Inv

/-! ### The elementary moves on the task itself -/

section

variable (M : Arch) (s : Sys) (p : Tid)

lemma activateTask_core : SameCore (s.task p) ((s.activateTask M p).task p) := by
  rw [Sys.activateTask_task, Function.update_self]
  constructor <;> simp

lemma activateTask_queued : ((s.activateTask M p).task p).array ≠ none := by
  rw [Sys.activateTask_task, Function.update_self]
  exact Option.some_ne_none _

lemma activateTask_state : ((s.activateTask M p).task p).state = (s.task p).state := by
  rw [Sys.activateTask_task, Function.update_self]
  simp

lemma reschedTask_kept (q : Tid) : Kept (s.task q) ((s.reschedTask p).task q) := by
  by_cases hq : q = p
  · rw [hq, Sys.reschedTask, Sys.modTask_task_self]
    exact ⟨⟨rfl, rfl, rfl, rfl⟩, rfl, Iff.rfl⟩
  · rw [Sys.reschedTask, Sys.modTask_task_of_ne _ _ _ hq]
    exact Kept.refl _

lemma deactivateTask_self : (s.deactivateTask p).task p = { s.task p with array := none } := by
  rw [Sys.deactivateTask_task, Function.update_self]

end

end Os234123.Sched
