import Os234123.Sched.Step

/-!
The state after booting, and what holds in every reachable state.

* `booted_eq`: the boot thread is queued by `sched_init` and taken off again by `init_idle`;
* `booted_task`, `booted_idle_task`: the records after booting;
* `booted_inv`: the invariant holds after booting;
* `reach_inv`: the invariant holds in every reachable state.
-/

namespace Os234123.Sched

open Machine

section

variable (M : Arch)

/-- Memory once `sched_init` has set up the arrays. -/
def arraysSet : Sys :=
  { Sys.zeroed M with
    active := .arrays0
    expired := .arrays1
    arr := fun a => Sys.initArray ((Sys.zeroed M).arr a) }

/-- Memory once `sched_init` has queued the boot thread. -/
def bootQueued : Sys :=
  { ((arraysSet M).enqueueTask 0 .arrays0).modTask 0 (fun t => { t with state := .running })
    with nrRunning := 1 }

lemma arraysSet_queues : QueuesOk (arraysSet M) fun _ => none := by
  refine ⟨⟨fun k => ?_, fun p k => ?_⟩, fun a => ⟨fun k hk => ?_, ?_, ?_, fun k _ => ?_⟩⟩ <;>
    simp_all [arraysSet, Sys.zeroed, Sys.initArray, Sys.queueAt]

/-- The boot thread is queued like any other task. -/
lemma schedInit_eq : Sys.schedInit M (Sys.zeroed M) = bootQueued M := by
  have hbonus : (arraysSet M).modTask 0 (bonusOf M (arraysSet M).jiffies) = arraysSet M := by
    have : bonusOf M (arraysSet M).jiffies ((arraysSet M).task 0) = (arraysSet M).task 0 := by
      simp [bonusOf, arraysSet, Sys.zeroed, initTask]
    simp only [Sys.modTask, this, Function.update_eq_self]
  have hact : (arraysSet M).activateTask M 0
      = { (arraysSet M).enqueueTask 0 .arrays0 with nrRunning := 1 } := by
    simp only [Sys.activateTask, hbonus]
    rfl
  have hnone : ((arraysSet M).task 0).array = none := rfl
  have hstate : ((arraysSet M).task 0).state = .running := rfl
  have hcurr : ((arraysSet M).enqueueTask 0 .arrays0).curr = 0 := rfl
  change (arraysSet M).tryToWakeUp M 0 = _
  simp only [Sys.tryToWakeUp, hnone, hstate, reduceCtorEq, if_false, hact, hcurr, lt_irrefl]
  rfl

lemma bootQueued_self : (bootQueued M).task 0 = { initTask M with array := some .arrays0 } := rfl

lemma bootQueued_of_ne {q : Tid} (hq : q ≠ 0) : (bootQueued M).task q = initTask M := by
  have h1 : (bootQueued M).task q = ((arraysSet M).enqueueTask 0 .arrays0).task q :=
    Function.update_of_ne hq ..
  rw [h1, Sys.enqueueTask, Sys.enqueueAs_task, Function.update_of_ne hq]
  rfl

/-- `init_idle` takes the boot thread off its queue again. -/
lemma booted_eq : Sys.booted M = ((bootQueued M).deactivateTask 0).modTask 0 fun t =>
    { t with array := none, prio := maxPrio, state := .running, requestedTime := 0,
             isShort := 0, needResched := true } := by
  rw [Sys.booted, schedInit_eq]
  rfl

/-! ### The state after booting -/

lemma booted_idle : (Sys.booted M).idle = 0 := by
  rw [booted_eq, Sys.modTask_idle, ((bootQueued M).deactivateTask_frame 0).idle]
  rfl

lemma booted_curr : (Sys.booted M).curr = 0 := by
  rw [booted_eq, Sys.modTask_curr, Sys.deactivateTask_curr]
  rfl

lemma booted_live (q : Tid) : (Sys.booted M).live q = false := by
  rw [booted_eq, Sys.modTask_live, ((bootQueued M).deactivateTask_frame 0).live]
  rfl

lemma booted_idle_task : (Sys.booted M).task 0 = { initTask M with
    array := none, prio := maxPrio, state := .running, requestedTime := 0, isShort := 0,
    needResched := true } := by
  rw [booted_eq, Sys.modTask_task_self, deactivateTask_self, bootQueued_self]

lemma booted_task {q : Tid} (hq : q ≠ 0) : (Sys.booted M).task q = initTask M := by
  rw [booted_eq, Sys.modTask_task_of_ne _ _ _ hq, ((bootQueued M).deactivateTask_frame 0).task q hq,
    bootQueued_of_ne M hq]

lemma booted_array (q : Tid) : ((Sys.booted M).task q).array = none := by
  by_cases hq : q = 0
  · rw [hq, booted_idle_task]
  · rw [booted_task M hq]
    rfl

lemma booted_queues : QueuesOk (Sys.booted M) fun _ => none := by
  have hq₁ := (arraysSet_queues M).enqueueTask (p := 0) (a := .arrays0) rfl
    (show maxPrio - 20 < maxPrio by decide)
  obtain ⟨n, heq⟩ := (bootQueued M).deactivateTask_eq 0 (a := .arrays0) (by rw [bootQueued_self])
  have hq₂ : QueuesOk { bootQueued M with
      nrRunning := (bootQueued M).nrRunning - 1, nrUninterruptible := n }
      (Function.update (fun _ => none) 0 (some (.arrays0, 120))) := hq₁.of_arr rfl
  have hq₃ := hq₂.dequeueTask (p := 0) (a := .arrays0) (by rw [Function.update_self]; rfl)
  rw [Function.update_idem, Function.update_eq_self_iff.mpr rfl] at hq₃
  exact hq₃.of_arr (by rw [booted_eq, heq]; rfl)

/-- An array that no task is placed in counts none. -/
lemma QueuesOk.nrActive_eq_zero {s : Sys} (h : QueuesOk s fun _ => none) (a : ArrayId) :
    (s.arr a).nrActive = 0 :=
  (h.arrayOk a).nrActive_eq_zero_iff.mpr fun k => by
    by_contra hne
    obtain ⟨p, hp⟩ := List.exists_mem_of_ne_nil _ hne
    exact absurd ((h.located.mem_iff p (a, k)).mp hp) (by simp)

lemma booted_nrRunning : (Sys.booted M).nrRunning = 0 := by
  obtain ⟨n, heq⟩ := (bootQueued M).deactivateTask_eq 0 (a := .arrays0) (by rw [bootQueued_self])
  rw [booted_eq, Sys.modTask_nrRunning, heq, Sys.modTask_nrRunning, Sys.dequeueTask_nrRunning]
  rfl

/-- Once the boot thread is the idle task, nothing is queued. -/
theorem booted_inv : Inv (Sys.booted M) := by
  have hframe := (bootQueued M).deactivateTask_frame 0
  have hloc : (Sys.booted M).locOf = fun _ => none :=
    funext fun q => Sys.locOf_eq_none (booted_array M q)
  have hnot : ∀ q, ¬ (Sys.booted M).IsTask q := fun q hq => by
    have := hq.1
    simp [booted_live M q] at this
  have hempty := (booted_queues M).nrActive_eq_zero
  refine ⟨⟨hloc ▸ booted_queues M, ?_, Or.inl ⟨?_, ?_⟩, fun q hq => absurd hq (hnot q),
    fun q hq => absurd (booted_array M q) hq, ?_, booted_live M _⟩,
    fun hne => absurd ((booted_curr M).trans (booted_idle M).symm) hne,
    fun q hq => absurd hq (hnot q)⟩
  · rw [booted_nrRunning, Sys.totalActive, hempty, hempty, hempty, hempty]
    rfl
  · rw [booted_eq, Sys.modTask_active, hframe.active]
    rfl
  · rw [booted_eq, Sys.modTask_expired, hframe.expired]
    rfl
  · rw [booted_idle, booted_idle_task]
    exact ⟨rfl, rfl, rfl, rfl, (show maxRtPrio ≤ maxPrio - 20 ∧ maxPrio - 20 < maxPrio by decide)⟩

end

/-- **The invariant holds in every reachable state.** -/
theorem reach_inv {M : Arch} {ops : List Op} {s : Sys}
    (h : run (Sys.exec M) ops (Sys.booted M) = some s) : Inv s :=
  run_induct (fun _ _ _ hi hs => (exec_step hi hs).inv) (booted_inv M) h

end Os234123.Sched
