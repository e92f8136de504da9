import Os234123.Sched.States

/-!
Wait queues, completions and `vfork`.

* `Sys.wakeUpCommon`: `__wake_up_common`;
* `WaitSys`: the scheduler with the wait queues, and where each task is in the functions that wait;
* `WaitSys.exec`: one step; `wait_for_completion` and `sleep_on` take several of them, because an
  interrupt can come before their call of `schedule` and any number of other tasks run inside it.

The kernel is not preempted: a task that is in one of these functions leaves the processor only where
the function itself calls `schedule`.
-/

namespace Os234123.Sched

/-! ### Waking a queue -/

/-- The number of a state, a bit of `mode`. -/
def TaskState.bit : TaskState → ℕ
  | .running => 0
  | .interruptible => 1
  | .uninterruptible => 2
  | .zombie => 4
  | .stopped => 8

/-- `wait_queue_t`; the flag is `WQ_FLAG_EXCLUSIVE`. -/
structure Waiter where
  task : Tid
  exclusive : Bool
  deriving DecidableEq, Repr

/-- `__wake_up_common` with `sync` clear.  `try_to_wake_up` succeeds if the task was on no array. -/
def Sys.wakeUpCommon (M : Arch) (mode : ℕ) : List Waiter → ℤ → Sys → Sys
  | [], _, s => s
  | w :: q, nrExclusive, s =>
      if (s.task w.task).state.bit &&& mode = 0 then wakeUpCommon M mode q nrExclusive s
      else if (s.task w.task).array = none ∧ w.exclusive then
        if nrExclusive - 1 = 0 then s.tryToWakeUp M w.task
        else wakeUpCommon M mode q (nrExclusive - 1) (s.tryToWakeUp M w.task)
      else wakeUpCommon M mode q nrExclusive (s.tryToWakeUp M w.task)

/-! ### The machine -/

/-- A wait queue: one of its own, that of a completion, or that of the completion on the kernel stack
of a task inside `do_fork`. -/
inductive Head where
  | queue (q : ℕ)
  | completion (x : ℕ)
  | vfork (f : Tid)
  deriving DecidableEq, Repr

/-- Where a task is in the functions that wait. -/
inductive Place where
  | away
  /-- In `do_fork`, before its call of `wait_for_completion`. -/
  | forked
  /-- In `wait_for_completion`, before its call of `schedule`. -/
  | asking (x : Head)
  /-- In `wait_for_completion`, in its call of `schedule`. -/
  | asked (x : Head)
  /-- In `sleep_on` or `interruptible_sleep_on`, before `SLEEP_ON_HEAD`. -/
  | dozing (st : TaskState) (q : ℕ)
  /-- There, in the call of `schedule`. -/
  | dozed (st : TaskState) (q : ℕ)
  deriving DecidableEq, Repr

/-- The scheduler and the tasks that wait; `vforkDone` names the task on whose stack the completion is
that `vfork_done` points to. -/
structure WaitSys where
  sys : Sys
  waiters : Head → List Waiter
  done : Head → ℕ
  vforkDone : Tid → Option Tid
  place : Tid → Place

/-- The steps of the machine. -/
inductive WaitOp where
  | op (o : Op)
  | wakeUp (q mode : ℕ) (nrExclusive : ℤ)
  | complete (x : ℕ)
  | waitForCompletion (x : ℕ)
  | sleepOn (st : TaskState) (q : ℕ)
  | vfork (flags : ForkFlags) (c : Tid)
  | waitVfork
  | park
  | resume
  | mmRelease

namespace WaitSys

variable (M : Arch) (x : WaitSys)

/-- The place of the running task. -/
def here : Place := x.place x.sys.curr

/-- The running task goes to a place. -/
def goto (pl : Place) : WaitSys := { x with place := Function.update x.place x.sys.curr pl }

/-- `__add_wait_queue`. -/
def addWaitQueue (h : Head) (w : Waiter) : WaitSys :=
  { x with waiters := Function.update x.waiters h (w :: x.waiters h) }

/-- `__add_wait_queue_tail`. -/
def addWaitQueueTail (h : Head) (w : Waiter) : WaitSys :=
  { x with waiters := Function.update x.waiters h (x.waiters h ++ [w]) }

/-- `__remove_wait_queue`. -/
def removeWaitQueue (h : Head) (w : Waiter) : WaitSys :=
  { x with waiters := Function.update x.waiters h ((x.waiters h).erase w) }

/-- `current->state = st`. -/
def setCurrentState (st : TaskState) : WaitSys :=
  { x with sys := x.sys.modTask x.sys.curr fun t => { t with state := st } }

/-- `__wake_up` on a queue. -/
def wakeUp (h : Head) (mode : ℕ) (nrExclusive : ℤ) : WaitSys :=
  { x with sys := x.sys.wakeUpCommon M mode (x.waiters h) nrExclusive }

/-- `complete`; the mode is `TASK_UNINTERRUPTIBLE | TASK_INTERRUPTIBLE`. -/
def complete (h : Head) : WaitSys :=
  { x with done := Function.update x.done h (uadd (x.done h) 1) }.wakeUp M h 3 1

/-- `x->done--`, and `wait_for_completion` returns. -/
def takeDone (h : Head) : WaitSys :=
  { x with done := Function.update x.done h (x.done h - 1) }.goto .away

/-- `wait_for_completion` up to its first call of `schedule`. -/
def waitForCompletion (h : Head) : WaitSys :=
  if x.done h = 0 then
    ((x.addWaitQueueTail h ⟨x.sys.curr, true⟩).setCurrentState .uninterruptible).goto (.asking h)
  else x.takeDone h

/-- The loop of `wait_for_completion` after a call of `schedule`. -/
def waitAgain (h : Head) : WaitSys :=
  if x.done h = 0 then (x.setCurrentState .uninterruptible).goto (.asking h)
  else (x.removeWaitQueue h ⟨x.sys.curr, true⟩).takeDone h

/-- What can happen now: while the running task is in a function that waits, only what interrupts do.
A fork with `CLONE_VFORK` is a step of its own, and a task that exits has released its memory. -/
def Allows (o : Op) : Prop :=
  match x.here, o with
  | .away, .fork flags _ => flags.cloneVfork = false
  | .away, .exit _ => x.vforkDone x.sys.curr = none
  | .away, _ => True
  | _, .elapse => True
  | _, .tick => True
  | _, .wake _ => True
  | _, .signal _ _ => True
  | _, _ => False

instance (o : Op) : Decidable (x.Allows o) := by
  unfold Allows
  generalize x.here = pl
  induction pl using Place.casesOn <;> induction o using Op.casesOn <;> infer_instance

/-- The running task can make a call that may block. -/
def CanBlock : Prop := x.sys.InProcess ∧ x.here = .away

instance : Decidable x.CanBlock := inferInstanceAs (Decidable (_ ∧ _))

/-- `do_fork` with `CLONE_VFORK`, up to its call of `wait_for_completion`. -/
def vfork (flags : ForkFlags) (c : Tid) : Option WaitSys :=
  (x.sys.doFork M flags c).map fun s =>
    { x with
      sys := s
      waiters := Function.update x.waiters (.vfork x.sys.curr) []
      done := Function.update x.done (.vfork x.sys.curr) 0
      vforkDone := Function.update x.vforkDone c (some x.sys.curr)
      place := Function.update x.place x.sys.curr .forked }

/-- `mm_release`. -/
def mmRelease : WaitSys :=
  match x.vforkDone x.sys.curr with
  | none => x
  | some f =>
      { x with vforkDone := Function.update x.vforkDone x.sys.curr none }.complete M (.vfork f)

/-- The call of `schedule` in a function that waits, the rest of `SLEEP_ON_HEAD` included. -/
def park : Option WaitSys :=
  let sleep (x : WaitSys) (pl : Place) : Option WaitSys :=
    (x.sys.schedule M).map fun s => { x.goto pl with sys := s }
  match x.here with
  | .asking h => sleep x (.asked h)
  | .dozing st q => sleep (x.addWaitQueue (.queue q) ⟨x.sys.curr, false⟩) (.dozed st q)
  | _ => none

/-- What a function that waits does once `schedule` returns. -/
def resume : Option WaitSys :=
  match x.here with
  | .asked h => some (x.waitAgain h)
  | .dozed _ q => some ((x.removeWaitQueue (.queue q) ⟨x.sys.curr, false⟩).goto .away)
  | _ => none

/-- What a fork does to `vfork_done` of the child. -/
def afterOp (o : Op) (s : Sys) : WaitSys :=
  match o with
  | .fork _ c => { x with sys := s, vforkDone := Function.update x.vforkDone c none }
  | _ => { x with sys := s }

/-- One step. -/
def exec : WaitOp → WaitSys → Option WaitSys
  | .op o, x => if x.Allows o then (x.sys.exec M o).map (x.afterOp o) else none
  | .wakeUp q mode nrExclusive, x => some (x.wakeUp M (.queue q) mode nrExclusive)
  | .complete c, x => some (x.complete M (.completion c))
  | .waitForCompletion c, x => if x.CanBlock then some (x.waitForCompletion (.completion c)) else none
  | .sleepOn st q, x =>
      if x.CanBlock ∧ (st = .interruptible ∨ st = .uninterruptible)
      then some ((x.setCurrentState st).goto (.dozing st q)) else none
  | .vfork flags c, x =>
      if x.CanBlock ∧ flags.cloneVfork ∧ x.sys.IsFresh c then x.vfork M flags c else none
  | .waitVfork, x =>
      if x.here = .forked then some (x.waitForCompletion (.vfork x.sys.curr)) else none
  | .park, x => x.park M
  | .resume, x => x.resume
  | .mmRelease, x => if x.CanBlock then some (x.mmRelease M) else none

/-- The machine after booting. -/
def booted : WaitSys where
  sys := Sys.booted M
  waiters := fun _ => []
  done := fun _ => 0
  vforkDone := fun _ => none
  place := fun _ => .away

end WaitSys

namespace WaitSys

variable (x : WaitSys)

@[simp] lemma goto_here (pl : Place) : (x.goto pl).here = pl := Function.update_self ..

@[simp] lemma setCurrentState_state (st : TaskState) :
    ((x.setCurrentState st).sys.task (x.setCurrentState st).sys.curr).state = st := by
  simp [setCurrentState]

lemma setCurrentState_of_ne (st : TaskState) {p : Tid} (hp : p ≠ x.sys.curr) :
    (x.setCurrentState st).sys.task p = x.sys.task p :=
  Sys.modTask_task_of_ne x.sys x.sys.curr (fun t => { t with state := st }) hp

end WaitSys

/-! ### What a wake-up does -/

/-- The invariant stays, nobody but the tasks woken changes state, and they are running. -/
structure Rouses (s s' : Sys) : Prop where
  inv : Inv s'
  live : s'.live = s.live
  idle : s'.idle = s.idle
  curr : s'.curr = s.curr
  state : ∀ p, (s'.task p).state = (s.task p).state ∨ (s'.task p).state = .running

namespace Rouses

variable {M : Arch} {s s' s'' : Sys} {p : Tid} {q : List Waiter} {mode : ℕ} {n : ℤ}

lemma refl (h : Inv s) : Rouses s s := ⟨h, rfl, rfl, rfl, fun _ => Or.inl rfl⟩

lemma trans (h : Rouses s s') (h' : Rouses s' s'') : Rouses s s'' := by
  refine ⟨h'.inv, h'.live.trans h.live, h'.idle.trans h.idle, h'.curr.trans h.curr, fun p => ?_⟩
  rcases h'.state p with he | he
  · rw [he]
    exact h.state p
  · exact Or.inr he

lemma isTask (h : Rouses s s') : s'.IsTask p ↔ s.IsTask p := by
  rw [Sys.IsTask, Sys.IsTask, h.live, h.idle]

/-- A task that was running is running. -/
lemma stays (h : Rouses s s') (hp : (s.task p).state = .running) : (s'.task p).state = .running := by
  rcases h.state p with he | he
  · rw [he, hp]
  · exact he

lemma tryToWakeUp (h : Inv s) (hp : s.IsTask p) : Rouses s (s.tryToWakeUp M p) := by
  have hstep : Step M s (.wake p) (s.tryToWakeUp M p) := Step.wake h hp
  have hquiet := Quiet.tryToWakeUp (M := M) h.known_curr (Or.inl hp)
  refine ⟨hstep.inv, hquiet.live, hquiet.idle, hquiet.curr, fun r => ?_⟩
  by_cases hr : r = p
  · exact Or.inr (hr ▸ (tryToWakeUp_self M s p).2.1)
  · exact Or.inl (hquiet.kept r fun he => hr (Option.some.inj he).symm).state

/-- What an interrupt does is no more than that. -/
lemma of_exec {o : Op} (h : Inv s) (hs : s.exec M o = some s') (hsw : o.switches = false)
    (hset : o.setsState = false) (hch : o.child = none) (hl : o.liveAfter s.live = s.live) :
    Rouses s s' := by
  have hstep := exec_step h hs
  refine ⟨hstep.inv, hstep.live.trans hl, hstep.idle, hstep.curr hsw, fun p => ?_⟩
  by_cases hp : s.Known p
  · rcases exec_state h hs hp with he | he | ⟨-, he⟩
    · exact Or.inl he
    · exact Or.inr he
    · rw [hset] at he
      exact absurd he Bool.false_ne_true
  · rw [hstep.off p hp (by simp [hch])]
    exact Or.inl rfl

/-- `__wake_up_common`. -/
lemma wakeUpCommon (mode : ℕ) (n : ℤ) (h : Inv s) (hq : ∀ w ∈ q, s.IsTask w.task) :
    Rouses s (s.wakeUpCommon M mode q n) := by
  induction q generalizing s n with
  | nil => exact refl h
  | cons w q ih =>
      have hw := tryToWakeUp (M := M) h (hq w List.mem_cons_self)
      have hrest : ∀ v ∈ q, s.IsTask v.task := fun v hv => hq v (List.mem_cons_of_mem w hv)
      have hrest' : ∀ v ∈ q, (s.tryToWakeUp M w.task).IsTask v.task := fun v hv =>
        hw.isTask.mpr (hrest v hv)
      rw [Sys.wakeUpCommon]
      split_ifs
      · exact ih n h hrest
      · exact hw
      · exact hw.trans (ih _ hw.inv hrest')
      · exact hw.trans (ih n hw.inv hrest')

end Rouses

section

variable {M : Arch} {s : Sys} {q : List Waiter} {mode : ℕ} {n : ℤ}

/-- The tasks of a queue that are running. -/
def roused (s : Sys) (q : List Waiter) : ℕ := q.countP fun w => (s.task w.task).state = .running

lemma roused_le {s' : Sys} (h : ∀ w ∈ q, (s.task w.task).state = .running →
    (s'.task w.task).state = .running) : roused s q ≤ roused s' q :=
  List.countP_mono_left fun w hw hr => decide_eq_true (h w hw (of_decide_eq_true hr))

lemma roused_cons (s : Sys) (w : Waiter) (q : List Waiter) : roused s (w :: q)
    = roused s q + if (s.task w.task).state = .running then 1 else 0 := by
  simp [roused, List.countP_cons]

/-- **One more.**  When the tasks of a queue of exclusive waiters are running or asleep, waking one of
them leaves one more of them running, or all. -/
lemma roused_wakeUpCommon (h : Inv s) (hq : ∀ w ∈ q, s.IsTask w.task) (hex : ∀ w ∈ q, w.exclusive = true)
    (hst : ∀ w ∈ q, (s.task w.task).state = .running ∨ (s.task w.task).state = .uninterruptible) :
    min (roused s q + 1) q.length ≤ roused (s.wakeUpCommon M 3 q 1) q := by
  induction q generalizing s with
  | nil => exact min_le_right _ _
  | cons w q ih =>
      have hw := Rouses.tryToWakeUp (M := M) h (hq w List.mem_cons_self)
      have hrest : ∀ v ∈ q, s.IsTask v.task := fun v hv => hq v (List.mem_cons_of_mem w hv)
      have hstrest : ∀ v ∈ q, (s.task v.task).state = .running
          ∨ (s.task v.task).state = .uninterruptible := fun v hv => hst v (List.mem_cons_of_mem w hv)
      have hexrest : ∀ v ∈ q, v.exclusive = true := fun v hv => hex v (List.mem_cons_of_mem w hv)
      have hself : ((s.tryToWakeUp M w.task).task w.task).state = .running :=
        (tryToWakeUp_self M s w.task).2.1
      rw [Sys.wakeUpCommon, List.length_cons]
      rcases hst w List.mem_cons_self with hr | hs
      · -- the first one is running already, and is passed over
        have hbit : (s.task w.task).state.bit &&& 3 = 0 := by
          rw [hr]
          decide
        have hlater := Rouses.wakeUpCommon (M := M) 3 1 h hrest
        have := ih h hrest hexrest hstrest
        rw [if_pos hbit, roused_cons, roused_cons, if_pos hr, if_pos (hlater.stays hr)]
        omega
      · have hbit : ¬ (s.task w.task).state.bit &&& 3 = 0 := by
          rw [hs]
          decide
        have hsleep : (s.task w.task).state ≠ .running := by simp [hs]
        have hmono : roused s q ≤ roused (s.tryToWakeUp M w.task) q := roused_le fun v _ => hw.stays
        rw [if_neg hbit, roused_cons s, if_neg hsleep, Nat.add_zero]
        by_cases ha : (s.task w.task).array = none
        · rw [if_pos ⟨ha, hex w List.mem_cons_self⟩, if_pos (by decide), roused_cons, if_pos hself]
          omega
        · -- it is the running task, on its way to `schedule`: the next one is woken as well
          have hrest' : ∀ v ∈ q, (s.tryToWakeUp M w.task).IsTask v.task := fun v hv =>
            hw.isTask.mpr (hrest v hv)
          have hstrest' : ∀ v ∈ q, ((s.tryToWakeUp M w.task).task v.task).state = .running
              ∨ ((s.tryToWakeUp M w.task).task v.task).state = .uninterruptible := fun v hv => by
            rcases hw.state v.task with he | he
            · rw [he]
              exact hstrest v hv
            · exact Or.inl he
          have hlater := Rouses.wakeUpCommon (M := M) 3 1 hw.inv hrest'
          have := ih hw.inv hrest' hexrest hstrest'
          rw [if_neg fun hc => ha hc.1, roused_cons, if_pos (hlater.stays hself)]
          omega

/-- Waking a queue without exclusive waiters wakes all that are in one of the states of `mode`. -/
lemma wakeUpCommon_all (h : Inv s) (hq : ∀ w ∈ q, s.IsTask w.task)
    (hex : ∀ w ∈ q, w.exclusive = false) {w : Waiter} (hw : w ∈ q)
    (hm : (s.task w.task).state.bit &&& mode ≠ 0) :
    ((s.wakeUpCommon M mode q n).task w.task).state = .running := by
  induction q generalizing s with
  | nil => exact absurd hw List.not_mem_nil
  | cons v q ih =>
      have hv := Rouses.tryToWakeUp (M := M) h (hq v List.mem_cons_self)
      have hrest : ∀ u ∈ q, s.IsTask u.task := fun u hu => hq u (List.mem_cons_of_mem v hu)
      have hexrest : ∀ u ∈ q, u.exclusive = false := fun u hu => hex u (List.mem_cons_of_mem v hu)
      have hrest' : ∀ u ∈ q, (s.tryToWakeUp M v.task).IsTask u.task := fun u hu =>
        hv.isTask.mpr (hrest u hu)
      have hlater := Rouses.wakeUpCommon (M := M) mode n hv.inv hrest'
      have hnot : ¬ ((s.task v.task).array = none ∧ v.exclusive = true) := fun hc => by
        rw [hex v List.mem_cons_self] at hc
        exact absurd hc.2 (by decide)
      rw [Sys.wakeUpCommon]
      rcases List.mem_cons.mp hw with rfl | hw
      · rw [if_neg hm, if_neg hnot]
        exact hlater.stays (tryToWakeUp_self M s w.task).2.1
      · by_cases hb : (s.task v.task).state.bit &&& mode = 0
        · rw [if_pos hb]
          exact ih h hrest hexrest hw hm
        · rw [if_neg hb, if_neg hnot]
          rcases hv.state w.task with he | he
          · exact ih hv.inv hrest' hexrest hw (by rw [he]; exact hm)
          · exact hlater.stays he

end

end Os234123.Sched
