import Os234123.Sched.Queue

/-!
The scheduler operations of `kernel/sched.c` that act on tasks already known to the system:
`try_to_wake_up`, `scheduler_tick`, `schedule`, `set_user_nice`, `setscheduler`,
`sys_sched_yield` and `sched_exit`, with `sys_was_short` of `kernel/hw2_syscalls.c`.
Forking and booting follow in `Fork` and `Machine`.

On one processor `current` is the running task `curr` of the runqueue.
-/

namespace Os234123.Sched

namespace Sys

variable (M : Arch) (s : Sys)

/-! ### Waking up -/

/-- `try_to_wake_up` with `sync` clear. -/
def tryToWakeUp (p : Tid) : Sys :=
  let s : Sys := match (s.task p).array with
    | some _ => s
    | none =>
        let s := if (s.task p).state = .uninterruptible
          then { s with nrUninterruptible := s.nrUninterruptible - 1 } else s
        let s := s.activateTask M p
        if (s.task p).prio < (s.task s.curr).prio then s.reschedTask s.curr else s
  s.modTask p fun t => { t with state := .running }

/-! ### The timer tick -/

/-- `EXPIRED_STARVING`. -/
def ExpiredStarving : Prop :=
  s.expiredTimestamp ≠ 0 ∧
    (M.starvationLimit : ℤ) * s.nrRunning + 1 ≤ (s.jiffies - s.expiredTimestamp : ℕ)

instance : Decidable (s.ExpiredStarving M) :=
  inferInstanceAs (Decidable (_ ∧ _))

/-- A round-robin task whose slice has ended. -/
def refillRr (t : Task) : Task :=
  { t with timeSlice := t.timeslice M, firstTimeSlice := false, needResched := true }

/-- An ordinary task whose slice has ended. -/
def refillOther (t : Task) : Task :=
  let t := { t with needResched := true }
  let t := { t with prio := t.effectivePrio M }
  { t with firstTimeSlice := false, timeSlice := t.timeslice M }

/-- A regular SHORT task whose slice has ended. -/
def turnOverdue (t : Task) : Task :=
  { t with
    needResched := true
    firstTimeSlice := false
    prio := maxPrio - 1
    timeSlice := 2 * t.requestedTime * M.HZ / 1000
    isShort := -1 }

/-- An overdue SHORT task whose slice has ended. -/
def turnOther (t : Task) : Task :=
  let t := { t with needResched := true, firstTimeSlice := false }
  let t := { t with timeSlice := t.timeslice M, policy := .other }
  { t with prio := t.effectivePrio M }

/-- The tick of a real-time task: a `SCHED_RR` task whose slice ends gets a new one and goes
to the end of its queue. -/
def tickRt (p : Tid) : Sys :=
  if (s.task p).policy = .rr then
    let s := s.modTask p fun t => { t with timeSlice := usub t.timeSlice 1 }
    if (s.task p).timeSlice = 0 then
      let s := s.modTask p (refillRr M)
      (s.dequeueTask p s.active).enqueueTask p s.active
    else s
  else s

/-- The slice of an ordinary task has ended. -/
def expireOther (p : Tid) : Sys :=
  let s := s.dequeueTask p s.active
  let s := s.modTask p (refillOther M)
  if ¬ (s.task p).Interactive ∨ s.ExpiredStarving M then
    let s := if s.expiredTimestamp = 0 then { s with expiredTimestamp := s.jiffies } else s
    s.enqueueTask p s.expired
  else s.enqueueTask p s.active

/-- The slice of a SHORT task has ended: a regular one turns overdue, an overdue one goes
back to `SCHED_OTHER`.  A SHORT task on no array would be dequeued from a null pointer. -/
def expireShort (p : Tid) : Sys :=
  let s : Sys := match (s.task p).array with
    | some a => s.dequeueTask p a
    | none => s
  if (s.task p).isShort = 1 then (s.modTask p (turnOverdue M)).enqueueTask p .overdue
  else (s.modTask p (turnOther M)).enqueueTask p s.active

/-- The tick of every other task. -/
def tickSlice (p : Tid) : Sys :=
  let s := s.modTask p fun t =>
    { t with sleepAvg := t.sleepAvg - 1, timeSlice := usub t.timeSlice 1 }
  if (s.task p).timeSlice = 0 then
    if (s.task p).policy ≠ .short then s.expireOther M p else s.expireShort M p
  else s

/-- The array the tick accepts the running task on. -/
def OnTickedArray (p : Tid) : Prop :=
  (s.task p).array = some s.active ∨ (s.task p).array = some .shortActive
    ∨ (s.task p).array = some .overdue

instance (p : Tid) : Decidable (s.OnTickedArray p) := inferInstanceAs (Decidable (_ ∨ _))

/-- `scheduler_tick`. -/
def schedulerTick : Sys :=
  let p := s.curr
  if p = s.idle then s
  else if ¬ s.OnTickedArray p then s.reschedTask p
  else if (s.task p).IsRt then s.tickRt M p
  else s.tickSlice M p

/-! ### Choosing the next task -/

/-- The first half of `schedule`: the running task is taken off its queue if it must be. -/
def schedulePrev : Sys :=
  let prev := s.curr
  let s := s.modTask prev fun t => { t with sleepTimestamp := s.jiffies }
  match (s.task prev).state with
  | .running => s
  | .interruptible =>
      if (s.task prev).sigpending then s.modTask prev fun t => { t with state := .running }
      else s.deactivateTask prev
  | _ => s.deactivateTask prev

/-- The exchange of the active and expired arrays once the active one is empty. -/
def switchArrays : Sys :=
  if (s.arr s.active).nrActive = 0 then
    { s with active := s.expired, expired := s.active, expiredTimestamp := 0 }
  else s

/-- The array `schedule` takes the next task from. -/
def pickArray : ArrayId :=
  if maxRtPrio - 1 < M.schedFindFirstBit (s.arr s.active).bitmap
      ∧ (s.arr .shortActive).nrActive ≠ 0 then .shortActive
  else if (s.arr s.active).nrActive = 0 then .overdue
  else s.active

/-- The queue `schedule` takes the next task from. -/
def pickQueue : List Tid :=
  let A := s.arr (s.pickArray M)
  A.queue (M.schedFindFirstBit A.bitmap)

/-- The choice of `schedule`, made once the running task is off its queue if it must be.
There is no task when the list chosen is empty: its head would be the sentinel of the list,
which is not a task. -/
def pickNext : Sys × Option Tid :=
  if s.nrRunning = 0 then ({ s with expiredTimestamp := 0 }, some s.idle)
  else
    let s := s.switchArrays
    (s, (s.pickQueue M).head?)

/-- The end of `schedule`: the processor goes to `next`. -/
def switchTo (next : Tid) : Sys :=
  let prev := s.curr
  let s := s.modTask prev fun t => { t with needResched := false }
  if prev = next then s else { s with nrSwitches := s.nrSwitches + 1, curr := next }

/-- One pass of `schedule`; its loop on `need_resched` is another pass. -/
def schedule : Option Sys :=
  let (s, next) := s.schedulePrev.pickNext M
  next.map fun next => s.switchTo next

/-! ### Parameters -/

/-- A task with a new nice value; an overdue task keeps its priority. -/
def renice (nice : ℤ) (t : Task) : Task :=
  let t := { t with staticPrio := niceToPrio nice }
  if ¬ t.IsOverdue then { t with prio := niceToPrio nice } else t

/-- `set_user_nice`. -/
def setUserNice (p : Tid) (nice : ℤ) : Sys :=
  if (s.task p).nice = nice ∨ nice < -20 ∨ 19 < nice then s
  else if (s.task p).IsRt then s.modTask p fun t => { t with staticPrio := niceToPrio nice }
  else
    let staticPrioOld := (s.task p).staticPrio
    match (s.task p).array with
    | some a =>
        let s := ((s.dequeueTask p a).modTask p (renice nice)).enqueueTask p a
        if niceToPrio nice < staticPrioOld ∨ p = s.curr then s.reschedTask s.curr else s
    | none => s.modTask p (renice nice)

end Sys

/-- `struct sched_param`. -/
structure SchedParam where
  schedPriority : ℤ
  requestedTime : ℤ

/-- The parameter pointer of the system call: null, unreadable, or readable. -/
inductive ParamPtr where
  | null
  | fault
  | readable (lp : SchedParam)

/-- Negative error numbers. -/
inductive Errno where
  | eperm
  | esrch
  | efault
  | einval
  deriving DecidableEq, Repr

namespace Sys

variable (M : Arch) (s : Sys)

/-- `find_process_by_pid`. -/
def findProcessByPid (pid : ℤ) : Option Tid :=
  if pid = 0 then some s.curr else if s.live pid.toNat then some pid.toNat else none

/-- `capable(CAP_SYS_NICE)`: a success leaves `PF_SUPERPRIV` behind. -/
def capable : Sys × Bool :=
  if (s.task s.curr).capSysNice
  then ({ s with superpriv := Function.update s.superpriv s.curr true }, true) else (s, false)

/-- The new slice `setscheduler` gives a SHORT task and the request it records. -/
def shortParams (t : Task) (r : ℕ) : Task :=
  let t := if t.policy ≠ .short
    then { t with isShort := 1, requestedTime := r, timeSlice := r * M.HZ / 1000 }
    else { t with
      timeSlice := usub (r * M.HZ / 1000) (usub (t.requestedTime * M.HZ / 1000) t.timeSlice)
      requestedTime := r }
  let t := if t.requestedTime = 0 then { t with requestedTime := 1 } else t
  if t.timeSlice = 0 then { t with timeSlice := 1 } else t

/-- The priority rules of `setscheduler`: `policy == SCHED_OTHER != lp.sched_priority == 0`
compares from the left. -/
def BadPriority (policy : Policy) (lp : SchedParam) : Prop :=
  policy ≠ .short ∧
    (lp.schedPriority < 0 ∨ (maxUserRtPrio : ℤ) - 1 < lp.schedPriority
      ∨ ¬ (if policy = .other then (1 : ℤ) else 0) ≠ lp.schedPriority)

instance (policy : Policy) (lp : SchedParam) : Decidable (BadPriority policy lp) :=
  inferInstanceAs (Decidable (_ ∧ _))

/-- The request guard of `setscheduler`, which recovers the time used in unsigned
arithmetic. -/
def BadRequest (t : Task) (policy : Policy) (lp : SchedParam) : Prop :=
  policy = .short ∧
    ((t.policy = .short ∧
        toUint lp.requestedTime ≤ usub t.requestedTime (umul t.timeSlice 1000 / M.HZ))
      ∨ 3000 < lp.requestedTime ∨ lp.requestedTime < 1)

instance (t : Task) (policy : Policy) (lp : SchedParam) : Decidable (BadRequest M t policy lp) :=
  inferInstanceAs (Decidable (_ ∧ _))

/-- The rules of `setscheduler` about the SHORT policy: a SHORT task stays SHORT, an overdue
one cannot be changed, only an ordinary one becomes SHORT, and only by its owner or root. -/
def BadShort (t : Task) (policy : Policy) : Prop :=
  (t.policy = .short ∧ policy ≠ .short)
    ∨ (t.policy = .short ∧ t.isShort = -1)
    ∨ (policy = .short ∧ t.policy ≠ .other ∧ t.policy ≠ .short)
    ∨ (policy = .short ∧ (s.task s.curr).euid ≠ 0 ∧ (s.task s.curr).euid ≠ t.euid)

instance (t : Task) (policy : Policy) : Decidable (s.BadShort t policy) :=
  inferInstanceAs (Decidable (_ ∨ _))

/-- The record `setscheduler` leaves the task with. -/
def newParams (t : Task) (policy : Policy) (lp : SchedParam) : Task :=
  let t := if policy = .short then shortParams M t lp.requestedTime.toNat else t
  let t := { t with policy := policy }
  let t := if policy ≠ .short then { t with rtPriority := lp.schedPriority.toNat } else t
  if policy ≠ .other ∧ policy ≠ .short then { t with prio := maxUserRtPrio - 1 - t.rtPriority }
  else { t with prio := t.staticPrio }

/-- The fields `setscheduler` sets, and the reschedule when a task becomes SHORT. -/
def changeParams (p : Tid) (policy : Policy) (lp : SchedParam) : Sys :=
  let s := if policy = .short ∧ (s.task p).policy ≠ .short then s.reschedTask s.curr else s
  s.modTask p fun t => newParams M t policy lp

/-- The change of parameters once every guard of `setscheduler` has passed: the task is off
its queue meanwhile. -/
def applyParams (p : Tid) (policy : Policy) (lp : SchedParam) : Sys :=
  match (s.task p).array with
  | some _ => ((s.deactivateTask p).changeParams M p policy lp).activateTask M p
  | none => s.changeParams M p policy lp

/-- `setscheduler` on the task found, with readable parameters. -/
def setschedulerTask (p : Tid) (policy : Policy) (lp : SchedParam) : Sys × Option Errno :=
  let t := s.task p
  if BadPriority policy lp then (s, some .einval)
  else if BadRequest M t policy lp then (s, some .einval)
  else
    let (s, rtOk) := if policy = .fifo ∨ policy = .rr then s.capable else (s, true)
    if ¬ rtOk then (s, some .eperm)
    else
      let (s, ownerOk) :=
        if (s.task s.curr).euid ≠ t.euid ∧ (s.task s.curr).euid ≠ t.uid then s.capable
        else (s, true)
      if ¬ ownerOk then (s, some .eperm)
      else if s.BadShort t policy then (s, some .eperm)
      else (s.applyParams M p policy lp, none)

/-- `setscheduler`; a negative policy means the policy the task has. -/
def setscheduler (pid policy : ℤ) (param : ParamPtr) : Sys × Option Errno :=
  match param with
  | .null => (s, some .einval)
  | .fault => if pid < 0 then (s, some .einval) else (s, some .efault)
  | .readable lp =>
      if pid < 0 then (s, some .einval)
      else match s.findProcessByPid pid with
        | none => (s, some .esrch)
        | some p =>
            if policy < 0 then s.setschedulerTask M p (s.task p).policy lp
            else match Policy.ofInt policy with
              | none => (s, some .einval)
              | some policy => s.setschedulerTask M p policy lp

/-! ### Yielding -/

/-- The priority an ordinary task yields to once it has left an empty queue behind: the next
one in use, or its own. -/
def yieldPrio (bitmap : ℕ → Bool) (prio : ℕ) : ℕ :=
  let i := M.schedFindFirstBit bitmap
  if i = maxPrio ∨ i ≤ prio then prio else i

/-- `sys_sched_yield` up to its call of `schedule`.  A task on no array would be relinked
through a null pointer. -/
def yieldQueue : Sys :=
  let p := s.curr
  if (s.task p).policy = .short then (s.deactivateTask p).activateTask M p
  else match (s.task p).array with
    | none => s
    | some a =>
        let k := (s.task p).prio
        let s := s.listDel p
        let l := (s.arr a).queue k
        if (s.task p).IsRt then s.listPut a k (l ++ [p])
        else if l ≠ [] then s.listPut a k (Buckets.insertSecond p l)
        else
          let s := s.clearBit a k
          let i := yieldPrio M (s.arr a).bitmap k
          let s := s.modTask p fun t => { t with prio := i }
          (s.listPut a i (Buckets.insertSecond p ((s.arr a).queue i))).setBit a i

/-- `sys_sched_yield`. -/
def sysSchedYield : Option Sys := (s.yieldQueue M).schedule M

/-! ### The end of a child -/

/-- `sched_exit`: the running task reaps `p`. -/
def schedExit (p : Tid) : Sys :=
  let s := if (s.task p).firstTimeSlice then
      s.modTask s.curr fun t =>
        { t with timeSlice := min (uadd t.timeSlice (s.task p).timeSlice) M.maxTimeslice }
    else s
  if (s.task p).sleepAvg < (s.task s.curr).sleepAvg then
    s.modTask s.curr fun t =>
      { t with sleepAvg := (t.sleepAvg * exitWeight + (s.task p).sleepAvg) / (exitWeight + 1) }
  else s

/-- `sys_was_short`; an error is `none`. -/
def sysWasShort (pid : ℤ) : Option ℤ :=
  if 0 < pid ∧ s.live pid.toNat then
    if (s.task pid.toNat).policy = .short then none else some (-(s.task pid.toNat).isShort)
  else none

end Sys

end Os234123.Sched
