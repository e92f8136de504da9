import Os234123.Sched.Operations

/-!
The scheduling side of `do_fork` in `kernel/fork.c`, with `wake_up_short_forked_process` and
`wake_up_forked_process` of `kernel/sched.c`.

`do_fork` is cut where it may be suspended and where interrupts are let in again:

* `forkCopy`: `*p = *current` and the fields reset before the blocking copies
  `copy_files` .. `copy_thread`;
* `forkShare`: the slice is shared with interrupts off, from the test of
  `current->time_slice` to `__restore_flags`;
* `forkWake`: the child is linked to its parent, hashed and woken.

`doFork` is the three in one step.
-/

namespace Os234123.Sched

/-- The clone flags that matter to the scheduler. -/
structure ForkFlags where
  cloneParent : Bool
  cloneVfork : Bool

namespace Sys

variable (M : Arch) (s : Sys)

/-! ### Waking a new child -/

/-- The common head of the two functions that wake a forked child: the sleep averages of
parent and child are cut, and an ordinary child gets its effective priority. -/
def cutSleepAvg (p : Tid) : Sys :=
  let s := s.modTask p fun t => { t with state := .running }
  if ¬ (s.task p).IsRt then
    let s := s.modTask s.curr fun t => { t with sleepAvg := t.sleepAvg * parentPenalty / 100 }
    let s := s.modTask p fun t => { t with sleepAvg := t.sleepAvg * childPenalty / 100 }
    if (s.task p).policy ≠ .short
    then s.modTask p fun t => { t with prio := t.effectivePrio M } else s
  else s

/-- The child `p` goes to the head of its queue and the father `f` to the tail. -/
def queueShortChild (f p : Tid) : Sys :=
  let s := s.enqueueFirst p .shortActive
  let s := { s with nrRunning := s.nrRunning + 1 }
  (s.deactivateTask f).activateTask M f

/-- `wake_up_short_forked_process`. -/
def wakeUpShortForkedProcess (f p : Tid) : Sys :=
  if (s.task p).isShort ≠ 1 then s else (s.cutSleepAvg M p).queueShortChild M f p

/-- `wake_up_forked_process`. -/
def wakeUpForkedProcess (p : Tid) : Sys := (s.cutSleepAvg M p).activateTask M p

/-! ### The three parts of a fork -/

/-- The record a child starts with: the parent's, with the fields `do_fork` resets. -/
def childOf (t : Task) : Task :=
  { t with state := .uninterruptible, requestedTime := 0, isShort := 0, sigpending := false,
           array := none }

/-- The head of `do_fork`. -/
def forkCopy (c : Tid) : Sys := s.modTask c fun _ => childOf (s.task s.curr)

/-- What the child takes from its parent `t` when the slice is shared. -/
def inherit (t child : Task) (jiffies : ℕ) : Task :=
  let child := if t.policy = .short then { child with prio := t.prio } else child
  { child with
    requestedTime := t.requestedTime
    isShort := if t.policy ≠ .short ∧ t.isShort = -1 then 0 else t.isShort
    timeSlice := if t.IsOverdue then t.timeSlice else uadd t.timeSlice 1 / 2
    firstTimeSlice := true
    sleepTimestamp := jiffies }

/-- What sharing leaves the parent. -/
def halve (t : Task) : Task :=
  if t.IsOverdue then t else { t with timeSlice := t.timeSlice / 2 }

/-- The slice is shared; a parent with nothing left is charged a tick at once.  A parent
without a slice is a `BUG()`. -/
def forkShare (c : Tid) : Option Sys :=
  let f := s.curr
  if (s.task f).timeSlice = 0 then none
  else
    let s := s.modTask c fun t => inherit (s.task f) t s.jiffies
    let s := s.modTask f halve
    if (s.task f).timeSlice = 0
    then some ((s.modTask f fun t => { t with timeSlice := 1 }).schedulerTick M)
    else some s

/-- The child is linked to its parent and hashed. -/
def linkChild (flags : ForkFlags) (c : Tid) : Sys :=
  let f := s.curr
  let s := s.modTask c fun t =>
    { t with pOpptr := if flags.cloneParent then (s.task f).pOpptr else f
             pPptr := if flags.cloneParent then (s.task f).pPptr else f }
  { s with live := Function.update s.live c true }

/-- The tail of `do_fork`. -/
def forkWake (flags : ForkFlags) (c : Tid) : Sys :=
  let f := s.curr
  let s := s.linkChild flags c
  let s := if (s.task f).isShort = 1 then s.wakeUpShortForkedProcess M f c
    else s.wakeUpForkedProcess M c
  if flags.cloneVfork then s else s.reschedTask f

/-- `do_fork` as one step. -/
def doFork (flags : ForkFlags) (c : Tid) : Option Sys :=
  ((s.forkCopy c).forkShare M c).map fun s => s.forkWake M flags c

/-! ### Exit and reaping -/

/-- `forget_original_parent`: the children of the running task go to `reaper` and lose their
claim to be credited back. -/
def forgetOriginalParent (reaper : Tid) : Sys :=
  { s with
    task := fun q =>
      if s.live q ∧ (s.task q).pOpptr = s.curr
      then { s.task q with pOpptr := reaper, pPptr := reaper, firstTimeSlice := false }
      else s.task q }

/-- The part of `do_exit` that the scheduler sees: the children get a new parent and the task
turns into a zombie. -/
def doExit (reaper : Tid) : Sys :=
  (s.forgetOriginalParent reaper).modTask s.curr fun t => { t with state := .zombie }

/-- `release_task`: the running task reaps `p`. -/
def releaseTask (p : Tid) : Sys :=
  let s := s.schedExit M p
  { s with live := Function.update s.live p false }

end Sys

end Os234123.Sched
