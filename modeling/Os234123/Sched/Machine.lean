import Os234123.Lib.Run
import Os234123.Sched.Fork

/-!
The scheduler as a machine: the boot state that `sched_init` and `init_idle` leave behind,
and one step for every entry into the scheduler.

* `Op`: the operations, each with what its caller chooses;
* `exec`: one operation, `none` when its caller is not there to make it or when it ends in a
  `BUG()` or in a task that is not one;
* `forkExec`: the machine in which `do_fork` takes three steps and its parent may sleep
  between the first and the second.

Waking, signalling and the clock belong to interrupts and to other parts of the kernel, so
they may come at any time; so may a change of state before `schedule`, and a change of
credentials, which stand for the blocking calls and the `setuid` family.
-/

namespace Os234123.Sched

/-! ### Booting -/

/-- `INIT_TASK`. -/
def initTask (M : Arch) : Task where
  state := .running
  sigpending := false
  needResched := false
  prio := maxPrio - 20
  staticPrio := maxPrio - 20
  array := none
  sleepAvg := 0
  sleepTimestamp := 0
  policy := .other
  timeSlice := M.HZ
  firstTimeSlice := false
  rtPriority := 0
  isShort := 0
  requestedTime := 0
  pOpptr := 0
  pPptr := 0
  uid := 0
  euid := 0
  capSysNice := true

namespace Sys

variable (M : Arch)

/-- Memory before `sched_init`: the runqueue is zeroed static data. -/
def zeroed : Sys where
  jiffies := 0
  task := fun _ => initTask M
  live := fun _ => false
  superpriv := fun _ => false
  nrRunning := 0
  nrSwitches := 0
  nrUninterruptible := 0
  expiredTimestamp := 0
  curr := 0
  idle := 0
  active := .arrays0
  expired := .arrays0
  arr := fun _ => { nrActive := 0, bitmap := fun _ => false, queue := fun _ => [] }

/-- The lists and bitmap of one array in `sched_init`. -/
def initArray (A : PrioArray) : PrioArray :=
  { A with
    queue := fun k => if k < maxPrio then [] else A.queue k
    bitmap := fun k => if k < maxPrio then false else if k = maxPrio then true else A.bitmap k }

/-- `sched_init`: the boot thread is queued like any other task. -/
def schedInit (s : Sys) : Sys :=
  let s := { s with
    active := .arrays0, expired := .arrays1, arr := fun a => initArray (s.arr a)
    curr := 0, idle := 0 }
  s.tryToWakeUp M 0

/-- `init_idle`: the boot thread becomes the idle task. -/
def initIdle (s : Sys) (idle : Tid) : Sys :=
  let s := { s with curr := idle, idle := idle }
  let s := s.deactivateTask idle
  s.modTask idle fun t =>
    { t with array := none, prio := maxPrio, state := .running, requestedTime := 0, isShort := 0,
             needResched := true }

/-- The state once `sched_init` and `init_idle` have run. -/
def booted : Sys := (schedInit M (zeroed M)).initIdle 0

end Sys

/-! ### Operations -/

/-- The entries into the scheduler. -/
inductive Op where
  | elapse
  | tick
  | wake (p : Tid)
  | signal (p : Tid) (pending : Bool)
  | setState (st : TaskState)
  | setCred (uid euid : ℕ) (capSysNice : Bool)
  | schedule
  | fork (flags : ForkFlags) (c : Tid)
  | nice (p : Tid) (nice : ℤ)
  | setscheduler (pid policy : ℤ) (param : ParamPtr)
  | yield
  | exit (reaper : Tid)
  | reap (p : Tid)

namespace Sys

variable (M : Arch) (s : Sys)

/-- The running task is a process that can make system calls. -/
def InProcess : Prop := s.curr ≠ s.idle ∧ (s.task s.curr).state ≠ .zombie

instance : Decidable s.InProcess := inferInstanceAs (Decidable (_ ∧ _))

/-- A task that others can name: not the idle task. -/
def IsTask (p : Tid) : Prop := s.live p ∧ p ≠ s.idle

instance (p : Tid) : Decidable (s.IsTask p) := inferInstanceAs (Decidable (_ ∧ _))

/-- A name for a new child. -/
def IsFresh (c : Tid) : Prop := ¬ s.live c ∧ c ≠ s.idle ∧ c ≠ s.curr

instance (c : Tid) : Decidable (s.IsFresh c) := inferInstanceAs (Decidable (_ ∧ _))

/-- A child the running task can reap. -/
def IsZombieChild (p : Tid) : Prop :=
  s.IsTask p ∧ p ≠ s.curr ∧ (s.task p).state = .zombie ∧ (s.task p).array = none
    ∧ (s.task p).pPptr = s.curr

instance (p : Tid) : Decidable (s.IsZombieChild p) := inferInstanceAs (Decidable (_ ∧ _))

/-- One operation. -/
def exec : Op → Sys → Option Sys
  | .elapse, s => some { s with jiffies := s.jiffies + 1 }
  | .tick, s => some (s.schedulerTick M)
  | .wake p, s => if s.IsTask p then some (s.tryToWakeUp M p) else none
  | .signal p b, s =>
      if s.IsTask p then some (s.modTask p fun t => { t with sigpending := b }) else none
  | .setState st, s =>
      if s.InProcess ∧ st ≠ .zombie then some (s.modTask s.curr fun t => { t with state := st })
      else none
  | .setCred u e c, s =>
      if s.InProcess
      then some (s.modTask s.curr fun t => { t with uid := u, euid := e, capSysNice := c })
      else none
  | .schedule, s => s.schedule M
  | .fork flags c, s =>
      if (s.task s.curr).state ≠ .zombie ∧ s.IsFresh c then s.doFork M flags c else none
  | .nice p n, s => if s.IsTask p then some (s.setUserNice p n) else none
  | .setscheduler pid policy param, s =>
      if s.InProcess then some (s.setscheduler M pid policy param).1 else none
  | .yield, s => if s.InProcess then s.sysSchedYield M else none
  | .exit r, s => if s.InProcess then some (s.doExit r) else none
  | .reap p, s => if s.InProcess ∧ s.IsZombieChild p then some (s.releaseTask M p) else none

end Sys

/-! ### Forks that can be suspended -/

/-- A fork under way: the parent, the child and whether the slice has been shared. -/
structure PendingFork where
  parent : Tid
  child : Tid
  shared : Bool

/-- The scheduler with the forks under way. -/
structure ForkSys where
  sys : Sys
  forks : List PendingFork

/-- The steps of the machine in which `do_fork` is not atomic. -/
inductive ForkOp where
  | op (o : Op)
  | forkCopy (c : Tid)
  | forkShare
  | forkWake (flags : ForkFlags)
  | forkFail

namespace ForkSys

/-- The fork the running task is in. -/
def current (x : ForkSys) : Option PendingFork :=
  x.forks.find? fun f => f.parent = x.sys.curr

/-- The forks of all other tasks. -/
def others (x : ForkSys) : List PendingFork :=
  x.forks.filter fun f => f.parent ≠ x.sys.curr

/-- The operations that may come while the running task is inside `do_fork`: interrupts at
any time, and sleeping as long as it is still copying. -/
def Allowed (x : ForkSys) (o : Op) : Prop :=
  match x.current, o with
  | _, .fork _ _ => False
  | none, _ => True
  | some _, .elapse => True
  | some _, .tick => True
  | some _, .wake _ => True
  | some _, .signal _ _ => True
  | some f, .setState _ => f.shared = false
  | some f, .schedule => f.shared = false
  | some _, _ => False

instance (x : ForkSys) (o : Op) : Decidable (x.Allowed o) := by
  unfold Allowed
  split <;> infer_instance

variable (M : Arch)

/-- One step of the machine in which `do_fork` is not atomic. -/
def forkExec : ForkOp → ForkSys → Option ForkSys
  | .op o, x => if x.Allowed o then (x.sys.exec M o).map fun s => { x with sys := s } else none
  | .forkCopy c, x =>
      if x.current.isNone ∧ (x.sys.task x.sys.curr).state ≠ .zombie ∧ x.sys.IsFresh c
          ∧ ∀ f ∈ x.forks, f.child ≠ c
      then some { sys := x.sys.forkCopy c, forks := ⟨x.sys.curr, c, false⟩ :: x.forks }
      else none
  | .forkShare, x =>
      match x.current with
      | some ⟨f, c, false⟩ =>
          (x.sys.forkShare M c).map fun s => { sys := s, forks := ⟨f, c, true⟩ :: x.others }
      | _ => none
  | .forkWake flags, x =>
      match x.current with
      | some ⟨_, c, true⟩ => some { sys := x.sys.forkWake M flags c, forks := x.others }
      | _ => none
  | .forkFail, x =>
      match x.current with
      | some ⟨_, _, false⟩ => some { x with forks := x.others }
      | _ => none

end ForkSys

end Os234123.Sched
