import Os234123.Lib.Run
import Os234123.Family.Wait

/-!
The process tree as a machine.

* `booted`: the state `INIT_TASK` describes, and the fork of `init`;
* `Call`, `callExec`: each system call in one step, and `do_exit` too;
* `Op`, `exec`: the machine in which `sys_wait4`, `sys_get_child_processes` and `do_exit` may sleep
  where they do, and other processes run meanwhile.

Signals, job control, credentials, process groups and the end of a time slice belong to other parts
of the kernel, so they may change at any time.
-/

namespace Os234123.Family

open Linked

/-! ### Booting -/

/-- `INIT_TASK`. -/
def idleTask : Task where
  pid := 0
  pgrp := 0
  tgid := 0
  euid := 0
  capKill := true
  state := .running
  exiting := false
  exitCode := 0
  exitSignal := 0
  ptraced := false
  selfExecId := 0
  parentExecId := 0
  firstTimeSlice := false
  sigpending := false
  waitBusy := 0

namespace Sys

/-- The state in which `INIT_TASK` is the only task. -/
def zeroed : Sys where
  task := fun _ => idleTask
  pOpptr := fun _ => initTask
  pPptr := fun _ => initTask
  pCptr := fun _ => none
  pYsptr := fun _ => none
  pOsptr := fun _ => none
  nextTask := fun _ => initTask
  prevTask := fun _ => initTask
  threadNext := fun p => p
  threadPrev := fun p => p
  pidhash := []
  place := fun _ => .user
  fresh := childReaper
  log := []

/-- `init_task` has forked `init`. -/
def booted : Sys :=
  zeroed.forkChild initTask ⟨false, false, false, false, false, false, 0⟩ 1

variable (s : Sys)

/-- Process `c` runs in user mode: it can make a system call. -/
def InUser (c : Addr) : Prop := s.Listed c ∧ s.place c = .user ∧ (s.task c).state = .running

instance (c : Addr) : Decidable (s.InUser c) := inferInstanceAs (Decidable (_ ∧ _))

/-- `get_pid` may find the number `pid`: no task has it as its pid, its process group or its thread
group. -/
def PidFree (pid : ℤ) : Prop :=
  0 < pid ∧ ∀ p ∈ s.pidhash, (s.task p).pid ≠ pid ∧ (s.task p).pgrp ≠ pid ∧ (s.task p).tgid ≠ pid

instance (pid : ℤ) : Decidable (s.PidFree pid) := inferInstanceAs (Decidable (_ ∧ _))

end Sys

/-! ### Calls in one step -/

/-- The calls; `ok` says whether the accesses of `sys_wait4` to user memory succeed. -/
inductive Call where
  | fork (c : Addr) (flags : CloneFlags) (pid : ℤ)
  | attach (c : Addr) (pid : ℤ)
  | exit (c : Addr) (code : ℤ)
  | wait4 (c : Addr) (w : WaitArgs) (ok : Bool)

namespace Sys

/-- `sys_wait4` in one step; there is none if it would wait for a child. -/
def waitAtOnce (s : Sys) (c : Addr) (w : WaitArgs) (ok : Bool) : Option Sys :=
  (s.sysWait4 c w).bind fun (s, _) =>
    match s.place c with
    | .waiting _ => none
    | .reporting _ p zombie => (s.waitReport c p zombie ok).map Prod.fst
    | _ => some s

/-- One call, in one step. -/
def callExec : Call → Sys → Option Sys
  | .fork c flags pid, s =>
      if s.InUser c ∧ s.PidFree pid then some (s.doFork c flags pid).1 else none
  | .attach c pid, s => if s.InUser c then (s.sysAttachProc c pid).map Prod.fst else none
  | .exit c code, s =>
      if s.InUser c ∧ (s.task c).pid ≠ 1 then some ((s.exitBegin c code).exitNotify c) else none
  | .wait4 c w ok, s => if s.InUser c then s.waitAtOnce c w ok else none

end Sys

/-! ### Calls that may sleep -/

/-- The steps of the machine in which calls may sleep. -/
inductive Op where
  | fork (c : Addr) (flags : CloneFlags) (pid : ℤ)
  | attach (c : Addr) (pid : ℤ)
  | exit (c : Addr) (code : ℤ)
  | exitNotify (c : Addr)
  | wait4 (c : Addr) (w : WaitArgs)
  | rescan (c : Addr)
  | report (c : Addr) (ok : Bool)
  | getChildren (c : Addr) (maxLength : ℕ)
  | walkChildren (c : Addr) (allocated : Bool)
  | setpgid (p : Addr) (pgrp : ℤ)
  | setCred (c : Addr) (euid : ℕ) (capKill : Bool)
  | signal (p : Addr) (pending : Bool)
  | expire (p : Addr)
  | stop (p : Addr) (code : ℤ)
  | cont (p : Addr)

namespace Sys

/-- One step, of the machine in which calls may sleep. -/
def exec : Op → Sys → Option Sys
  | .fork c flags pid, s =>
      if s.InUser c ∧ s.PidFree pid then some (s.doFork c flags pid).1 else none
  | .attach c pid, s => if s.InUser c then (s.sysAttachProc c pid).map Prod.fst else none
  | .exit c code, s =>
      if s.InUser c ∧ (s.task c).pid ≠ 1 then some (s.exitBegin c code) else none
  | .exitNotify c, s => if s.Listed c ∧ s.place c = .exiting then some (s.exitNotify c) else none
  | .wait4 c w, s => if s.InUser c then (s.sysWait4 c w).map Prod.fst else none
  | .rescan c, s =>
      match s.place c with
      | .waiting w => (s.waitScan c w).map Prod.fst
      | _ => none
  | .report c ok, s =>
      match s.place c with
      | .reporting _ p zombie => (s.waitReport c p zombie ok).map Prod.fst
      | _ => none
  | .getChildren c maxLength, s =>
      if s.InUser c then
        match s.getChildrenHead c true maxLength with
        | .error _ => some s
        | .ok size => some (s.goto c (.counted size))
      else none
  | .walkChildren c allocated, s =>
      match s.place c with
      | .counted size =>
          if allocated then (s.getChildrenTail c size).map fun _ => s.goto c .user
          else some (s.goto c .user)
      | _ => none
  | .setpgid p g, s =>
      if s.Listed p then some (s.modTask p fun t => { t with pgrp := g }) else none
  | .setCred c u k, s =>
      if s.InUser c then some (s.modTask c fun t => { t with euid := u, capKill := k }) else none
  | .signal p b, s =>
      if s.Listed p then some (s.modTask p fun t => { t with sigpending := b }) else none
  | .expire p, s =>
      if s.Listed p then some (s.modTask p fun t => { t with firstTimeSlice := false }) else none
  | .stop p code, s =>
      if s.InUser p then some (s.modTask p fun t => { t with state := .stopped, exitCode := code })
      else none
  | .cont p, s =>
      if s.Listed p ∧ (s.task p).state = .stopped
      then some (s.modTask p fun t => { t with state := .running }) else none

end Sys

end Os234123.Family
