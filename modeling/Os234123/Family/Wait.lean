import Os234123.Family.Process

/-!
`sys_wait4` of `kernel/exit.c`.

* `candidates`, `readyChild`: the children the selector and the options match, in the order they are
  looked at, and the first one there is something to report about;
* `waitReport`: what happens to that child once the accesses to user memory have returned;
* `sysWait4`, `waitScan`: the call, and what is done again after every wake-up;
* `waitCall`: the call together with its accesses to user memory, and the status it writes there.

The call may sleep in `schedule`, and in the accesses to user memory if there are any.
-/

namespace Os234123.Family

open Linked

namespace WaitArgs

/-- The arguments with which `sys_waitpid` without options calls `sys_wait4`. -/
def waitpid (pid : ℤ) (statAddr : Bool) : WaitArgs :=
  ⟨pid, statAddr, ⟨false, false, false, false, false, false⟩, false⟩

/-- The selector `pid` matches the child `p` of the process `c`. -/
def Matches (w : WaitArgs) (c p : Task) : Prop :=
  if 0 < w.pid then p.pid = w.pid
  else if w.pid = 0 then p.pgrp = c.pgrp
  else if w.pid ≠ -1 then p.pgrp = -w.pid
  else True

instance (w : WaitArgs) (c p : Task) : Decidable (w.Matches c p) := by
  unfold Matches
  infer_instance

/-- The selector and the clone options match the child. -/
def Selects (w : WaitArgs) (c p : Task) : Prop :=
  w.Matches c p ∧ ¬ (xor (p.exitSignal ≠ sigchld) w.options.wclone ∧ ¬ w.options.wall)

instance (w : WaitArgs) (c p : Task) : Decidable (w.Selects c p) := inferInstanceAs (Decidable (_ ∧ _))

/-- There is something to report about the child. -/
def Reports (w : WaitArgs) (p : Task) : Prop :=
  p.state = .zombie ∨ p.state = .stopped ∧ p.exitCode ≠ 0 ∧ (w.options.wuntraced ∨ p.ptraced)

instance (w : WaitArgs) (p : Task) : Decidable (w.Reports p) := inferInstanceAs (Decidable (_ ∨ _))

end WaitArgs

namespace Sys

variable (s : Sys)

/-- The children the call of `c` looks at: its own, and unless `__WNOTHREAD` those of the other
threads of its group. -/
def waitedFor (c : Addr) (w : WaitArgs) : List Addr :=
  (if w.options.wnothread then [c] else s.threads c).flatMap s.children

/-- The children the selector and the options match. -/
def candidates (c : Addr) (w : WaitArgs) : List Addr :=
  (s.waitedFor c w).filter fun p => w.Selects (s.task c) (s.task p)

/-- The first one there is something to report about. -/
def readyChild (c : Addr) (w : WaitArgs) : Option Addr :=
  (s.candidates c w).find? fun p => w.Reports (s.task p)

/-- `end_wait4`. -/
def endWait4 (c : Addr) : Sys :=
  (s.modTask c fun t => { t with state := .running, waitBusy := 0 }).goto c .user

/-- A traced zombie goes back to its `p_opptr`. -/
def returnTraced (p : Addr) : Sys :=
  let s := s.removeLinks p
  let s := { s with pPptr := Function.update s.pPptr p (s.pOpptr p) }
  s.setLinks p

/-- What `sys_wait4` of `c` does about the child `p`, once the accesses to user memory have returned;
`ok` says whether they succeeded. -/
def waitReport (c p : Addr) (zombie ok : Bool) : Option (Sys × Except Errno ℤ) :=
  if ¬ ok then some (s.endWait4 c, .error .efault)
  else
    let pid := (s.task p).pid
    if ¬ zombie then
      some ((s.modTask p fun t => { t with exitCode := 0 }).endWait4 c, .ok pid)
    else
      let s := s.record (.returned c p)
      if s.pOpptr p ≠ s.pPptr p then some ((s.returnTraced p).endWait4 c, .ok pid)
      else (s.releaseTask c p).map fun s => (s.endWait4 c, .ok pid)

/-- `sys_wait4` from the label `repeat` on, until it returns or sleeps. -/
def waitScan (c : Addr) (w : WaitArgs) : Option (Sys × Option (Except Errno ℤ)) :=
  let s := s.modTask c fun t => { t with state := .interruptible }
  match s.readyChild c w with
  | some p =>
      let zombie := decide ((s.task p).state = .zombie)
      if w.statAddr ∨ w.ru then some (s.goto c (.reporting w p zombie), none)
      else (s.waitReport c p zombie true).map fun x => (x.1, some x.2)
  | none =>
      if s.candidates c w = [] then some (s.endWait4 c, some (.error .echild))
      else if w.options.wnohang then some (s.endWait4 c, some (.ok 0))
      else if (s.task c).sigpending then some (s.endWait4 c, some (.error .erestartsys))
      else some (s.goto c (.waiting w), none)

/-- `sys_wait4` by `c`, until it returns or sleeps. -/
def sysWait4 (c : Addr) (w : WaitArgs) : Option (Sys × Option (Except Errno ℤ)) :=
  if w.options.unknown then some (s, some (.error .einval))
  else (s.modTask c fun t => { t with waitBusy := w.pid }).waitScan c w

end Sys

/-! ### User memory -/

/-- Whether user memory can be written: for `getrusage` at `ru`, and for `put_user` at `stat_addr`. -/
structure UserMemory where
  ru : Bool
  statAddr : Bool
  deriving DecidableEq, Repr

/-- The accesses of a report succeed, the ones there are; `put_user` is the last of them. -/
def WaitArgs.AccessOk (w : WaitArgs) (m : UserMemory) : Prop :=
  (w.ru → m.ru) ∧ (w.statAddr → m.statAddr)

instance (w : WaitArgs) (m : UserMemory) : Decidable (w.AccessOk m) :=
  inferInstanceAs (Decidable (_ ∧ _))

/-- The status of the child `p`, which is a zombie or stopped. -/
def Task.status (p : Task) (zombie : Bool) : BitVec 32 :=
  if zombie then BitVec.ofInt 32 p.exitCode else BitVec.ofInt 32 p.exitCode <<< 8 ||| 0x7f

/-- What a report writes at `stat_addr`. -/
def WaitArgs.written (w : WaitArgs) (m : UserMemory) (status : BitVec 32) : Option (BitVec 32) :=
  if w.AccessOk m ∧ w.statAddr then some status else none

/-- `sys_wait4` by `c` with its accesses to user memory, while nobody else runs: what it returns, unless
it sleeps in `schedule`, and the status it writes. -/
def Sys.waitCall (s : Sys) (c : Addr) (w : WaitArgs) (m : UserMemory) :
    Option (Sys × Option (Except Errno ℤ) × Option (BitVec 32)) :=
  (s.sysWait4 c w).bind fun (s, r) =>
    match s.place c with
    | .reporting _ p zombie =>
        (s.waitReport c p zombie (decide (w.AccessOk m))).map fun x =>
          (x.1, some x.2, w.written m ((s.task p).status zombie))
    | _ => some (s, r, none)

end Os234123.Family
