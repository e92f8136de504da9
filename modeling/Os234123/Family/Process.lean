import Os234123.Family.Basic

/-!
Processes: `do_fork` of `kernel/fork.c`, the three system calls of `kernel/pattach.c`, and
`release_task`, `forget_original_parent` and `exit_notify` of `kernel/exit.c`.

A walk along the pointers of the source is bounded by `fresh`, the number of tasks there ever were:
a walk that meets no task twice is not longer.  The ancestor walk of `sys_attach_proc` has no result
if it is.  Allocations do not fail unless the caller says so, and what `get_pid` returns is chosen
by the caller.
-/

namespace Os234123.Family

open Linked

/-- The clone flags that `do_fork` reads here; `exitSignal` are the bits of `CSIGNAL`. -/
structure CloneFlags where
  cloneParent : Bool
  cloneThread : Bool
  clonePtrace : Bool
  clonePid : Bool
  cloneNewns : Bool
  cloneFs : Bool
  exitSignal : ℕ
  deriving DecidableEq, Repr

namespace CloneFlags

/-- The flags of `fork`. -/
def plain : CloneFlags := ⟨false, false, false, false, false, false, sigchld⟩

end CloneFlags

namespace Sys

variable (s : Sys)

/-! ### Forking -/

/-- The record a child of a task with record `t` starts with; it is woken at the end. -/
def childOf (t : Task) (flags : CloneFlags) (pid : ℤ) : Task :=
  let ptraced := flags.clonePtrace && t.ptraced
  { t with
    pid := pid
    tgid := if flags.cloneThread then t.tgid else pid
    state := .running
    exitSignal := flags.exitSignal
    ptraced := ptraced
    parentExecId := t.selfExecId
    firstTimeSlice := true
    sigpending := ptraced
    waitBusy := 0 }

/-- The pointers of a new child `p` of `c`, up to `SET_LINKS`. -/
def linkChild (c p : Addr) (flags : CloneFlags) : Sys :=
  let s := { s with pCptr := Function.update s.pCptr p none }
  let s := s.initThread p
  let s := { s with
    pOpptr := Function.update s.pOpptr p (if flags.cloneParent then s.pOpptr c else c)
    pPptr := Function.update s.pPptr p
      (if flags.cloneParent ∨ (s.task p).ptraced then s.pPptr c else c) }
  if flags.cloneThread then s.addThread p c else s

/-- `do_fork` once the child has its pid. -/
def forkChild (c : Addr) (flags : CloneFlags) (pid : ℤ) : Sys :=
  let p := s.fresh
  let s := { s with
    fresh := p + 1, task := Function.update s.task p (childOf (s.task c) flags pid) }
  let s := s.linkChild c p flags
  (((s.setLinks p).hashPid p).goto p .user).record (.forked c p)

/-- `do_fork` by `c`; `getPid` is what `get_pid` finds, `0` when there are no more pids. -/
def doFork (c : Addr) (flags : CloneFlags) (getPid : ℤ) : Sys × Except Errno ℤ :=
  if flags.cloneNewns ∧ flags.cloneFs then (s, .error .einval)
  else if flags.clonePid ∧ (s.task c).pid ≠ 0 then (s, .error .eperm)
  else
    let pid := if flags.clonePid then (s.task c).pid else getPid
    if pid = 0 ∧ (s.task c).pid ≠ 0 then (s, .error .eagain)
    else (s.forkChild c flags pid, .ok pid)

/-! ### Attaching -/

/-- The walk of `sys_attach_proc` up the ancestors: whether it meets `pid` before it comes to the
task with pid 1. -/
def ancestorWalk (pid : ℤ) : ℕ → Addr → Option Bool
  | 0, _ => none
  | n + 1, iter =>
      if (s.task iter).pid = 1 then some false
      else if (s.task iter).pid = pid then some true
      else ancestorWalk pid n (s.pOpptr iter)

/-- `t` becomes the youngest child of `c`. -/
def relink (c t : Addr) : Sys :=
  let s := s.removeLinks t
  let s := { s with
    pPptr := Function.update s.pPptr t c, pOpptr := Function.update s.pOpptr t c }
  s.setLinks t

/-- The father waits for `pid`, or for any child. -/
def FatherBusy (t : Addr) (pid : ℤ) : Prop :=
  (s.task (s.pOpptr t)).waitBusy = -1 ∨ (s.task (s.pOpptr t)).waitBusy = pid

instance (t : Addr) (pid : ℤ) : Decidable (s.FatherBusy t pid) := inferInstanceAs (Decidable (_ ∨ _))

/-- The checks of `sys_attach_proc`, and the task that passes them; no result when the walk does not
end. -/
def attachTarget (c : Addr) (pid : ℤ) : Option (Except Errno Addr) :=
  match s.findTaskByPid pid with
  | none => some (.error .esrch)
  | some t =>
      if pid = 1 then some (.error .einval)
      else (s.ancestorWalk pid s.fresh c).map fun met =>
        if met then .error .einval
        else if (s.task c).euid ≠ 0 ∧ (s.task c).euid ≠ (s.task t).euid then .error .eperm
        else if s.FatherBusy t pid then .error .ebusy
        else .ok t

/-- `sys_attach_proc` by `c`: the pid of the former father. -/
def sysAttachProc (c : Addr) (pid : ℤ) : Option (Sys × Except Errno ℤ) :=
  (s.attachTarget c pid).map fun
    | .error e => (s, .error e)
    | .ok t => (s.relink c t, .ok (s.task (s.pOpptr t)).pid)

/-- The task a successful `sys_attach_proc` by `c` takes. -/
def attaches (c : Addr) (pid : ℤ) : Option Addr := (s.attachTarget c pid).bind Except.toOption

/-! ### Listing the children -/

/-- The loop of `sys_get_child_process_count`, which also stops where it would come back to the
first child. -/
def countFrom (youngest : Addr) : ℕ → Addr → ℕ
  | 0, _ => 1
  | n + 1, t =>
      match s.pOsptr t with
      | none => 1
      | some older => if older = youngest then 1 else countFrom youngest n older + 1

/-- `sys_get_child_process_count` by `c`. -/
def sysGetChildProcessCount (c : Addr) : ℕ :=
  match s.pCptr c with
  | none => 0
  | some t => s.countFrom t s.fresh t

/-- The loop of `sys_get_child_processes` that copies `n` pids from the child `t` on; no result
when it would follow a null pointer. -/
def copyPids : ℕ → Option Addr → Option (List ℤ)
  | 0, _ => some []
  | _ + 1, none => none
  | n + 1, some t => (copyPids n (s.pOsptr t)).map fun pids => (s.task t).pid :: pids

/-- `sys_get_child_processes` by `c` up to its allocation: an error or an empty result, or the size
of the array it allocates. -/
def getChildrenHead (c : Addr) (result : Bool) (maxLength : ℕ) : Except (Except Errno ℤ) ℕ :=
  if ¬ result then .error (.error .efault)
  else if maxLength = 0 ∨ s.pCptr c = none then .error (.ok 0)
  else
    let count := s.sysGetChildProcessCount c
    .ok (if count < maxLength then count else maxLength)

/-- The rest of `sys_get_child_processes`, once the array is allocated. -/
def getChildrenTail (c : Addr) (size : ℕ) : Option (List ℤ) := s.copyPids size (s.pCptr c)

/-- `sys_get_child_processes` by `c` when the allocation succeeds without sleeping and so does the copy
to the user: what it returns, and the pids it writes. -/
def sysGetChildProcesses (c : Addr) (result : Bool) (maxLength : ℕ) :
    Option (Except Errno ℤ × List ℤ) :=
  match s.getChildrenHead c result maxLength with
  | .error r => some (r, [])
  | .ok size => (s.getChildrenTail c size).map fun childPids => (.ok size, childPids)

/-! ### Exiting -/

/-- `release_task` by `c`; a process that releases itself is a `BUG()`. -/
def releaseTask (c p : Addr) : Option Sys :=
  if p = c then none
  else
    let s := s.record (.released c p (s.pPptr p) (s.task p).firstTimeSlice)
    some ((s.unhashProcess p).modTask p fun t => { t with pid := 0 })

/-- The start of `do_exit`. -/
def exitBegin (c : Addr) (code : ℤ) : Sys :=
  (s.modTask c fun t => { t with exiting := true, exitCode := code }).goto c .exiting

/-- The reaper of the children of `father`: the next thread of its group that is not exiting, or
`child_reaper`. -/
def reaperOf (father : Addr) : Addr :=
  ((around s.nextThread father s.fresh father).find? fun t => ¬ (s.task t).exiting).getD childReaper

/-- The new parent of `p`: the reaper, which does not become its own parent. -/
def newParent (reaper p : Addr) : Addr := if p = reaper then childReaper else reaper

/-- An orphan. -/
def orphan (t : Task) : Task :=
  { t with exitSignal := sigchld, selfExecId := t.selfExecId + 1, firstTimeSlice := false }

/-- The task is one of those `forget_original_parent` takes from `father`. -/
def IsOrphan (father p : Addr) : Prop := p ∈ s.eachTask ∧ s.pOpptr p = father

instance (father p : Addr) : Decidable (s.IsOrphan father p) := inferInstanceAs (Decidable (_ ∧ _))

/-- `forget_original_parent`. -/
def forgetOriginalParent (father : Addr) : Sys :=
  let reaper := s.reaperOf father
  { s with
    task := fun p => if s.IsOrphan father p then orphan (s.task p) else s.task p
    pOpptr := fun p => if s.IsOrphan father p then newParent reaper p else s.pOpptr p }

/-- One round of the loop of `exit_notify`: the youngest child `p` of `c` goes to its `p_opptr`. -/
def adoptChild (c p : Addr) : Sys :=
  let s := { s with
    pCptr := Function.update s.pCptr c (s.pOsptr p), pYsptr := Function.update s.pYsptr p none }
  let s := s.modTask p fun t => { t with ptraced := false }
  let s := { s with pPptr := Function.update s.pPptr p (s.pOpptr p) }
  let s := { s with pOsptr := Function.update s.pOsptr p (s.pCptr (s.pPptr p)) }
  let s := { s with pYsptr := updateAt s.pYsptr (s.pOsptr p) (some p) }
  { s with pCptr := Function.update s.pCptr (s.pPptr p) (some p) }

/-- The loop of `exit_notify`. -/
def adoptChildren (c : Addr) : ℕ → Sys → Sys
  | 0, s => s
  | n + 1, s =>
      match s.pCptr c with
      | none => s
      | some p => adoptChildren c n (s.adoptChild c p)

/-- The exit signal of a process that has changed its domain, or whose parent has, is `SIGCHLD`. -/
def exitSignalOf (t parent : Task) : ℕ :=
  if t.exitSignal ≠ sigchld
      ∧ (t.parentExecId ≠ parent.selfExecId ∨ t.selfExecId ≠ t.parentExecId) ∧ ¬ t.capKill
  then sigchld else t.exitSignal

/-- `exit_notify`. -/
def exitNotify (c : Addr) : Sys :=
  let s := s.forgetOriginalParent c
  let parent := s.task (s.pPptr c)
  let s := s.modTask c fun t => { t with exitSignal := exitSignalOf t parent, state := .zombie }
  (adoptChildren c s.fresh s).goto c .gone

end Sys

end Os234123.Family
