import Os234123.Lib.Linked

/-!
The process tree: the family links of `include/linux/sched.h` in the version of the first
assignment.

* `Task`: the fields of `task_struct` that `kernel/fork.c`, `kernel/exit.c` and
  `kernel/pattach.c` read or write, but for the pointers;
* `Sys`: the tasks and the pointers, one function for each pointer of `task_struct`;
* `Place`: where a process is while another one runs, that is, in which system call it sleeps;
* `removeLinks`, `setLinks`, `hashPid`, `unhashProcess`, `findTaskByPid`: the macros and inline
  functions of the header.

Tasks are named by the address of their `task_struct`.  The memory of a released task is not
used again, and signals are sent by the environment.
-/

namespace Os234123.Family

open Linked

/-! ### Constants -/

/-- The address of a `task_struct`. -/
abbrev Addr := ℕ

/-- `init_task`, the idle task, with pid 0. -/
def initTask : Addr := 0

/-- `child_reaper`, the process `init`, with pid 1. -/
def childReaper : Addr := 1

/-- `SIGCHLD`. -/
def sigchld : ℕ := 17

/-- Negative error numbers. -/
inductive Errno where
  | eperm
  | esrch
  | ebusy
  | einval
  | efault
  | eagain
  | enomem
  | echild
  | erestartsys
  deriving DecidableEq, Repr

/-! ### Tasks -/

inductive TaskState where
  | running
  | interruptible
  | uninterruptible
  | zombie
  | stopped
  deriving DecidableEq, Repr

/-- The fields of `task_struct`; `exiting` is the flag `PF_EXITING` and `ptraced` the flag
`PT_PTRACED`. -/
structure Task where
  pid : ℤ
  pgrp : ℤ
  tgid : ℤ
  euid : ℕ
  capKill : Bool
  state : TaskState
  exiting : Bool
  exitCode : ℤ
  exitSignal : ℕ
  ptraced : Bool
  selfExecId : ℕ
  parentExecId : ℕ
  firstTimeSlice : Bool
  sigpending : Bool
  waitBusy : ℤ
  deriving DecidableEq, Repr

/-- The option bits of `sys_wait4`; `unknown` stands for any other bit. -/
structure WaitOptions where
  wnohang : Bool
  wuntraced : Bool
  wnothread : Bool
  wclone : Bool
  wall : Bool
  unknown : Bool
  deriving DecidableEq, Repr

/-- The arguments of `sys_wait4`; of the two user pointers only whether they are set. -/
structure WaitArgs where
  pid : ℤ
  statAddr : Bool
  options : WaitOptions
  ru : Bool
  deriving DecidableEq, Repr

/-- Where a process is while others run: in user mode, asleep in `sys_wait4`, asleep there in an
access to user memory for the child `p` it has selected, asleep in the allocation of
`sys_get_child_processes`, or on its way through `do_exit`. -/
inductive Place where
  | user
  | waiting (w : WaitArgs)
  | reporting (w : WaitArgs) (p : Addr) (zombie : Bool)
  | counted (size : ℕ)
  | exiting
  | gone
  deriving DecidableEq, Repr

/-- What happened: `c` forked `p`; `c` passed `p` to `release_task` while `parent` was its `p_pptr`,
and its `first_time_slice` was `first`; a call of `sys_wait4` by `c` went through its branch for the
zombie `p` to the end, where it returns the pid field of `p`, which `release_task` sets to 0. -/
inductive Event where
  | forked (c p : Addr)
  | released (c p parent : Addr) (first : Bool)
  | returned (c p : Addr)
  deriving DecidableEq, Repr

/-- The memory: the tasks, their pointers, the hash table of pids as one list, and the address
`alloc_task_struct` returns next.  Nothing reads `log`, the history of forks and releases. -/
structure Sys where
  task : Addr → Task
  pOpptr : Addr → Addr
  pPptr : Addr → Addr
  pCptr : Addr → Option Addr
  pYsptr : Addr → Option Addr
  pOsptr : Addr → Option Addr
  nextTask : Addr → Addr
  prevTask : Addr → Addr
  threadNext : Addr → Addr
  threadPrev : Addr → Addr
  pidhash : List Addr
  place : Addr → Place
  fresh : Addr
  log : List Event

namespace Sys

variable (s : Sys) (p : Addr)

/-- An update of one task. -/
def modTask (f : Task → Task) : Sys :=
  { s with task := Function.update s.task p (f (s.task p)) }

/-- The event happens. -/
def record (e : Event) : Sys := { s with log := e :: s.log }

/-- The process is at another place from now on. -/
def goto (x : Place) : Sys := { s with place := Function.update s.place p x }

/-- `p` is a task that `find_task_by_pid` finds: it is not released. -/
def Listed : Prop := p ∈ s.pidhash

instance : Decidable (s.Listed p) := inferInstanceAs (Decidable (_ ∈ _))

section

variable (f : Task → Task) (x : Place)

@[simp] lemma modTask_task_self : (s.modTask p f).task p = f (s.task p) :=
  Function.update_self ..

lemma modTask_task_of_ne {q : Addr} (h : q ≠ p) : (s.modTask p f).task q = s.task q :=
  Function.update_of_ne h ..

@[simp] lemma goto_place_self : (s.goto p x).place p = x := Function.update_self ..

lemma goto_place_of_ne {q : Addr} (h : q ≠ p) : (s.goto p x).place q = s.place q :=
  Function.update_of_ne h ..

end

/-! ### The list of all tasks and the lists of children -/

/-- `REMOVE_LINKS`. -/
def removeLinks : Sys :=
  let s := { s with prevTask := Function.update s.prevTask (s.nextTask p) (s.prevTask p) }
  let s := { s with nextTask := Function.update s.nextTask (s.prevTask p) (s.nextTask p) }
  let s := { s with pYsptr := updateAt s.pYsptr (s.pOsptr p) (s.pYsptr p) }
  match s.pYsptr p with
  | some y => { s with pOsptr := Function.update s.pOsptr y (s.pOsptr p) }
  | none => { s with pCptr := Function.update s.pCptr (s.pPptr p) (s.pOsptr p) }

/-- `SET_LINKS`. -/
def setLinks : Sys :=
  let s := { s with nextTask := Function.update s.nextTask p initTask }
  let s := { s with prevTask := Function.update s.prevTask p (s.prevTask initTask) }
  let s := { s with nextTask := Function.update s.nextTask (s.prevTask initTask) p }
  let s := { s with prevTask := Function.update s.prevTask initTask p }
  let s := { s with pYsptr := Function.update s.pYsptr p none }
  let s := { s with pOsptr := Function.update s.pOsptr p (s.pCptr (s.pPptr p)) }
  let s := { s with pYsptr := updateAt s.pYsptr (s.pOsptr p) (some p) }
  { s with pCptr := Function.update s.pCptr (s.pPptr p) (some p) }

/-- The tasks `for_each_task` visits. -/
def eachTask : List Addr := around s.nextTask initTask s.fresh initTask

/-- The children a loop along `p_cptr` and `p_osptr` visits. -/
def children : List Addr := follow s.pOsptr s.fresh (s.pCptr p)

/-! ### The thread groups -/

/-- `next_thread`. -/
def nextThread : Addr := s.threadNext p

/-- `INIT_LIST_HEAD` on the thread group of a task. -/
def initThread : Sys :=
  { s with threadNext := Function.update s.threadNext p p
           threadPrev := Function.update s.threadPrev p p }

/-- `list_add` on thread groups: `p` enters right after `h`. -/
def addThread (h : Addr) : Sys :=
  let next := s.threadNext h
  { s with threadPrev := Function.update (Function.update s.threadPrev next p) p h
           threadNext := Function.update (Function.update s.threadNext p next) h p }

/-- `list_del` on thread groups. -/
def delThread : Sys :=
  let next := s.threadNext p
  let prev := s.threadPrev p
  { s with threadPrev := Function.update s.threadPrev next prev
           threadNext := Function.update s.threadNext prev next }

/-- The threads a loop along `next_thread` visits, the first one included. -/
def threads : List Addr := p :: around s.nextThread p s.fresh p

/-! ### The hash table of pids -/

/-- `hash_pid`. -/
def hashPid : Sys := { s with pidhash := p :: s.pidhash }

/-- `unhash_pid`. -/
def unhashPid : Sys := { s with pidhash := s.pidhash.erase p }

/-- `find_task_by_pid`. -/
def findTaskByPid (pid : ℤ) : Option Addr := s.pidhash.find? fun p => (s.task p).pid = pid

/-- `unhash_process`. -/
def unhashProcess : Sys := ((s.unhashPid p).removeLinks p).delThread p

end Sys

end Os234123.Family
