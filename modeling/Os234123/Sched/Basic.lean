import Mathlib.Tactic

/-!
The data of the scheduler: `include/linux/sched.h` and the head of `kernel/sched.c`.

* `Arch`: what the scheduler takes from headers outside the repository, the tick rate of
  `asm/param.h` and the bit search `sched_find_first_bit`;
* `Task`, `PrioArray`, `Sys`: the fields of `task_struct`, `prio_array` and `runqueue` that
  the scheduler reads or writes, on one processor;
* `usub`, `uadd`: the arithmetic of `unsigned int`, in which time slices are kept.

The intrusive lists of `linux/list.h` are lists of tasks, an array is named by the field of
the runqueue it lives in, and `active` and `expired` name two of them.  Jiffies and the
sleep counters are unbounded naturals.
-/

namespace Os234123.Sched

/-! ### Constants -/

/-- `MAX_USER_RT_PRIO`. -/
def maxUserRtPrio : ℕ := 100

/-- `MAX_RT_PRIO`. -/
def maxRtPrio : ℕ := 100

/-- `MAX_PRIO`. -/
def maxPrio : ℕ := 140

/-- `MAX_USER_PRIO`, the number of nice levels. -/
def maxUserPrio : ℕ := maxPrio - maxRtPrio

def prioBonusRatio : ℕ := 25

def interactiveDelta : ℤ := 2

def childPenalty : ℕ := 95

def parentPenalty : ℕ := 100

def exitWeight : ℕ := 3

/-- `NICE_TO_PRIO`. -/
def niceToPrio (nice : ℤ) : ℕ := ((maxRtPrio : ℤ) + nice + 20).toNat

/-- `PRIO_TO_NICE`. -/
def prioToNice (prio : ℕ) : ℤ := (prio : ℤ) - maxRtPrio - 20

/-! ### Unsigned arithmetic -/

/-- The number of values of an `unsigned int`. -/
def uintSize : ℕ := 4294967296

/-- The conversion of an `int` to `unsigned int`. -/
def toUint (x : ℤ) : ℕ := (x % uintSize).toNat

/-- Unsigned subtraction. -/
def usub (x y : ℕ) : ℕ := toUint ((x : ℤ) - y)

/-- Unsigned addition. -/
def uadd (x y : ℕ) : ℕ := (x + y) % uintSize

/-- Unsigned multiplication. -/
def umul (x y : ℕ) : ℕ := (x * y) % uintSize

lemma toUint_of_lt {x : ℕ} (h : x < uintSize) : toUint x = x := by
  simp only [toUint, uintSize] at *
  omega

lemma toUint_lt (x : ℤ) : toUint x < uintSize := by
  simp only [toUint, uintSize]
  omega

/-- A subtraction that does not wrap. -/
lemma usub_of_le {x y : ℕ} (hx : x < uintSize) (h : y ≤ x) : usub x y = x - y := by
  simp only [usub, toUint, uintSize] at *
  omega

/-- A subtraction that wraps. -/
lemma usub_of_lt {x y : ℕ} (hy : y < uintSize) (h : x < y) : usub x y = x + uintSize - y := by
  simp only [usub, toUint, uintSize] at *
  omega

lemma usub_lt (x y : ℕ) : usub x y < uintSize := toUint_lt _

lemma uadd_of_lt {x y : ℕ} (h : x + y < uintSize) : uadd x y = x + y := Nat.mod_eq_of_lt h

lemma umul_of_lt {x y : ℕ} (h : x * y < uintSize) : umul x y = x * y := Nat.mod_eq_of_lt h

/-! ### What comes from outside -/

/-- The parts of the scheduler that live in headers outside the repository.  `HZ` is any tick
rate for which the `int` products of the source, the largest of them
`2 * requested_time * HZ` with a request of `3000`, are defined. -/
structure Arch where
  HZ : ℕ
  schedFindFirstBit : (ℕ → Bool) → ℕ
  HZ_pos : 0 < HZ
  HZ_int : 2 * 3000 * HZ < 2147483648
  schedFindFirstBit_isLeast : ∀ bitmap : ℕ → Bool, bitmap maxPrio = true →
    IsLeast {k | bitmap k = true} (schedFindFirstBit bitmap)

namespace Arch

/-- The least set bit, searched upwards as far as the delimiter. -/
def leastBit (bitmap : ℕ → Bool) : ℕ :=
  ((List.range maxPrio).find? fun k => bitmap k).getD maxPrio

lemma leastBit_isLeast (bitmap : ℕ → Bool) (h : bitmap maxPrio = true) :
    IsLeast {k | bitmap k = true} (leastBit bitmap) := by
  rw [leastBit]
  cases hf : (List.range maxPrio).find? fun k => bitmap k with
  | none =>
      refine ⟨h, fun k hk => ?_⟩
      by_contra hlt
      exact List.find?_eq_none.mp hf k (List.mem_range.mpr (not_le.mp hlt)) hk
  | some i =>
      refine ⟨List.find?_some hf, fun k hk => ?_⟩
      by_contra hlt
      have hki : k < i := not_le.mp hlt
      have := List.find?_range_eq_some.mp hf
      exact absurd hk (by simpa using this.2.2 k hki)

/-- An architecture with the tick rate `hz`. -/
def atRate (hz : ℕ) (hpos : 0 < hz) (hint : 2 * 3000 * hz < 2147483648) : Arch where
  HZ := hz
  schedFindFirstBit := leastBit
  HZ_pos := hpos
  HZ_int := hint
  schedFindFirstBit_isLeast := leastBit_isLeast

/-- The tick rate of most ports. -/
def hz100 : Arch := atRate 100 (by decide) (by decide)

/-- `MIN_TIMESLICE`. -/
def minTimeslice (M : Arch) : ℕ := 10 * M.HZ / 1000

/-- `MAX_TIMESLICE`. -/
def maxTimeslice (M : Arch) : ℕ := 300 * M.HZ / 1000

/-- `MAX_SLEEP_AVG`. -/
def maxSleepAvg (M : Arch) : ℕ := 2 * M.HZ

/-- `STARVATION_LIMIT`. -/
def starvationLimit (M : Arch) : ℕ := 2 * M.HZ

/-- A number of milliseconds in jiffies, rounded down. -/
def jiffiesOf (M : Arch) (ms : ℕ) : ℕ := ms * M.HZ / 1000

end Arch

/-! ### Tasks -/

/-- Tasks are named by their pid; `0` is the idle task. -/
abbrev Tid := ℕ

inductive TaskState where
  | running
  | interruptible
  | uninterruptible
  | zombie
  | stopped
  deriving DecidableEq, Repr

/-- The scheduling policies, `SCHED_SHORT` among them. -/
inductive Policy where
  | other
  | fifo
  | rr
  | short
  deriving DecidableEq, Repr

/-- The number of a policy in the system call interface. -/
def Policy.ofInt : ℤ → Option Policy
  | 0 => some .other
  | 1 => some .fifo
  | 2 => some .rr
  | 5 => some .short
  | _ => none

/-- The four priority arrays of a runqueue: the two of `arrays[2]` and the two added for the
SHORT policy. -/
inductive ArrayId where
  | arrays0
  | arrays1
  | shortActive
  | overdue
  deriving DecidableEq, Repr

/-- The fields of `task_struct` the scheduler uses. -/
structure Task where
  state : TaskState
  sigpending : Bool
  needResched : Bool
  prio : ℕ
  staticPrio : ℕ
  array : Option ArrayId
  sleepAvg : ℕ
  sleepTimestamp : ℕ
  policy : Policy
  timeSlice : ℕ
  firstTimeSlice : Bool
  rtPriority : ℕ
  isShort : ℤ
  requestedTime : ℕ
  pOpptr : Tid
  pPptr : Tid
  uid : ℕ
  euid : ℕ
  capSysNice : Bool
  deriving DecidableEq, Repr

namespace Task

/-- `TASK_NICE`. -/
def nice (t : Task) : ℤ := prioToNice t.staticPrio

/-- `rt_task`. -/
def IsRt (t : Task) : Prop := t.prio < maxRtPrio

instance (t : Task) : Decidable t.IsRt := inferInstanceAs (Decidable (t.prio < maxRtPrio))

/-- A SHORT task that has not used up its requested time. -/
def IsRegular (t : Task) : Prop := t.policy = .short ∧ t.isShort = 1

instance (t : Task) : Decidable t.IsRegular :=
  inferInstanceAs (Decidable (t.policy = .short ∧ t.isShort = 1))

/-- A SHORT task that has used up its requested time. -/
def IsOverdue (t : Task) : Prop := t.policy = .short ∧ t.isShort = -1

instance (t : Task) : Decidable t.IsOverdue :=
  inferInstanceAs (Decidable (t.policy = .short ∧ t.isShort = -1))

/-- `TASK_TIMESLICE`. -/
def timeslice (M : Arch) (t : Task) : ℕ :=
  M.minTimeslice + (M.maxTimeslice - M.minTimeslice) * (maxPrio - 1 - t.staticPrio) / 39

/-- `DELTA`. -/
def delta (t : Task) : ℤ :=
  (t.nice * ((maxUserPrio * prioBonusRatio / 100 : ℕ) : ℤ)).tdiv 40 + interactiveDelta

/-- `TASK_INTERACTIVE`. -/
def Interactive (t : Task) : Prop := (t.prio : ℤ) ≤ (t.staticPrio : ℤ) - t.delta

instance (t : Task) : Decidable t.Interactive :=
  inferInstanceAs (Decidable ((t.prio : ℤ) ≤ (t.staticPrio : ℤ) - t.delta))

/-- `effective_prio`: the static priority less the sleep bonus, kept among the priorities of
ordinary tasks. -/
def effectivePrio (M : Arch) (t : Task) : ℕ :=
  let bonus : ℤ := ((maxUserPrio * prioBonusRatio * t.sleepAvg / M.maxSleepAvg / 100 : ℕ) : ℤ)
    - ((maxUserPrio * prioBonusRatio / 100 / 2 : ℕ) : ℤ)
  let prio : ℤ := (t.staticPrio : ℤ) - bonus
  let prio : ℤ := if prio < maxRtPrio then maxRtPrio else prio
  let prio : ℤ := if prio > (maxPrio : ℤ) - 1 then (maxPrio : ℤ) - 1 else prio
  prio.toNat

lemma effectivePrio_bounds (M : Arch) (t : Task) :
    maxRtPrio ≤ t.effectivePrio M ∧ t.effectivePrio M < maxPrio := by
  simp only [effectivePrio, maxRtPrio, maxPrio]
  split_ifs <;> omega

lemma timeslice_bounds (M : Arch) (t : Task) (h : maxRtPrio ≤ t.staticPrio) :
    M.minTimeslice ≤ t.timeslice M ∧ t.timeslice M ≤ M.maxTimeslice := by
  have hle : M.minTimeslice ≤ M.maxTimeslice := by
    simp only [Arch.minTimeslice, Arch.maxTimeslice]
    omega
  refine ⟨Nat.le_add_right _ _, ?_⟩
  have h39 : (M.maxTimeslice - M.minTimeslice) * (maxPrio - 1 - t.staticPrio) / 39
      ≤ M.maxTimeslice - M.minTimeslice := by
    refine Nat.div_le_of_le_mul ?_
    rw [Nat.mul_comm]
    refine Nat.mul_le_mul_right _ ?_
    simp only [maxPrio, maxRtPrio] at *
    omega
  simp only [timeslice]
  omega

end Task

/-! ### The runqueue -/

/-- `struct prio_array`. -/
structure PrioArray where
  nrActive : ℤ
  bitmap : ℕ → Bool
  queue : ℕ → List Tid

/-- The memory of the scheduler: the clock, the tasks and the runqueue of the processor.
`live` holds of the tasks that `find_task_by_pid` finds, and `superpriv` is the flag
`PF_SUPERPRIV` that `capable` leaves behind. -/
structure Sys where
  jiffies : ℕ
  task : Tid → Task
  live : Tid → Bool
  superpriv : Tid → Bool
  nrRunning : ℤ
  nrSwitches : ℕ
  nrUninterruptible : ℤ
  expiredTimestamp : ℕ
  curr : Tid
  idle : Tid
  active : ArrayId
  expired : ArrayId
  arr : ArrayId → PrioArray

namespace Sys

/-- An update of one task. -/
def modTask (s : Sys) (p : Tid) (f : Task → Task) : Sys :=
  { s with task := Function.update s.task p (f (s.task p)) }

/-- `set_tsk_need_resched`, which is `resched_task` on one processor. -/
def reschedTask (s : Sys) (p : Tid) : Sys := s.modTask p fun t => { t with needResched := true }

/-- The queue at a place: an array and a priority. -/
def queueAt (s : Sys) (k : ArrayId × ℕ) : List Tid := (s.arr k.1).queue k.2

/-- Where a task says it is queued. -/
def locOf (s : Sys) (p : Tid) : Option (ArrayId × ℕ) :=
  (s.task p).array.map fun a => (a, (s.task p).prio)

/-- The number of queued tasks, as the four arrays count them. -/
def totalActive (s : Sys) : ℤ :=
  (s.arr .arrays0).nrActive + (s.arr .arrays1).nrActive + (s.arr .shortActive).nrActive
    + (s.arr .overdue).nrActive

section

variable (s : Sys) (p : Tid) (f : Task → Task)

@[simp] lemma modTask_arr : (s.modTask p f).arr = s.arr := rfl
@[simp] lemma modTask_jiffies : (s.modTask p f).jiffies = s.jiffies := rfl
@[simp] lemma modTask_live : (s.modTask p f).live = s.live := rfl
@[simp] lemma modTask_superpriv : (s.modTask p f).superpriv = s.superpriv := rfl
@[simp] lemma modTask_nrRunning : (s.modTask p f).nrRunning = s.nrRunning := rfl
@[simp] lemma modTask_curr : (s.modTask p f).curr = s.curr := rfl
@[simp] lemma modTask_idle : (s.modTask p f).idle = s.idle := rfl
@[simp] lemma modTask_active : (s.modTask p f).active = s.active := rfl
@[simp] lemma modTask_expired : (s.modTask p f).expired = s.expired := rfl

@[simp] lemma modTask_task_self : (s.modTask p f).task p = f (s.task p) :=
  Function.update_self ..

lemma modTask_task_of_ne {q : Tid} (h : q ≠ p) : (s.modTask p f).task q = s.task q :=
  Function.update_of_ne h ..

end

end Sys

end Os234123.Sched
