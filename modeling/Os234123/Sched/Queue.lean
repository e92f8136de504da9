import Os234123.Lib.Buckets
import Os234123.Sched.Basic

/-!
The queue operations of `kernel/sched.c`: `dequeue_task`, `enqueue_task`, `activate_task`,
`deactivate_task`, and the open-coded insertions of `wake_up_short_forked_process` and
`sys_sched_yield`.

* `listDel`, `listPut`: `list_del` and the `list_add` family on the four arrays;
* `ArrayOk`: bitmap and counter of one array agree with its queues;
* `QueuesOk`: all four arrays are in order and hold each task where a location map says;
* `QueuesOk.dequeueTask`, `QueuesOk.enqueueAs`, `QueuesOk.reorder`: what the operations do to
  the location map.
-/

namespace Os234123.Sched

open Buckets

/-! ### The operations -/

/-- The array `activate_task` chooses for a task. -/
def homeOf (active : ArrayId) (t : Task) : ArrayId :=
  if t.policy = .short then if t.isShort = 1 then .shortActive else .overdue else active

/-- The sleep bonus `activate_task` gives a task. -/
def bonusOf (M : Arch) (jiffies : ℕ) (t : Task) : Task :=
  let sleepTime := jiffies - t.sleepTimestamp
  if ¬ t.IsRt ∧ sleepTime ≠ 0 ∧ t.policy ≠ .short then
    let t := { t with sleepAvg := min (t.sleepAvg + sleepTime) M.maxSleepAvg }
    { t with prio := t.effectivePrio M }
  else t

namespace Sys

variable (M : Arch) (s : Sys) (p : Tid)

/-- `list_del`: the task leaves the list it is linked in. -/
def listDel : Sys :=
  { s with arr := fun a => { s.arr a with queue := fun k => ((s.arr a).queue k).erase p } }

/-- An update of one array. -/
def modArr (a : ArrayId) (f : PrioArray → PrioArray) : Sys :=
  { s with arr := Function.update s.arr a (f (s.arr a)) }

/-- The queue of priority `k` in array `a` becomes `l`; `list_add`, `list_add_tail` and the
insertion behind the head are instances. -/
def listPut (a : ArrayId) (k : ℕ) (l : List Tid) : Sys :=
  s.modArr a fun A => { A with queue := Function.update A.queue k l }

/-- `__set_bit`. -/
def setBit (a : ArrayId) (k : ℕ) : Sys :=
  s.modArr a fun A => { A with bitmap := Function.update A.bitmap k true }

/-- `__clear_bit`. -/
def clearBit (a : ArrayId) (k : ℕ) : Sys :=
  s.modArr a fun A => { A with bitmap := Function.update A.bitmap k false }

/-- A change of `nr_active`. -/
def addActive (a : ArrayId) (n : ℤ) : Sys :=
  s.modArr a fun A => { A with nrActive := A.nrActive + n }

/-- `dequeue_task`. -/
def dequeueTask (a : ArrayId) : Sys :=
  let s := s.addActive a (-1)
  let s := s.listDel p
  if (s.arr a).queue (s.task p).prio = [] then s.clearBit a (s.task p).prio else s

/-- The common end of `enqueue_task` and its open-coded copy: the task is linked into the
queue of its priority, which becomes `l`. -/
def enqueueAs (a : ArrayId) (l : List Tid) : Sys :=
  let k := (s.task p).prio
  (((s.listPut a k l).setBit a k).addActive a 1).modTask p fun t => { t with array := some a }

/-- `enqueue_task`: in at the tail. -/
def enqueueTask (a : ArrayId) : Sys :=
  s.enqueueAs p a ((s.arr a).queue (s.task p).prio ++ [p])

/-- The open-coded `enqueue_task` of `wake_up_short_forked_process`: in at the head. -/
def enqueueFirst (a : ArrayId) : Sys :=
  s.enqueueAs p a (p :: (s.arr a).queue (s.task p).prio)

/-- `activate_task`. -/
def activateTask : Sys :=
  let a := homeOf s.active (s.task p)
  let s := (s.modTask p (bonusOf M s.jiffies)).enqueueTask p a
  { s with nrRunning := s.nrRunning + 1 }

/-- `deactivate_task`; a task on no array would be dequeued from a null pointer. -/
def deactivateTask : Sys :=
  let s := { s with nrRunning := s.nrRunning - 1 }
  let s := if (s.task p).state = .uninterruptible
    then { s with nrUninterruptible := s.nrUninterruptible + 1 } else s
  let s := match (s.task p).array with
    | some a => s.dequeueTask p a
    | none => s
  s.modTask p fun t => { t with array := none }

end Sys

/-! ### One array in order -/

/-- The bitmap and the counter of an array agree with its queues. -/
structure ArrayOk (A : PrioArray) : Prop where
  bit : ∀ k < maxPrio, (A.bitmap k = true ↔ A.queue k ≠ [])
  delimiter : A.bitmap maxPrio = true
  count : A.nrActive = ((∑ k ∈ Finset.range maxPrio, (A.queue k).length : ℕ) : ℤ)
  beyond : ∀ k, maxPrio ≤ k → A.queue k = []

namespace ArrayOk

variable {A : PrioArray}

lemma lt_of_mem (h : ArrayOk A) {p : Tid} {k : ℕ} (hp : p ∈ A.queue k) : k < maxPrio := by
  by_contra hk
  rw [h.beyond k (not_lt.mp hk)] at hp
  simp at hp

lemma nrActive_nonneg (h : ArrayOk A) : 0 ≤ A.nrActive := by
  rw [h.count]
  exact Int.natCast_nonneg _

/-- An array counts no task exactly when all its queues are empty. -/
lemma nrActive_eq_zero_iff (h : ArrayOk A) : A.nrActive = 0 ↔ ∀ k, A.queue k = [] := by
  rw [h.count, Int.natCast_eq_zero, Finset.sum_eq_zero_iff]
  refine ⟨fun hz k => ?_, fun hz k _ => by simp [hz k]⟩
  by_cases hk : k < maxPrio
  · exact List.length_eq_zero_iff.mp (hz k (Finset.mem_range.mpr hk))
  · exact h.beyond k (not_lt.mp hk)

/-- A task leaves the queue of priority `k`. -/
lemma remove (h : ArrayOk A) {p : Tid} {k : ℕ} (hp : p ∈ A.queue k) :
    ArrayOk { nrActive := A.nrActive - 1
              bitmap := if (A.queue k).erase p = [] then Function.update A.bitmap k false
                else A.bitmap
              queue := Function.update A.queue k ((A.queue k).erase p) } := by
  have hk := h.lt_of_mem hp
  refine ⟨fun j hj => ?_, ?_, ?_, fun j hj => ?_⟩
  · by_cases hjk : j = k
    · subst hjk
      by_cases he : (A.queue j).erase p = []
      · simp [he]
      · simp [he, (h.bit j hj).mpr (List.ne_nil_of_mem hp)]
    · by_cases he : (A.queue k).erase p = [] <;>
        simp [he, Function.update_of_ne hjk, h.bit j hj]
  · have hne : maxPrio ≠ k := (Nat.ne_of_lt hk).symm
    by_cases he : (A.queue k).erase p = [] <;> simp [he, Function.update_of_ne hne, h.delimiter]
  · have hsum := sum_length_erase (Finset.mem_range.mpr hk) hp
    have hcount := h.count
    show A.nrActive - 1 = ((∑ j ∈ Finset.range maxPrio,
      (Function.update A.queue k ((A.queue k).erase p) j).length : ℕ) : ℤ)
    omega
  · have hne : j ≠ k := by omega
    show Function.update A.queue k ((A.queue k).erase p) j = []
    rw [Function.update_of_ne hne, h.beyond j hj]

/-- A task enters the queue of priority `k`, which becomes `l`. -/
lemma put (h : ArrayOk A) {p : Tid} {k : ℕ} (hk : k < maxPrio) {l : List Tid}
    (hl : l.Perm (p :: A.queue k)) :
    ArrayOk { nrActive := A.nrActive + 1
              bitmap := Function.update A.bitmap k true
              queue := Function.update A.queue k l } := by
  have hne : l ≠ [] := fun he => by simpa [he] using hl.length_eq
  refine ⟨fun j hj => ?_, ?_, ?_, fun j hj => ?_⟩
  · by_cases hjk : j = k
    · subst hjk
      simp [hne]
    · simp [Function.update_of_ne hjk, h.bit j hj]
  · simp [Function.update_of_ne (Nat.ne_of_lt hk).symm, h.delimiter]
  · have hsum := sum_length_insert (Finset.mem_range.mpr hk) hl
    have hcount := h.count
    show A.nrActive + 1 = ((∑ j ∈ Finset.range maxPrio,
      (Function.update A.queue k l j).length : ℕ) : ℤ)
    omega
  · have hne : j ≠ k := by omega
    show Function.update A.queue k l j = []
    rw [Function.update_of_ne hne, h.beyond j hj]

/-- A queue is put in another order. -/
lemma reorder (h : ArrayOk A) {k : ℕ} {l : List Tid} (hl : l.Perm (A.queue k)) :
    ArrayOk { A with queue := Function.update A.queue k l } := by
  have hlen : ∀ j, (Function.update A.queue k l j).length = (A.queue j).length := by
    intro j
    by_cases hjk : j = k
    · rw [hjk, Function.update_self, hl.length_eq]
    · rw [Function.update_of_ne hjk]
  have hnil : ∀ j, Function.update A.queue k l j = [] ↔ A.queue j = [] := by
    intro j
    rw [← List.length_eq_zero_iff, hlen, List.length_eq_zero_iff]
  refine ⟨fun j hj => ?_, h.delimiter, ?_, fun j hj => (hnil j).mpr (h.beyond j hj)⟩
  · rw [h.bit j hj]
    exact not_congr (hnil j).symm
  · rw [h.count]
    exact congrArg _ (Finset.sum_congr rfl fun j _ => (hlen j).symm)

end ArrayOk

/-! ### The four arrays in order -/

/-- The four arrays are in order and hold each task exactly where `loc` says. -/
structure QueuesOk (s : Sys) (loc : Tid → Option (ArrayId × ℕ)) : Prop where
  located : Located s.queueAt loc
  arrayOk : ∀ a, ArrayOk (s.arr a)

namespace Sys

/-! ### What the operations leave alone -/

section

variable (s : Sys) (p : Tid) (a : ArrayId) (l : List Tid)

lemma dequeueTask_frame :
    ∃ arr, s.dequeueTask p a = { s with arr := arr } := by
  simp only [dequeueTask]
  split_ifs <;> exact ⟨_, rfl⟩

@[simp] lemma dequeueTask_task : (s.dequeueTask p a).task = s.task := by
  obtain ⟨arr, h⟩ := s.dequeueTask_frame p a
  rw [h]

@[simp] lemma dequeueTask_live : (s.dequeueTask p a).live = s.live := by
  obtain ⟨arr, h⟩ := s.dequeueTask_frame p a
  rw [h]

@[simp] lemma dequeueTask_nrRunning : (s.dequeueTask p a).nrRunning = s.nrRunning := by
  obtain ⟨arr, h⟩ := s.dequeueTask_frame p a
  rw [h]

@[simp] lemma dequeueTask_curr : (s.dequeueTask p a).curr = s.curr := by
  obtain ⟨arr, h⟩ := s.dequeueTask_frame p a
  rw [h]

@[simp] lemma dequeueTask_idle : (s.dequeueTask p a).idle = s.idle := by
  obtain ⟨arr, h⟩ := s.dequeueTask_frame p a
  rw [h]

@[simp] lemma dequeueTask_active : (s.dequeueTask p a).active = s.active := by
  obtain ⟨arr, h⟩ := s.dequeueTask_frame p a
  rw [h]

@[simp] lemma dequeueTask_expired : (s.dequeueTask p a).expired = s.expired := by
  obtain ⟨arr, h⟩ := s.dequeueTask_frame p a
  rw [h]

@[simp] lemma dequeueTask_jiffies : (s.dequeueTask p a).jiffies = s.jiffies := by
  obtain ⟨arr, h⟩ := s.dequeueTask_frame p a
  rw [h]

@[simp] lemma enqueueAs_live : (s.enqueueAs p a l).live = s.live := rfl
@[simp] lemma enqueueAs_nrRunning : (s.enqueueAs p a l).nrRunning = s.nrRunning := rfl
@[simp] lemma enqueueAs_curr : (s.enqueueAs p a l).curr = s.curr := rfl
@[simp] lemma enqueueAs_idle : (s.enqueueAs p a l).idle = s.idle := rfl
@[simp] lemma enqueueAs_active : (s.enqueueAs p a l).active = s.active := rfl
@[simp] lemma enqueueAs_expired : (s.enqueueAs p a l).expired = s.expired := rfl
@[simp] lemma enqueueAs_jiffies : (s.enqueueAs p a l).jiffies = s.jiffies := rfl

lemma enqueueAs_task : (s.enqueueAs p a l).task
    = Function.update s.task p { s.task p with array := some a } := rfl

/-- The array an insertion leaves behind. -/
lemma enqueueAs_arr : (s.enqueueAs p a l).arr = Function.update s.arr a
    { nrActive := (s.arr a).nrActive + 1
      bitmap := Function.update (s.arr a).bitmap (s.task p).prio true
      queue := Function.update (s.arr a).queue (s.task p).prio l } := by
  simp [enqueueAs, addActive, setBit, listPut, modArr, modTask, Function.update_idem]

/-- One array changes, and in it one queue. -/
lemma queueAt_of_update {s s' : Sys} {a : ArrayId} {A : PrioArray} {k : ℕ} {l : List Tid}
    (harr : s'.arr = Function.update s.arr a A)
    (hA : A.queue = Function.update (s.arr a).queue k l) :
    s'.queueAt = Function.update s.queueAt (a, k) l := by
  funext ⟨b, j⟩
  simp only [queueAt, harr]
  by_cases hb : b = a
  · subst hb
    by_cases hj : j = k
    · simp [hj, hA]
    · rw [Function.update_of_ne (a := (b, j)) (by simp [hj])]
      simp [Function.update_of_ne hj, hA, queueAt]
  · rw [Function.update_of_ne (a := (b, j)) (by simp [hb]), Function.update_of_ne hb]
    rfl

lemma queueAt_of_arr {s s' : Sys} (harr : s'.arr = s.arr) : s'.queueAt = s.queueAt := by
  funext k
  rw [queueAt, queueAt, harr]

lemma queueAt_enqueueAs :
    (s.enqueueAs p a l).queueAt = Function.update s.queueAt (a, (s.task p).prio) l :=
  queueAt_of_update (s.enqueueAs_arr p a l) rfl

lemma queueAt_listPut (k : ℕ) : (s.listPut a k l).queueAt = Function.update s.queueAt (a, k) l :=
  queueAt_of_update rfl rfl

end

end Sys

/-! ### The operations follow the location map -/

namespace QueuesOk

variable {s : Sys} {loc : Tid → Option (ArrayId × ℕ)} {p : Tid} {a : ArrayId}

/-- The queues depend on the arrays only. -/
lemma of_arr (h : QueuesOk s loc) {s' : Sys} (harr : s'.arr = s.arr) : QueuesOk s' loc := by
  refine ⟨?_, fun a => harr ▸ h.arrayOk a⟩
  exact (Sys.queueAt_of_arr harr).symm ▸ h.located

/-- The array a dequeued task leaves behind; the other arrays stay. -/
lemma dequeueTask_arr (h : QueuesOk s loc) (hp : loc p = some (a, (s.task p).prio)) :
    (s.dequeueTask p a).arr = Function.update s.arr a
      { nrActive := (s.arr a).nrActive - 1
        bitmap := if ((s.arr a).queue (s.task p).prio).erase p = []
          then Function.update (s.arr a).bitmap (s.task p).prio false else (s.arr a).bitmap
        queue := Function.update (s.arr a).queue (s.task p).prio
          (((s.arr a).queue (s.task p).prio).erase p) } := by
  have hq : ∀ b k, ((s.arr b).queue k).erase p
      = Function.update s.queueAt (a, (s.task p).prio)
          ((s.queueAt (a, (s.task p).prio)).erase p) (b, k) :=
    fun b k => congrFun (h.located.erase_eq_update hp) (b, k)
  have hother : ∀ b, b ≠ a → ∀ k, ((s.arr b).queue k).erase p = (s.arr b).queue k := by
    intro b hb k
    rw [hq, Function.update_of_ne (by simp [hb])]
    rfl
  have hself : (fun k => ((s.arr a).queue k).erase p)
      = Function.update (s.arr a).queue (s.task p).prio
          (((s.arr a).queue (s.task p).prio).erase p) := by
    funext k
    rw [hq]
    by_cases hk : k = (s.task p).prio
    · simp [hk, Sys.queueAt]
    · rw [Function.update_of_ne (by simp [hk]), Function.update_of_ne hk]
      rfl
  funext b
  by_cases hb : b = a
  · subst hb
    simp only [Sys.dequeueTask, Function.update_self]
    split_ifs with he <;>
      simp_all [Sys.addActive, Sys.modArr, Sys.listDel, Sys.clearBit, sub_eq_add_neg]
  · have := hother b hb
    simp only [Sys.dequeueTask, Function.update_of_ne hb]
    split_ifs with he <;>
      simp [Sys.addActive, Sys.modArr, Sys.listDel, Sys.clearBit, Function.update_of_ne hb, this]

/-- `dequeue_task` takes the task out of every queue. -/
lemma queueAt_dequeueTask (h : QueuesOk s loc) (hp : loc p = some (a, (s.task p).prio)) :
    (s.dequeueTask p a).queueAt = without p s.queueAt := by
  have hw : without p s.queueAt = Function.update s.queueAt (a, (s.task p).prio)
      ((s.queueAt (a, (s.task p).prio)).erase p) := h.located.erase_eq_update hp
  rw [hw]
  exact Sys.queueAt_of_update (h.dequeueTask_arr hp) rfl

/-- `dequeue_task` takes the task off the map. -/
lemma dequeueTask (h : QueuesOk s loc) (hp : loc p = some (a, (s.task p).prio)) :
    QueuesOk (s.dequeueTask p a) (Function.update loc p none) := by
  have harr := h.dequeueTask_arr hp
  have hmem : p ∈ (s.arr a).queue (s.task p).prio := (h.located.mem_iff p _).mpr hp
  refine ⟨?_, fun b => ?_⟩
  · rw [h.queueAt_dequeueTask hp]
    exact h.located.erase p
  · rw [harr]
    by_cases hb : b = a
    · subst hb
      rw [Function.update_self]
      exact (h.arrayOk b).remove hmem
    · rw [Function.update_of_ne hb]
      exact h.arrayOk b

/-- An insertion puts the task on the map, wherever in its queue it goes. -/
lemma enqueueAs (h : QueuesOk s loc) (hp : loc p = none) (hprio : (s.task p).prio < maxPrio)
    {l : List Tid} (hl : l.Perm (p :: (s.arr a).queue (s.task p).prio)) :
    QueuesOk (s.enqueueAs p a l) (Function.update loc p (some (a, (s.task p).prio))) := by
  have harr := s.enqueueAs_arr p a l
  refine ⟨?_, fun b => ?_⟩
  · rw [s.queueAt_enqueueAs p a l]
    exact h.located.insert hp hl
  · rw [harr]
    by_cases hb : b = a
    · subst hb
      rw [Function.update_self]
      exact (h.arrayOk b).put hprio hl
    · rw [Function.update_of_ne hb]
      exact h.arrayOk b

lemma enqueueTask (h : QueuesOk s loc) (hp : loc p = none) (hprio : (s.task p).prio < maxPrio) :
    QueuesOk (s.enqueueTask p a) (Function.update loc p (some (a, (s.task p).prio))) :=
  h.enqueueAs hp hprio (append_singleton_perm _ _)

/-- `list_del` only changes the queue the task stands in. -/
lemma listDel_eq (h : QueuesOk s loc) {k : ℕ} (hp : loc p = some (a, k)) :
    s.listDel p = s.listPut a k (((s.arr a).queue k).erase p) := by
  have hq : ∀ b j, ((s.arr b).queue j).erase p
      = Function.update s.queueAt (a, k) ((s.queueAt (a, k)).erase p) (b, j) :=
    fun b j => congrFun (h.located.erase_eq_update hp) (b, j)
  have harr : (s.listDel p).arr = (s.listPut a k (((s.arr a).queue k).erase p)).arr := by
    funext b
    by_cases hb : b = a
    · subst hb
      simp only [Sys.listDel, Sys.listPut, Sys.modArr, Function.update_self]
      congr 1
      funext j
      rw [hq]
      by_cases hj : j = k
      · simp [hj, Sys.queueAt]
      · rw [Function.update_of_ne (by simp [hj]), Function.update_of_ne hj]
        rfl
    · simp only [Sys.listDel, Sys.listPut, Sys.modArr, Function.update_of_ne hb]
      congr 1
      funext j
      rw [hq, Function.update_of_ne (by simp [hb])]
      rfl
  simp only [Sys.listDel, Sys.listPut, Sys.modArr] at harr ⊢
  rw [harr]

/-- Putting one queue in another order. -/
lemma reorder (h : QueuesOk s loc) {k : ℕ} {l : List Tid} (hl : l.Perm ((s.arr a).queue k)) :
    QueuesOk (s.listPut a k l) loc := by
  refine ⟨?_, fun b => ?_⟩
  · rw [s.queueAt_listPut a l k]
    exact h.located.perm hl
  · by_cases hb : b = a
    · subst hb
      simp only [Sys.listPut, Sys.modArr, Function.update_self]
      exact (h.arrayOk b).reorder hl
    · simp only [Sys.listPut, Sys.modArr, Function.update_of_ne hb]
      exact h.arrayOk b

end QueuesOk

/-! ### The counters -/

namespace Sys

variable (s : Sys) (p : Tid) (a : ArrayId) (l : List Tid)

/-- The total of the counters moves with the one counter that changes. -/
lemma totalActive_of_update {s' : Sys} {A : PrioArray} {n : ℤ}
    (harr : s'.arr = Function.update s.arr a A) (hA : A.nrActive = (s.arr a).nrActive + n) :
    s'.totalActive = s.totalActive + n := by
  cases a <;> simp [totalActive, harr, hA] <;> omega

lemma totalActive_enqueueAs : (s.enqueueAs p a l).totalActive = s.totalActive + 1 :=
  s.totalActive_of_update a (s.enqueueAs_arr p a l) rfl

lemma totalActive_dequeueTask {s : Sys} {loc : Tid → Option (ArrayId × ℕ)} {p : Tid}
    {a : ArrayId} (h : QueuesOk s loc) (hp : loc p = some (a, (s.task p).prio)) :
    (s.dequeueTask p a).totalActive = s.totalActive - 1 :=
  s.totalActive_of_update a (h.dequeueTask_arr hp) (sub_eq_add_neg _ _)

end Sys

end Os234123.Sched
