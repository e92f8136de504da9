import Os234123.Sched.Preserve

/-!
`schedule` and `sys_sched_yield`.

* `Inv.yieldQueue`: yielding keeps the runqueue in order, wherever the task is put back;
* `schedulePrev_settled`: once the running task is off its queue if it must be, the runnable
  tasks are exactly the queued ones;
* `Rank`: the classes in the order `schedule` prefers them;
* `pickQueue_spec`: what `schedule` chooses;
* `Inv.schedule`: a pass of `schedule` always finds a task and keeps the invariant.
-/

namespace Os234123.Sched

open Buckets

/-! ### The running task leaves its queue -/

section

variable {s : Sys}

/-- The running task, with its new time stamp, before `schedule` looks at its state. -/
lemma Inv.stamp (h : Inv s) : Inv (s.modTask s.curr fun t => { t with sleepTimestamp := s.jiffies }) :=
  h.of_quiet (Quiet.modTask_kept h.known_curr ⟨⟨rfl, rfl, rfl, rfl⟩, rfl, Iff.rfl⟩)
    (h.modKey ⟨rfl, rfl, rfl, rfl, rfl⟩ fun hi => hi ▸ h.idle.state)

/-- What `schedulePrev` can do: leave the task, forgive it a sleep, or dequeue it. -/
lemma schedulePrev_cases (s : Sys) :
    let s₁ := s.modTask s.curr fun t => { t with sleepTimestamp := s.jiffies }
    (s.schedulePrev = s₁ ∧ (s.task s.curr).state = .running)
      ∨ (s.schedulePrev = s₁.modTask s.curr fun t => { t with state := .running })
      ∨ (s.schedulePrev = s₁.deactivateTask s.curr ∧ (s.task s.curr).state ≠ .running) := by
  simp only [Sys.schedulePrev, Sys.modTask_task_self]
  cases hst : (s.task s.curr).state with
  | running => exact Or.inl ⟨rfl, rfl⟩
  | interruptible =>
      dsimp only
      split_ifs
      · exact Or.inr (Or.inl rfl)
      · exact Or.inr (Or.inr ⟨rfl, by simp⟩)
  | _ => exact Or.inr (Or.inr ⟨rfl, by simp⟩)

lemma Inv.schedulePrev (h : Inv s) : RqInv s.schedulePrev := by
  have h₁ := h.stamp
  rcases schedulePrev_cases s with ⟨heq, -⟩ | heq | ⟨heq, hst⟩ <;> rw [heq]
  · exact h₁.toRqInv
  · exact h₁.toRqInv.modKey ⟨rfl, rfl, rfl, rfl, rfl⟩ fun _ => rfl
  · have hne : s.curr ≠ s.idle := fun hi => hst (hi ▸ h.idle.state)
    obtain ⟨a, ha⟩ := Option.ne_none_iff_exists'.mp (h₁.curr hne)
    exact h₁.toRqInv.deactivate ha

lemma Inv.schedulePrev_quiet (h : Inv s) : Quiet (some s.curr) s s.schedulePrev := by
  have hc := h.known_curr
  have h₁ : Quiet (some s.curr) s
      (s.modTask s.curr fun t => { t with sleepTimestamp := s.jiffies }) := Quiet.modTask hc
  rcases schedulePrev_cases s with ⟨heq, -⟩ | heq | ⟨heq, -⟩ <;> rw [heq]
  · exact h₁
  · exact h₁.andModTask hc
  · exact h₁.trans (Quiet.deactivate ((h₁.known _).mpr hc))

lemma schedulePrev_self (s : Sys) :
    SameCore (s.task s.curr) (s.schedulePrev.task s.curr) := by
  rcases schedulePrev_cases s with ⟨heq, -⟩ | heq | ⟨heq, -⟩ <;> rw [heq]
  · rw [Sys.modTask_task_self]
    exact ⟨rfl, rfl, rfl, rfl⟩
  · rw [Sys.modTask_task_self, Sys.modTask_task_self]
    exact ⟨rfl, rfl, rfl, rfl⟩
  · rw [deactivateTask_self, Sys.modTask_task_self]
    exact ⟨rfl, rfl, rfl, rfl⟩

/-- Once the running task is off its queue if it must be, a task is runnable exactly when it is
queued. -/
theorem Inv.schedulePrev_settled (h : Inv s) {p : Tid} (hp : s.schedulePrev.IsTask p) :
    Awake (s.schedulePrev.task p) := by
  have hq := h.schedulePrev_quiet
  have hp' : s.IsTask p := by
    rw [Sys.IsTask, hq.live, hq.idle] at hp
    exact hp
  by_cases hpc : p = s.curr
  · subst hpc
    have hcurr := h.curr hp'.2
    rcases schedulePrev_cases s with ⟨heq, hst⟩ | heq | ⟨heq, hst⟩ <;> rw [heq]
    · rw [Sys.modTask_task_self]
      exact iff_of_true hst hcurr
    · rw [Sys.modTask_task_self, Sys.modTask_task_self]
      exact iff_of_true rfl hcurr
    · rw [deactivateTask_self, Sys.modTask_task_self]
      exact iff_of_false hst (by simp)
  · exact (hq.kept p fun he => hpc (Option.some.inj he).symm).awake.mpr (h.awake p hp' hpc)

end

/-! ### The order of the classes -/

/-- The classes of runnable tasks, in the order `schedule` prefers them. -/
inductive Rank where
  | realTime
  | regular
  | otherActive
  | otherExpired
  | overdue
  deriving DecidableEq, Repr

namespace Rank

/-- The place of a class, the smaller the sooner. -/
def place : Rank → ℕ
  | realTime => 0
  | regular => 1
  | otherActive => 2
  | otherExpired => 3
  | overdue => 4

end Rank

namespace Sys

variable (s : Sys)

/-- The class of a task. -/
def rankOf (p : Tid) : Rank :=
  match (s.task p).policy with
  | .fifo => .realTime
  | .rr => .realTime
  | .short => if (s.task p).isShort = 1 then .regular else .overdue
  | .other => if (s.task p).array = some s.active then .otherActive else .otherExpired

/-- A task that could run. -/
def Runnable (p : Tid) : Prop := s.IsTask p ∧ (s.task p).state = .running

end Sys

/-- Where a queued task of a class stands. -/
def StandsIn (s : Sys) (p : Tid) : Rank → ArrayId → Prop
  | .realTime, a => a = s.active ∧ (s.task p).prio < maxRtPrio
  | .regular, a => a = .shortActive
  | .otherActive, a => a = s.active ∧ maxRtPrio ≤ (s.task p).prio
  | .otherExpired, a => a = s.expired ∧ maxRtPrio ≤ (s.task p).prio
  | .overdue, a => a = .overdue

namespace RqInv

variable {s : Sys} {p : Tid} {a : ArrayId}

lemma mem_queue_iff (h : RqInv s) {k : ℕ} : p ∈ (s.arr a).queue k
    ↔ (s.task p).array = some a ∧ (s.task p).prio = k := by
  refine (h.queues.located.mem_iff p (a, k)).trans ?_
  rw [Sys.locOf]
  cases (s.task p).array <;> simp

/-- A queued task stands in the array of its class, at a priority of its class. -/
lemma standsIn (h : RqInv s) (ha : (s.task p).array = some a) : StandsIn s p (s.rankOf p) a := by
  have ht := h.tasks p (h.isTask_of_array ha)
  have hne := h.ends_ne
  simp only [Sys.rankOf]
  cases hp : (s.task p).policy with
  | short =>
      by_cases h1 : (s.task p).isShort = 1
      · rcases ht.markers with ⟨_, _, h2⟩ | ⟨_, h2, _⟩ | ⟨h2, _⟩
        · simp only [ha, reduceCtorEq, Option.some.injEq, false_or] at h2
          simp [h1, h2, StandsIn]
        · simp [h1] at h2
        · exact absurd hp h2
      · rcases ht.markers with ⟨_, h2, _⟩ | ⟨_, _, h2⟩ | ⟨h2, _⟩
        · exact absurd h2 h1
        · simp only [ha, reduceCtorEq, Option.some.injEq, false_or] at h2
          simp [h1, h2, StandsIn]
        · exact absurd hp h2
  | other =>
      have hpr := (ht.usual (Or.inl hp)).1
      rcases ht.markers with ⟨h2, _⟩ | ⟨h2, _⟩ | ⟨_, _, h2⟩
      · simp [hp] at h2
      · simp [hp] at h2
      · simp only [ha, reduceCtorEq, Option.some.injEq, false_or] at h2
        rcases h2 with rfl | rfl
        · simp [ha, hpr, StandsIn]
        · simp [ha, Ne.symm hne, hpr, StandsIn]
  | _ =>
      have hrt := ht.rt (by simp [hp])
      rcases ht.markers with ⟨h2, _⟩ | ⟨h2, _⟩ | ⟨_, _, h2⟩
      · simp [hp] at h2
      · simp [hp] at h2
      · simp only [ha, reduceCtorEq, Option.some.injEq, false_or] at h2
        rcases h2 with rfl | rfl
        · exact ⟨rfl, hrt.1⟩
        · exact absurd ha hrt.2

/-- An array that holds a task counts it. -/
lemma nrActive_ne_zero (h : RqInv s) (ha : (s.task p).array = some a) :
    (s.arr a).nrActive ≠ 0 := fun hz => by
  have hmem := h.mem_queue_iff.mpr ⟨ha, rfl⟩
  rw [(h.queues.arrayOk a).nrActive_eq_zero_iff.mp hz] at hmem
  simp at hmem

/-- Nothing runs exactly when nothing is queued. -/
lemma nrRunning_eq_zero_iff (h : RqInv s) : s.nrRunning = 0 ↔ ∀ p, (s.task p).array = none := by
  have hn := fun a => (h.queues.arrayOk a).nrActive_nonneg
  rw [h.nrRunning, Sys.totalActive]
  constructor
  · intro hz p
    have h0 := hn .arrays0
    have h1 := hn .arrays1
    have h2 := hn .shortActive
    have h3 := hn .overdue
    by_contra hne
    obtain ⟨a, ha⟩ := Option.ne_none_iff_exists'.mp hne
    have := h.nrActive_ne_zero ha
    cases a <;> omega
  · intro hz
    have hall : ∀ a, (s.arr a).nrActive = 0 := fun a =>
      (h.queues.arrayOk a).nrActive_eq_zero_iff.mpr fun k =>
        List.eq_nil_iff_forall_not_mem.mpr fun p hp => by
          have := (h.mem_queue_iff.mp hp).1
          simp [hz p] at this
    simp [hall]

/-- The exchange of an empty active array with the expired one. -/
lemma switchArrays (h : RqInv s) : RqInv s.switchArrays := by
  simp only [Sys.switchArrays]
  split_ifs with hz
  · have hempty : ∀ p, (s.task p).array ≠ some s.active := fun p ha => h.nrActive_ne_zero ha hz
    refine ⟨h.queues.of_arr rfl, h.nrRunning, ?_, fun p hp => ?_, h.queued, h.idle, h.unlisted⟩
    · rcases h.ends with ⟨ha, he⟩ | ⟨ha, he⟩
      · exact Or.inr ⟨he, ha⟩
      · exact Or.inl ⟨he, ha⟩
    · have ht := h.tasks p hp
      refine ⟨?_, fun hrt => ⟨(ht.rt hrt).1, hempty p⟩, ht.usual, ht.overdue, ht.static⟩
      rcases ht.markers with hm | hm | ⟨h1, h2, h3⟩
      · exact Or.inl hm
      · exact Or.inr (Or.inl hm)
      · exact Or.inr (Or.inr ⟨h1, h2, h3.imp_right Or.symm⟩)
  · exact h

end RqInv

/-- The first bit of an array in order finds its lowest non-empty queue, or the delimiter. -/
lemma ArrayOk.firstBit (M : Arch) {A : PrioArray} (h : ArrayOk A) :
    (∀ k < M.schedFindFirstBit A.bitmap, A.queue k = [])
      ∧ (A.nrActive ≠ 0 → A.queue (M.schedFindFirstBit A.bitmap) ≠ [])
      ∧ (A.nrActive = 0 → M.schedFindFirstBit A.bitmap = maxPrio) := by
  have hleast := M.schedFindFirstBit_isLeast A.bitmap h.delimiter
  set i := M.schedFindFirstBit A.bitmap with hi
  have hle : i ≤ maxPrio := hleast.2 h.delimiter
  have hlow : ∀ k < i, A.queue k = [] := fun k hk => by
    by_contra hne
    exact absurd (hleast.2 ((h.bit k (lt_of_lt_of_le hk hle)).mpr hne)) (not_le.mpr hk)
  refine ⟨hlow, fun hn => ?_, fun hz => ?_⟩
  · have hlt : i < maxPrio := by
      by_contra hge
      refine hn (h.nrActive_eq_zero_iff.mpr fun k => ?_)
      by_cases hk : k < maxPrio
      · exact hlow k (by omega)
      · exact h.beyond k (not_lt.mp hk)
    exact (h.bit i hlt).mp hleast.1
  · by_contra hne
    exact (h.bit i (lt_of_le_of_ne hle hne)).mp hleast.1 (h.nrActive_eq_zero_iff.mp hz i)

/-! ### The choice -/

/-- `next` is the head of the lowest queue of its class, in the array `a`, and no queued task
is of a better class. -/
structure Chosen (s : Sys) (next : Tid) (a : ArrayId) : Prop where
  array : (s.task next).array = some a
  head : ((s.arr a).queue (s.task next).prio).head? = some next
  best : ∀ q, (s.task q).array ≠ none → (s.rankOf next).place < (s.rankOf q).place
    ∨ s.rankOf q = s.rankOf next ∧ (s.task next).prio ≤ (s.task q).prio

namespace RqInv

variable {M : Arch} {s : Sys}

/-- The head of the first non-empty queue of an array. -/
lemma first (h : RqInv s) (M : Arch) {a : ArrayId} (hn : (s.arr a).nrActive ≠ 0) : ∃ next,
    ((s.arr a).queue (M.schedFindFirstBit (s.arr a).bitmap)).head? = some next
      ∧ (s.task next).array = some a
      ∧ (s.task next).prio = M.schedFindFirstBit (s.arr a).bitmap
      ∧ ∀ q, (s.task q).array = some a → (s.task next).prio ≤ (s.task q).prio := by
  obtain ⟨hlow, hne, -⟩ := (h.queues.arrayOk a).firstBit M
  obtain ⟨next, hhead⟩ := Option.ne_none_iff_exists'.mp
    (mt List.head?_eq_none_iff.mp (hne hn))
  obtain ⟨ha, hp⟩ := h.mem_queue_iff.mp (List.mem_of_head? hhead)
  refine ⟨next, hhead, ha, hp, fun q hq => ?_⟩
  by_contra hlt
  have hmem := h.mem_queue_iff.mpr ⟨hq, rfl⟩
  rw [hlow _ (hp ▸ not_le.mp hlt)] at hmem
  simp at hmem

/-- The active array after the exchange is the old one, or the old one was empty. -/
lemma switchArrays_cases (s : Sys) :
    ((s.arr s.active).nrActive ≠ 0 ∧ s.switchArrays.active = s.active)
      ∨ ((s.arr s.active).nrActive = 0 ∧ s.switchArrays.active = s.expired) := by
  simp only [Sys.switchArrays]
  split_ifs with hz
  · exact Or.inr ⟨hz, rfl⟩
  · exact Or.inl ⟨hz, rfl⟩

@[simp] lemma switchArrays_task (s : Sys) : s.switchArrays.task = s.task := by
  simp only [Sys.switchArrays]
  split_ifs <;> rfl

lemma switchArrays_quiet (s : Sys) : Quiet none s s.switchArrays := by
  simp only [Sys.switchArrays]
  split_ifs
  · exact Quiet.of_task rfl rfl rfl rfl
  · exact Quiet.refl s

@[simp] lemma switchArrays_arr (s : Sys) : s.switchArrays.arr = s.arr := by
  simp only [Sys.switchArrays]
  split_ifs <;> rfl

/-- The two ordinary arrays are not those of SHORT tasks. -/
lemma ordinary (h : RqInv s) : s.active ≠ .shortActive ∧ s.active ≠ .overdue
    ∧ s.expired ≠ .shortActive ∧ s.expired ≠ .overdue := by
  rcases h.ends with ⟨ha, he⟩ | ⟨ha, he⟩ <;> simp [ha, he]

/-- The first priority of the active array lies below every real-time task. -/
lemma firstBit_le_realTime (h : RqInv s) {q : Tid} {b : ArrayId}
    (hq : (s.task q).array = some b) (hr : s.rankOf q = .realTime) :
    s.switchArrays.active = s.active ∧ (s.arr s.active).nrActive ≠ 0
      ∧ M.schedFindFirstBit (s.arr s.active).bitmap < maxRtPrio := by
  have hs := h.standsIn hq
  rw [hr] at hs
  obtain ⟨rfl, hlt⟩ := hs
  have hn := h.nrActive_ne_zero hq
  obtain ⟨next, -, -, hp, hle⟩ := h.first M hn
  refine ⟨?_, hn, hp ▸ lt_of_le_of_lt (hle q hq) hlt⟩
  rcases switchArrays_cases s with hc | hc
  · exact hc.2
  · exact absurd hc.1 hn

/-- The class of `next` is at least as good as that of any queued task, and equal classes
share an array. -/
def NoneBetter (s : Sys) (next : Tid) (a : ArrayId) : Prop :=
  ∀ q b, (s.task q).array = some b → (s.rankOf next).place < (s.rankOf q).place
    ∨ s.rankOf q = s.rankOf next ∧ b = a

/-- A regular SHORT task is chosen when no real-time task is queued. -/
lemma noneBetter_regular (h : RqInv s) {next : Tid}
    (hi : maxRtPrio ≤ M.schedFindFirstBit (s.arr s.switchArrays.active).bitmap)
    (ha : (s.task next).array = some .shortActive) : NoneBetter s next .shortActive := by
  obtain ⟨h1, -, h2, -⟩ := h.ordinary
  have hnext := h.standsIn ha
  intro q b hb
  have hq := h.standsIn hb
  have hrt : s.rankOf q ≠ .realTime := fun hr => by
    obtain ⟨heq, -, hlt⟩ := h.firstBit_le_realTime (M := M) hb hr
    rw [heq] at hi
    omega
  cases hrn : s.rankOf next <;> rw [hrn] at hnext <;>
    simp only [StandsIn, h1.symm, h2.symm, false_and, reduceCtorEq] at hnext
  cases hrq : s.rankOf q <;> rw [hrq] at hq hrt <;> simp_all [StandsIn, Rank.place]

/-- An overdue task is chosen when nothing else is queued. -/
lemma noneBetter_overdue (h : RqInv s) {next : Tid} (hact : (s.arr s.active).nrActive = 0)
    (hexp : (s.arr s.expired).nrActive = 0) (hsh : (s.arr .shortActive).nrActive = 0)
    (ha : (s.task next).array = some .overdue) : NoneBetter s next .overdue := by
  obtain ⟨-, h1, -, h2⟩ := h.ordinary
  have hnext := h.standsIn ha
  intro q b hb
  have hq := h.standsIn hb
  have hn := h.nrActive_ne_zero hb
  cases hrn : s.rankOf next <;> rw [hrn] at hnext <;>
    simp only [StandsIn, h1.symm, h2.symm, false_and, reduceCtorEq] at hnext
  cases hrq : s.rankOf q <;> rw [hrq] at hq <;> simp_all [StandsIn]

/-- A task of the active array is chosen when it is real-time or no regular SHORT task is
queued. -/
lemma noneBetter_active (h : RqInv s) {next : Tid}
    (hshort : maxRtPrio ≤ (s.task next).prio → (s.arr .shortActive).nrActive = 0)
    (hi : (s.task next).prio = M.schedFindFirstBit (s.arr s.switchArrays.active).bitmap)
    (ha : (s.task next).array = some s.switchArrays.active) :
    NoneBetter s next s.switchArrays.active := by
  obtain ⟨h1, h2, h3, h4⟩ := h.ordinary
  have hnext := h.standsIn ha
  have hn := h.nrActive_ne_zero ha
  intro q b hb
  have hq := h.standsIn hb
  have hnq := h.nrActive_ne_zero hb
  have hrt : s.rankOf q = .realTime → (s.task next).prio < maxRtPrio := fun hr => by
    obtain ⟨heq, -, hlt⟩ := h.firstBit_le_realTime (M := M) hb hr
    rwa [hi, heq]
  rcases switchArrays_cases s with ⟨hz, heq⟩ | ⟨hz, heq⟩ <;> rw [heq] at ha hi hnext ⊢ <;>
    cases hrn : s.rankOf next <;> rw [hrn] at hnext <;>
    simp only [StandsIn, h1, h2, h3, h4, h.ends_ne, h.ends_ne.symm, false_and, true_and] at hnext <;>
    cases hrq : s.rankOf q <;> rw [hrq] at hq hrt <;>
    simp_all [StandsIn, Rank.place]
  omega

/-- **What `schedule` chooses** when some task is queued. -/
theorem pickQueue_spec (h : RqInv s) (hn : s.nrRunning ≠ 0) : ∃ next,
    (s.switchArrays.pickQueue M).head? = some next
      ∧ (s.arr (s.switchArrays.pickArray M)).nrActive ≠ 0
      ∧ Chosen s next (s.switchArrays.pickArray M) := by
  set act := s.switchArrays.active with hact
  set i := M.schedFindFirstBit (s.arr act).bitmap with hi
  have hpick : s.switchArrays.pickArray M
      = if maxRtPrio - 1 < i ∧ (s.arr .shortActive).nrActive ≠ 0 then .shortActive
        else if (s.arr act).nrActive = 0 then .overdue else act := by
    simp only [Sys.pickArray, switchArrays_arr, ← hact, hi]
  have hqueue : s.switchArrays.pickQueue M = (s.arr (s.switchArrays.pickArray M)).queue
      (M.schedFindFirstBit (s.arr (s.switchArrays.pickArray M)).bitmap) := by
    simp only [Sys.pickQueue, switchArrays_arr]
  -- the array chosen holds a task, and no queued task is of a better class than that array
  have hmain : (s.arr (s.switchArrays.pickArray M)).nrActive ≠ 0 ∧ ∀ next,
      (s.task next).array = some (s.switchArrays.pickArray M) →
      (s.task next).prio = M.schedFindFirstBit (s.arr (s.switchArrays.pickArray M)).bitmap →
      NoneBetter s next (s.switchArrays.pickArray M) := by
    rw [hpick]
    split_ifs with hshort hz
    · exact ⟨hshort.2, fun next ha _ => h.noneBetter_regular (M := M)
        (show maxRtPrio ≤ i by omega) ha⟩
    · have hzero : (s.arr s.active).nrActive = 0 ∧ (s.arr s.expired).nrActive = 0 := by
        rcases switchArrays_cases s with ⟨h1, h2⟩ | ⟨h1, h2⟩
        · exact absurd hz (by rwa [hact, h2])
        · exact ⟨h1, by rwa [hact, h2] at hz⟩
      have hsh : (s.arr .shortActive).nrActive = 0 := by
        have him := ((h.queues.arrayOk act).firstBit M).2.2 hz
        by_contra hsh
        exact hshort ⟨by rw [hi, him]; decide, hsh⟩
      refine ⟨fun ho => hn ?_, fun next ha _ => h.noneBetter_overdue hzero.1 hzero.2 hsh ha⟩
      rw [h.nrRunning, Sys.totalActive]
      rcases h.ends with ⟨ha, he⟩ | ⟨ha, he⟩ <;> rw [ha, he] at hzero <;> omega
    · refine ⟨hz, fun next ha hp => h.noneBetter_active (M := M) (fun hge => ?_) hp ha⟩
      by_contra hsh
      exact hshort ⟨by rw [hi, ← hp]; simp only [maxRtPrio] at *; omega, hsh⟩
  obtain ⟨next, hhead, ha, hp, hle⟩ := h.first M hmain.1
  refine ⟨next, hqueue ▸ hhead, hmain.1, ha, hp ▸ hhead, fun q hq => ?_⟩
  obtain ⟨b, hb⟩ := Option.ne_none_iff_exists'.mp hq
  rcases hmain.2 next ha hp q b hb with hlt | ⟨heq, rfl⟩
  · exact Or.inl hlt
  · exact Or.inr ⟨heq, hle q hb⟩

/-- `schedule` goes to the idle task exactly when nothing is queued. -/
lemma pickNext_idle (hn : s.nrRunning = 0) :
    s.pickNext M = ({ s with expiredTimestamp := 0 }, some s.idle) := by
  simp only [Sys.pickNext, if_pos hn]

lemma pickNext_switched (hn : s.nrRunning ≠ 0) :
    s.pickNext M = (s.switchArrays, (s.switchArrays.pickQueue M).head?) := by
  simp only [Sys.pickNext, if_neg hn]

end RqInv

/-! ### One pass of `schedule` -/

section

variable (M : Arch) {s : Sys}

lemma switchTo_frame (s : Sys) (next : Tid) : (s.switchTo next).live = s.live
    ∧ (s.switchTo next).idle = s.idle ∧ (s.switchTo next).curr = next
    ∧ (∀ q, Kept (s.task q) ((s.switchTo next).task q))
    ∧ ∀ q, q ≠ s.curr → (s.switchTo next).task q = s.task q := by
  have htask : (∀ q, Kept (s.task q)
        ((s.modTask s.curr fun t => { t with needResched := false }).task q))
      ∧ ∀ q, q ≠ s.curr →
        (s.modTask s.curr fun t => { t with needResched := false }).task q = s.task q := by
    refine ⟨fun q => ?_, fun q hq => Sys.modTask_task_of_ne _ _ _ hq⟩
    by_cases hq : q = s.curr
    · rw [hq, Sys.modTask_task_self]
      exact ⟨⟨rfl, rfl, rfl, rfl⟩, rfl, Iff.rfl⟩
    · rw [Sys.modTask_task_of_ne _ _ _ hq]
      exact Kept.refl _
  simp only [Sys.switchTo]
  split_ifs with h
  · exact ⟨rfl, rfl, h, htask⟩
  · exact ⟨rfl, rfl, rfl, htask⟩

lemma RqInv.switchTo (h : RqInv s) (next : Tid) : RqInv (s.switchTo next) := by
  have h₁ : RqInv (s.modTask s.curr fun t => { t with needResched := false }) :=
    h.modKey ⟨rfl, rfl, rfl, rfl, rfl⟩ fun hi => hi ▸ h.idle.state
  simp only [Sys.switchTo]
  split_ifs
  · exact h₁
  · exact h₁.of_counters

/-- What a pass of `schedule` does: some task gets the processor, and no record changes but for
what `schedulePrev` does and `need_resched`. -/
lemma Inv.schedule_cases (h : Inv s) : ∃ s₁ next,
    s.schedule M = some (s₁.switchTo next) ∧ s.schedulePrev.pickNext M = (s₁, some next)
      ∧ RqInv s₁ ∧ Quiet none s.schedulePrev s₁ ∧ s₁.task = s.schedulePrev.task
      ∧ (next = s₁.idle ∨ (s₁.task next).array ≠ none) := by
  have h₁ := h.schedulePrev
  by_cases hn : s.schedulePrev.nrRunning = 0
  · refine ⟨{ s.schedulePrev with expiredTimestamp := 0 }, s.schedulePrev.idle, ?_,
      RqInv.pickNext_idle hn, h₁.of_counters, Quiet.of_task rfl rfl rfl rfl, rfl, Or.inl rfl⟩
    simp only [Sys.schedule, RqInv.pickNext_idle hn, Option.map_some]
  · obtain ⟨next, hhead, -, hchosen⟩ := h₁.pickQueue_spec (M := M) hn
    refine ⟨s.schedulePrev.switchArrays, next, ?_, by rw [RqInv.pickNext_switched hn, hhead],
      h₁.switchArrays, RqInv.switchArrays_quiet _, RqInv.switchArrays_task _, Or.inr ?_⟩
    · simp only [Sys.schedule, RqInv.pickNext_switched hn, hhead, Option.map_some]
    · rw [RqInv.switchArrays_task, hchosen.array]
      exact Option.some_ne_none _

/-- **A pass of `schedule` always finds a task and keeps the invariant.** -/
theorem Inv.schedule (h : Inv s) : ∃ s', s.schedule M = some s' ∧ Inv s'
    ∧ s'.live = s.live ∧ s'.idle = s.idle ∧ (∀ q, SameCore (s.task q) (s'.task q))
    ∧ ∀ q, ¬ s.Known q → s'.task q = s.task q := by
  obtain ⟨s₁, next, heq, -, h₁, hsame, htask, hnext⟩ := h.schedule_cases M
  obtain ⟨hl, hi, hc, hkept, hother⟩ := switchTo_frame s₁ next
  have hquiet : Quiet (some s.curr) s s₁ := h.schedulePrev_quiet.trans hsame.weaken
  have hprev : ∀ q, SameCore (s.task q) (s₁.task q) := fun q => by
    rw [htask]
    by_cases hq : q = s.curr
    · exact hq ▸ schedulePrev_self s
    · exact (h.schedulePrev_quiet.kept q fun he => hq (Option.some.inj he).symm).toSameCore
  refine ⟨s₁.switchTo next, heq, ⟨h₁.switchTo next, fun hne => ?_, fun p hp _ => ?_⟩,
    hl.trans hquiet.live, hi.trans hquiet.idle,
    fun q => (hprev q).trans (hkept q).toSameCore, fun q hq => ?_⟩
  · rw [hc] at hne ⊢
    exact (hkept next).queued.mpr (hnext.resolve_left fun he => hne (he.trans hi.symm))
  · have hp' : s.schedulePrev.IsTask p := by
      rw [Sys.IsTask, hl, hi, hsame.live, hsame.idle] at hp
      exact hp
    rw [(hkept p).awake, htask]
    exact h.schedulePrev_settled hp'
  · rw [hother q fun he => hq ?_, hquiet.off q hq]
    rw [he, hquiet.curr]
    exact h.known_curr

end

/-! ### Yielding -/

namespace RqInv

variable {M : Arch} {s : Sys} {p : Tid} {a : ArrayId}

/-- A queue is put in another order. -/
lemma reorder (h : RqInv s) {k : ℕ} {l : List Tid} (hl : l.Perm ((s.arr a).queue k)) :
    RqInv (s.listPut a k l) := by
  refine ⟨h.queues.reorder hl, ?_, h.ends, h.tasks, h.queued, h.idle, h.unlisted⟩
  rw [show (s.listPut a k l).nrRunning = s.nrRunning from rfl, h.nrRunning]
  have : (s.listPut a k l).totalActive = s.totalActive + 0 :=
    s.totalActive_of_update a rfl (by simp)
  omega

/-- A task leaves its queue and goes back into it at another position. -/
lemma relink (h : RqInv s) (ha : (s.task p).array = some a) {l : List Tid}
    (hl : l.Perm (p :: ((s.arr a).queue (s.task p).prio).erase p)) :
    RqInv ((s.listDel p).listPut a (s.task p).prio l) := by
  have hmem : p ∈ (s.arr a).queue (s.task p).prio := h.mem_queue_iff.mpr ⟨ha, rfl⟩
  have heq : (s.listDel p).listPut a (s.task p).prio l = s.listPut a (s.task p).prio l := by
    rw [h.queues.listDel_eq (Sys.locOf_eq_some ha)]
    simp [Sys.listPut, Sys.modArr, Function.update_idem]
  rw [heq]
  exact h.reorder (hl.trans (List.perm_cons_erase hmem).symm)

lemma yieldPrio_bounds (M : Arch) {bitmap : ℕ → Bool} (hdel : bitmap maxPrio = true) {k : ℕ}
    (hk : k < maxPrio) : k ≤ Sys.yieldPrio M bitmap k ∧ Sys.yieldPrio M bitmap k < maxPrio := by
  have hle := (M.schedFindFirstBit_isLeast bitmap hdel).2 hdel
  simp only [Sys.yieldPrio]
  split_ifs with hc <;> omega

/-- Only the fields the invariant reads matter. -/
lemma of_fields {s' : Sys} (h : RqInv s) (harr : s'.arr = s.arr) (htask : s'.task = s.task)
    (hlive : s'.live = s.live) (hidle : s'.idle = s.idle) (hact : s'.active = s.active)
    (hexp : s'.expired = s.expired) (hn : s'.nrRunning = s.nrRunning) : RqInv s' := by
  obtain ⟨j, task, live, sp, n, sw, u, e, c, idle, act, exp, arr⟩ := s'
  simp only at harr htask hlive hidle hact hexp hn
  subst harr htask hlive hidle hact hexp hn
  exact h.of_counters

/-- A task that was alone in its queue goes behind the head of another one. -/
lemma relinkAt (h : RqInv s) (ha : (s.task p).array = some a) {i : ℕ}
    (hl : ((s.arr a).queue (s.task p).prio).erase p = [])
    (ht : TaskOk s.active s.expired { s.task p with prio := i }) :
    let s₁ := ((s.listDel p).clearBit a (s.task p).prio).modTask p fun t => { t with prio := i }
    RqInv ((s₁.listPut a i (insertSecond p ((s₁.arr a).queue i))).setBit a i) := by
  intro s₁
  -- the same moves as dequeuing, changing and enqueuing, but for the counter
  have hdeq := h.queues.dequeueTask_arr (Sys.locOf_eq_some ha)
  have hq : ((s.dequeueTask p a).arr a).queue = (s₁.arr a).queue := by
    rw [hdeq, Function.update_self]
    simp [s₁, h.queues.listDel_eq (Sys.locOf_eq_some ha), Sys.clearBit, Sys.listPut, Sys.modArr]
  refine (h.requeueAs ha (fun t => { t with prio := i }) (b := a)
    (l := insertSecond p ((s₁.arr a).queue i)) (ht.congr ⟨by simp [ha], rfl, rfl, rfl, rfl⟩)
    (hq ▸ insertSecond_perm _ _)).of_fields ?_ ?_ ?_ ?_ ?_ ?_ ?_
  · rw [Sys.enqueueAs_arr]
    simp [s₁, h.queues.listDel_eq (Sys.locOf_eq_some ha), Sys.setBit, Sys.clearBit, Sys.listPut,
      Sys.modArr, hdeq, hl]
  · rw [Sys.enqueueAs_task]
    simp [s₁, Sys.setBit, Sys.listPut, Sys.modArr, Sys.clearBit, Sys.listDel, Sys.modTask, ha]
  all_goals simp [s₁, Sys.setBit, Sys.listPut, Sys.modArr, Sys.clearBit, Sys.listDel]

lemma yieldQueue (h : Inv s) (hc : s.curr ≠ s.idle) : RqInv (s.yieldQueue M) := by
  obtain ⟨a, ha⟩ := Option.ne_none_iff_exists'.mp (h.curr hc)
  have hp := h.toRqInv.isTask_of_array ha
  have ht := h.tasks _ hp
  simp only [Sys.yieldQueue, ha]
  by_cases hsh : (s.task s.curr).policy = .short
  · rw [if_pos hsh]
    exact (h.toRqInv.deactivate ha).activate M (isTask_deactivate.mpr hp)
      (by rw [deactivateTask_self])
  rw [if_neg hsh]
  by_cases hrt : ((s.listDel s.curr).task s.curr).IsRt
  · rw [if_pos hrt]
    exact h.toRqInv.relink ha (append_singleton_perm _ _)
  rw [if_neg hrt]
  by_cases hl : ((s.listDel s.curr).arr a).queue (s.task s.curr).prio ≠ []
  · rw [if_pos hl]
    exact h.toRqInv.relink ha (insertSecond_perm _ _)
  rw [if_neg hl]
  have hother : (s.task s.curr).policy = .other := by
    have := (not_congr ht.isRt_iff).mp hrt
    cases hp : (s.task s.curr).policy <;> simp_all
  refine h.toRqInv.relinkAt ha (not_not.mp hl) ?_
  have hlt := ht.prio_lt
  have hdel : (((s.listDel s.curr).clearBit a (s.task s.curr).prio).arr a).bitmap maxPrio
      = true := by
    simp [Sys.clearBit, Sys.modArr, Sys.listDel, Function.update_of_ne hlt.ne',
      (h.queues.arrayOk a).delimiter]
  obtain ⟨h1, h2⟩ := yieldPrio_bounds M hdel hlt
  exact ⟨ht.markers, fun hc => by simp [hother] at hc,
    fun _ => ⟨(ht.usual (Or.inl hother)).1.trans h1, h2⟩, fun ho => absurd ho.1 hsh, ht.static⟩

end RqInv

/-- What yielding leaves alone before it calls `schedule`. -/
lemma Quiet.yieldQueue {M : Arch} {s : Sys} (h : Inv s) (hc : s.curr ≠ s.idle) :
    Quiet none s (s.yieldQueue M) := by
  obtain ⟨a, ha⟩ := Option.ne_none_iff_exists'.mp (h.curr hc)
  have hp : s.Known s.curr := h.known_curr
  simp only [Sys.yieldQueue, ha]
  split_ifs
  · have hd : Quiet (some s.curr) s (s.deactivateTask s.curr) := Quiet.deactivate hp
    have hself := deactivateTask_self s s.curr
    refine (hd.andActivate M hp).strengthen ⟨?_, ?_, ?_⟩
    · have hcore := activateTask_core M (s.deactivateTask s.curr) s.curr
      rw [hself] at hcore
      have hoff : SameCore (s.task s.curr) { s.task s.curr with array := none } :=
        ⟨rfl, rfl, rfl, rfl⟩
      exact hoff.trans hcore
    · rw [activateTask_state, hself]
    · exact iff_of_true (activateTask_queued M _ _) (by simp [ha])
  · exact Quiet.of_task rfl rfl rfl rfl
  · exact Quiet.of_task rfl rfl rfl rfl
  · refine Quiet.strengthen (p := s.curr) ?_ ?_
    · exact Quiet.of_others rfl rfl rfl hp fun q hq => Function.update_of_ne hq ..
    · change Kept _ (Function.update s.task s.curr _ s.curr)
      rw [Function.update_self]
      exact ⟨⟨rfl, rfl, rfl, rfl⟩, rfl, Iff.rfl⟩

/-- Yielding keeps the invariant. -/
theorem Inv.yieldQueue {M : Arch} {s : Sys} (h : Inv s) (hc : s.curr ≠ s.idle) :
    Inv (s.yieldQueue M) :=
  h.of_quiet (Quiet.yieldQueue h hc) (RqInv.yieldQueue h hc)

end Os234123.Sched
