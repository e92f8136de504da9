import Os234123.Sched.Boot

/-!
Time slices: how large they get, and when one can be empty.

* `newSlice_eq`: what an accepted change of a regular SHORT task's request leaves of its slice;
* `SliceOk`: a slice that is not empty and not too large;
* `EmptyOverdue`: the next tick of the task gives it an empty slice;
* `SlicesOk.step`: an operation keeps every slice in order unless it is such a tick;
* `reach_slicesLast`: no slice is ever empty in a run without such ticks;
* `not_slicesLast`: a run with one.
-/

namespace Os234123.Sched

open Machine

/-! ### A change of the request -/

/-- The difference `setscheduler` computes in two unsigned subtractions. -/
lemma usub_usub {a b c : ℕ} (ha : a < uintSize) (hb : b < uintSize) (hc : c < uintSize)
    (h : b ≤ a + c) (hlt : a + c - b < uintSize) : usub a (usub b c) = a + c - b := by
  simp only [usub, toUint, uintSize] at *
  omega

lemma Arch.jiffiesOf_le (M : Arch) {ms : ℕ} (h : ms ≤ 3000) : M.jiffiesOf ms ≤ 3 * M.HZ := by
  have := Nat.mul_le_mul_right M.HZ h
  simp only [Arch.jiffiesOf]
  omega

lemma Arch.HZ_lt (M : Arch) : M.HZ < 357914 := by
  have := M.HZ_int
  omega

/-- **The request guard.**  A new request that passes is worth at least what has been used of
the old one. -/
lemma jiffiesOf_le_of_request {M : Arch} {t : Task} {lp : SchedParam} (hp : t.policy = .short)
    (hT : t.timeSlice ≤ 7 * M.HZ) (hR : t.requestedTime ≤ 3000)
    (h : ¬ Sys.BadRequest M t .short lp) :
    M.jiffiesOf t.requestedTime ≤ M.jiffiesOf lp.requestedTime.toNat + t.timeSlice := by
  simp only [Sys.BadRequest, hp, true_and, not_or, not_le, not_lt] at h
  obtain ⟨hused, hr, hr1⟩ := h
  have hZ := M.HZ_lt
  have hpos := M.HZ_pos
  obtain ⟨r, hr'⟩ : ∃ r : ℕ, lp.requestedTime = r := ⟨lp.requestedTime.toNat, by omega⟩
  rw [hr'] at hused hr ⊢
  have hbig : t.timeSlice * 1000 < uintSize := by
    simp only [uintSize]
    omega
  rw [umul_of_lt hbig, toUint_of_lt (by simp only [uintSize]; omega)] at hused
  -- `u` is the time the slice is still worth, in milliseconds
  set u := t.timeSlice * 1000 / M.HZ with hu
  have hu7 : u ≤ 7000 := by
    refine Nat.div_le_of_le_mul ?_
    calc t.timeSlice * 1000 ≤ 7 * M.HZ * 1000 := Nat.mul_le_mul_right _ hT
      _ = M.HZ * 7000 := by ring
  have hle : t.requestedTime ≤ r + u := by
    by_contra hlt
    rw [usub_of_le (by simp only [uintSize]; omega) (by omega)] at hused
    omega
  have huT : u * M.HZ ≤ t.timeSlice * 1000 := Nat.div_mul_le_self _ _
  have hmul : t.requestedTime * M.HZ ≤ r * M.HZ + t.timeSlice * 1000 := by
    calc t.requestedTime * M.HZ ≤ (r + u) * M.HZ := Nat.mul_le_mul_right _ hle
      _ = r * M.HZ + u * M.HZ := Nat.add_mul ..
      _ ≤ r * M.HZ + t.timeSlice * 1000 := by omega
  calc M.jiffiesOf t.requestedTime ≤ (r * M.HZ + t.timeSlice * 1000) / 1000 :=
        Nat.div_le_div_right hmul
    _ = M.jiffiesOf r + t.timeSlice := Nat.add_mul_div_right _ _ (by decide)

/-- The slice of a regular SHORT task after an accepted change: what it had, and the difference
of the two requests. -/
lemma newSlice_eq {M : Arch} {t : Task} {lp : SchedParam} (hp : t.policy = .short)
    (hT : t.timeSlice ≤ 7 * M.HZ) (hR : t.requestedTime ≤ 3000)
    (h : ¬ Sys.BadRequest M t .short lp) : newSlice M t lp.requestedTime.toNat
      = M.jiffiesOf lp.requestedTime.toNat + t.timeSlice - M.jiffiesOf t.requestedTime := by
  have hle := jiffiesOf_le_of_request hp hT hR h
  have hr : lp.requestedTime.toNat ≤ 3000 := by
    simp only [Sys.BadRequest, true_and, not_or, not_lt] at h
    omega
  have h1 := M.jiffiesOf_le hr
  have h2 := M.jiffiesOf_le hR
  have hZ := M.HZ_lt
  rw [newSlice, if_pos hp]
  refine usub_usub ?_ ?_ ?_ hle ?_ <;> simp only [Arch.jiffiesOf, uintSize] at * <;> omega

/-! ### One slice in order -/

/-- A slice that is not empty and not too large: the slice of a regular SHORT task exceeds its
request by no more than what a child may have given back. -/
structure SliceOk (M : Arch) (t : Task) : Prop where
  pos : 1 ≤ t.timeSlice
  le : t.timeSlice ≤ 7 * M.HZ
  request : t.requestedTime ≤ 3000
  regular : t.IsRegular → t.timeSlice ≤ M.jiffiesOf t.requestedTime + M.maxTimeslice

/-- The next tick turns the task overdue with an empty slice. -/
def EmptyOverdue (M : Arch) (t : Task) : Prop :=
  t.IsRegular ∧ t.timeSlice = 1 ∧ 2 * t.requestedTime * M.HZ / 1000 = 0

instance (M : Arch) (t : Task) : Decidable (EmptyOverdue M t) :=
  inferInstanceAs (Decidable (_ ∧ _))

namespace SliceOk

variable {M : Arch} {active expired : ArrayId} {t t' child : Task}

lemma congr (h : SliceOk M t) (hs : SameCore t t') : SliceOk M t' := by
  obtain ⟨hpol, his, hreq, hts⟩ := hs
  refine ⟨hts ▸ h.pos, hts ▸ h.le, hreq ▸ h.request, fun hr => ?_⟩
  rw [hts, hreq]
  exact h.regular ⟨hpol ▸ hr.1, his ▸ hr.2⟩

/-- A slice of a task that is not regular SHORT. -/
lemma of_not_regular (hpos : 1 ≤ t.timeSlice) (hle : t.timeSlice ≤ 7 * M.HZ)
    (hreq : t.requestedTime ≤ 3000) (hr : ¬ t.IsRegular) : SliceOk M t :=
  ⟨hpos, hle, hreq, fun h => absurd h hr⟩

/-- A smaller slice. -/
lemma smaller (h : SliceOk M t) (hs : t'.timeSlice ≤ t.timeSlice) (hpos : 1 ≤ t'.timeSlice)
    (hreq : t'.requestedTime = t.requestedTime) (hr : t'.IsRegular → t.IsRegular) :
    SliceOk M t' :=
  ⟨hpos, hs.trans h.le, hreq ▸ h.request, fun hreg => hreq ▸ hs.trans (h.regular (hr hreg))⟩

/-- A task refilled from its nice value. -/
lemma refilled (hz : 100 ≤ M.HZ) (hreq : t.requestedTime ≤ 3000)
    (hst : maxRtPrio ≤ t.staticPrio) (hs : t'.timeSlice = t.timeslice M)
    (hr : t'.requestedTime = t.requestedTime) (hpol : t'.policy ≠ .short) : SliceOk M t' := by
  obtain ⟨h1, h2⟩ := t.timeslice_bounds M hst
  simp only [Arch.minTimeslice, Arch.maxTimeslice] at h1 h2
  exact of_not_regular (by omega) (by omega) (hr ▸ hreq) fun h => hpol h.1

/-- A tick that charges the task. -/
lemma tick (hz : 100 ≤ M.HZ) (h : SliceOk M t) (hst : maxRtPrio ≤ t.staticPrio)
    (hok : ¬ EmptyOverdue M t) (ht : TickOf M active expired t t') : SliceOk M t' := by
  have hZ := M.HZ_lt
  have hlt : t.timeSlice < uintSize := by
    have := h.le
    simp only [uintSize]
    omega
  have hspend : usub t.timeSlice 1 = t.timeSlice - 1 := usub_of_le hlt h.pos
  cases ht with
  | spend avg hne =>
      exact h.smaller (by simp [hspend]) (Nat.one_le_iff_ne_zero.mpr hne) rfl fun hr => hr
  | refillRr hz0 hp => exact refilled hz h.request hst rfl rfl (by simp [Sys.refillRr, hp])
  | refillOther avg a hz0 hp ha =>
      exact refilled hz h.request hst rfl rfl (by simp [Sys.refillOther, hp])
  | turnOverdue avg hz0 hp =>
      have h1 : t.timeSlice = 1 := by have := h.pos; omega
      have hne : 2 * t.requestedTime * M.HZ / 1000 ≠ 0 := fun h0 => hok ⟨hp, h1, h0⟩
      have hle : 2 * t.requestedTime * M.HZ / 1000 ≤ 6 * M.HZ := by
        have := Nat.mul_le_mul_right M.HZ (Nat.mul_le_mul_left 2 h.request)
        omega
      refine of_not_regular (Nat.one_le_iff_ne_zero.mpr hne) (hle.trans (by omega)) h.request ?_
      simp [Task.IsRegular, Sys.turnOverdue]
  | turnOther avg hz0 hp => exact refilled hz h.request hst rfl rfl (by simp [Sys.turnOther])

lemma halve_core (t : Task) : (Sys.halve t).policy = t.policy
    ∧ (Sys.halve t).isShort = t.isShort ∧ (Sys.halve t).requestedTime = t.requestedTime
    ∧ (Sys.halve t).staticPrio = t.staticPrio := by
  simp only [Sys.halve]
  split_ifs <;> exact ⟨rfl, rfl, rfl, rfl⟩

/-- What a fork leaves its parent. -/
lemma share (hz : 100 ≤ M.HZ) (h : SliceOk M t) (hst : maxRtPrio ≤ t.staticPrio)
    (hok : ¬ EmptyOverdue M t) (hs : ShareOf M active expired t t') : SliceOk M t' := by
  obtain ⟨hpol, his, hreq, hstat⟩ := halve_core t
  have hle : (Sys.halve t).timeSlice ≤ t.timeSlice := by
    simp only [Sys.halve]
    split_ifs
    · exact le_rfl
    · exact Nat.div_le_self _ _
  have hone : (Sys.halve t).timeSlice = 0 → t.timeSlice = 1 := fun h0 => by
    have hpos := h.pos
    by_cases ho : t.IsOverdue
    · rw [Sys.halve, if_pos ho] at h0
      omega
    · rw [Sys.halve, if_neg ho] at h0
      have : t.timeSlice / 2 = 0 := h0
      omega
  have hreg : ∀ u : Task, u.policy = (Sys.halve t).policy → u.isShort = (Sys.halve t).isShort →
      (u.IsRegular ↔ t.IsRegular) := fun u h1 h2 => by
    rw [Task.IsRegular, Task.IsRegular, h1, h2, hpol, his]
  have hsingle : ∀ b, SliceOk M { Sys.halve t with timeSlice := 1, needResched := b } := fun b =>
    h.smaller h.pos le_rfl hreq (hreg _ rfl rfl).mp
  cases hs with
  | halved h0 =>
      exact h.smaller hle (Nat.one_le_iff_ne_zero.mpr h0) hreq (hreg _ rfl rfl).mp
  | spared b h0 => exact hsingle b
  | charged h0 ht =>
      refine tick (t := { Sys.halve t with timeSlice := 1 }) hz (hsingle _) (hstat ▸ hst) ?_ ht
      rintro ⟨h1, -, h2⟩
      exact hok ⟨(hreg _ rfl rfl).mp h1, hone h0, by simpa [hreq] using h2⟩

/-- What a fork gives the child. -/
lemma inherit (h : SliceOk M t) {j : ℕ} : SliceOk M (Sys.inherit t (Sys.childOf t) j) := by
  have hZ := M.HZ_lt
  have hpos := h.pos
  have hle := h.le
  have huadd : uadd t.timeSlice 1 = t.timeSlice + 1 :=
    uadd_of_lt (by simp only [uintSize]; omega)
  have hslice : (Sys.inherit t (Sys.childOf t) j).timeSlice
      = if t.IsOverdue then t.timeSlice else (t.timeSlice + 1) / 2 := by
    simp only [Sys.inherit, huadd]
  refine h.smaller ?_ ?_ rfl fun hr => ?_
  · rw [hslice]
    split_ifs <;> omega
  · rw [hslice]
    split_ifs <;> omega
  · simp only [Task.IsRegular, inherit_policy] at hr
    have hp : t.policy = .short := hr.1
    exact ⟨hp, by simpa [Sys.inherit, hp] using hr.2⟩

/-- What a parent gets back from its child. -/
lemma credit (hz : 100 ≤ M.HZ) (h : SliceOk M t) (hc : SliceOk M child) :
    SliceOk M (credited M t child) := by
  have hZ := M.HZ_lt
  have h1 := h.pos
  have h2 := h.le
  have h3 := hc.le
  have huadd : uadd t.timeSlice child.timeSlice = t.timeSlice + child.timeSlice :=
    uadd_of_lt (by simp only [uintSize]; omega)
  have hmax : 1 ≤ M.maxTimeslice := by simp only [Arch.maxTimeslice]; omega
  have hmaxle : M.maxTimeslice ≤ 7 * M.HZ := by simp only [Arch.maxTimeslice]; omega
  refine ⟨?_, (min_le_right _ _).trans hmaxle, h.request, fun _ =>
    (min_le_right _ _).trans (Nat.le_add_left _ _)⟩
  simp only [credited, huadd]
  exact le_min (by omega) hmax

/-- What a change of parameters leaves. -/
lemma change (hz : 100 ≤ M.HZ) (h : SliceOk M t) {pol : Policy} {lp : SchedParam}
    (hreq : ¬ Sys.BadRequest M t pol lp)
    (hreg : t.policy = .short → pol = .short ∧ t.isShort = 1) :
    SliceOk M (Sys.newParams M t pol lp) := by
  by_cases hp : pol = .short
  swap
  · rw [newParams_of_ne M t hp]
    exact of_not_regular h.pos h.le h.request fun hr => hp hr.1
  subst hp
  have hr : 1 ≤ lp.requestedTime.toNat ∧ lp.requestedTime.toNat ≤ 3000 := by
    simp only [Sys.BadRequest, true_and, not_or, not_lt] at hreq
    omega
  have hZ := M.HZ_lt
  have hjif := M.jiffiesOf_le hr.2
  have hle : newSlice M t lp.requestedTime.toNat
      ≤ M.jiffiesOf lp.requestedTime.toNat + M.maxTimeslice := by
    by_cases hps : t.policy = .short
    · rw [newSlice_eq hps h.le h.request hreq]
      have := h.regular ⟨hps, (hreg hps).2⟩
      omega
    · rw [newSlice, if_neg hps]
      exact Nat.le_add_right _ _
  have hmax : 1 ≤ M.maxTimeslice ∧ M.maxTimeslice ≤ 4 * M.HZ := by
    simp only [Arch.maxTimeslice]
    omega
  rw [newParams_short, shortParams_eq, if_neg (by omega : ¬ lp.requestedTime.toNat = 0)]
  have hbound : (if newSlice M t lp.requestedTime.toNat = 0 then 1
      else newSlice M t lp.requestedTime.toNat)
        ≤ M.jiffiesOf lp.requestedTime.toNat + M.maxTimeslice := by
    split_ifs <;> omega
  refine ⟨?_, hbound.trans (by omega), hr.2, fun _ => hbound⟩
  show 1 ≤ if _ = 0 then _ else _
  split_ifs <;> omega

end SliceOk

/-! ### All slices in order -/

/-- Every slice the system knows is in order. -/
def SlicesOk (M : Arch) (s : Sys) : Prop := ∀ p, s.Known p → SliceOk M (s.task p)

/-- The operation does not turn the running task overdue with an empty slice: a tick does not,
nor the one a fork makes. -/
def KeepsSlice (M : Arch) (s : Sys) : Op → Prop
  | .tick => ¬ EmptyOverdue M (s.task s.curr)
  | .fork _ _ => ¬ EmptyOverdue M (s.task s.curr)
  | _ => True

instance (M : Arch) (s : Sys) (o : Op) : Decidable (KeepsSlice M s o) := by
  unfold KeepsSlice
  induction o using Op.casesOn <;> infer_instance

lemma RqInv.staticPrio {s : Sys} (h : RqInv s) {p : Tid} (hp : s.Known p) :
    maxRtPrio ≤ (s.task p).staticPrio := (h.classOk hp).static.1

/-- What an operation leaves of the slice of a task that was there before. -/
lemma SliceOk.effect {M : Arch} {s : Sys} {o : Op} {p : Tid} {t : Task} (hz : 100 ≤ M.HZ)
    (h : Inv s) (hs : SlicesOk M s) (hok : KeepsSlice M s o) (hp : s.Known p)
    (he : Effect M s p o t) : SliceOk M t := by
  have hst := h.toRqInv.staticPrio hp
  cases he with
  | keep _ hsame => exact (hs p hp).congr hsame
  | tick hc ht => exact (hs p hp).tick hz hst (hc.1 ▸ hok) ht
  | share hpc ht hsame => exact ((hs p hp).share hz hst (hpc ▸ hok) ht).congr hsame
  | change hfind _ hacc hsame =>
      refine ((hs p hp).change hz hacc.request fun hps => ?_).congr hsame
      rcases hp with hp | hp
      · exact regular_of_not_badShort (h.tasks p hp) hacc.short hps
      · rw [hp, h.idle.policy] at hps
        exact absurd hps (by decide)
  | credit _ hc hsame => exact ((hs p hp).credit hz (hs _ (Or.inl hc.1))).congr hsame

/-- **An operation keeps every slice in order**, unless it empties one. -/
theorem SlicesOk.step {M : Arch} {s s' : Sys} {o : Op} (hz : 100 ≤ M.HZ) (h : Inv s)
    (hs : SlicesOk M s) (hok : KeepsSlice M s o) (hstep : Step M s o s') : SlicesOk M s' := by
  intro p hp
  rcases hstep.known_or_child hp with hk | hnew
  · exact SliceOk.effect hz h hs hok hk (hstep.effect p hk)
  · obtain ⟨-, hf⟩ := hstep.child p hnew
    exact (SliceOk.inherit (hs _ h.known_curr)).congr hf.child

lemma booted_slicesOk {M : Arch} (hz : 100 ≤ M.HZ) : SlicesOk M (Sys.booted M) := by
  rintro p (hp | hp)
  · have := hp.1
    simp [booted_live] at this
  · rw [booted_idle] at hp
    rw [hp, booted_idle_task]
    refine SliceOk.of_not_regular ?_ ?_ (Nat.zero_le _) (by simp [Task.IsRegular]) <;>
      simp only [initTask] <;> omega

/-- No slice is empty between two operations, so that no tick wraps one around, and no fork
ends in the `BUG()`. -/
structure SlicesLast (M : Arch) (s : Sys) : Prop where
  pos : ∀ p, s.Known p → 1 ≤ (s.task p).timeSlice
  tick : ∀ p, s.Charged p → usub (s.task p).timeSlice 1 + 1 = (s.task p).timeSlice
  fork : ∀ flags c, s.IsFresh c → (s.doFork M flags c).isSome

lemma SlicesOk.last {M : Arch} {s : Sys} (h : Inv s) (hs : SlicesOk M s) : SlicesLast M s where
  pos := fun p hp => (hs p hp).pos
  tick := fun p hp => by
    have hok := hs p (hp.1 ▸ h.known_curr)
    have hZ := M.HZ_lt
    have hle := hok.le
    rw [usub_of_le (by simp only [uintSize]; omega) hok.pos]
    have := hok.pos
    omega
  fork := fun flags c hc => by
    have hpos := (hs _ h.known_curr).pos
    have hcurr : (s.forkCopy c).task (s.forkCopy c).curr = s.task s.curr :=
      Sys.modTask_task_of_ne _ _ _ hc.2.2.symm
    rw [Sys.doFork, Option.isSome_map, Sys.forkShare]
    simp only [hcurr]
    rw [if_neg (by omega)]
    split_ifs <;> rfl

/-- The invariants of a run in which no tick turns a task overdue with an empty slice. -/
lemma reach_slicesOk {M : Arch} (hz : 100 ≤ M.HZ) {ops : List Op} {s : Sys}
    (hok : Along (Sys.exec M) (KeepsSlice M) ops (Sys.booted M))
    (h : run (Sys.exec M) ops (Sys.booted M) = some s) : Inv s ∧ SlicesOk M s :=
  run_induct_along (P := fun s => Inv s ∧ SlicesOk M s)
    (fun _ _ _ hi ho hs => ⟨(exec_step hi.1 hs).inv, hi.2.step hz hi.1 ho (exec_step hi.1 hs)⟩)
    ⟨booted_inv M, booted_slicesOk hz⟩ hok h

/-- **No slice is ever empty** in a run in which no tick turns a task overdue with an empty
slice. -/
theorem reach_slicesLast {M : Arch} (hz : 100 ≤ M.HZ) {ops : List Op} {s : Sys}
    (hok : Along (Sys.exec M) (KeepsSlice M) ops (Sys.booted M))
    (h : run (Sys.exec M) ops (Sys.booted M) = some s) : SlicesLast M s := by
  obtain ⟨hinv, hslices⟩ := reach_slicesOk hz hok h
  exact hslices.last hinv

/-- A run in which a SHORT task turns overdue with a slice of one jiffy. -/
def lastJiffyRun : List Op :=
  [.fork ⟨false, false⟩ 1, .schedule, .setscheduler 0 5 (.readable ⟨0, 5⟩), .tick,
    .fork ⟨false, false⟩ 2]

theorem slicesLast_lastJiffyRun : ∃ s,
    run (Sys.exec .hz100) lastJiffyRun (Sys.booted .hz100) = some s ∧ SlicesLast .hz100 s := by
  obtain ⟨s, hs⟩ := Option.isSome_iff_exists.mp (by decide +kernel :
    (run (Sys.exec .hz100) lastJiffyRun (Sys.booted .hz100)).isSome = true)
  exact ⟨s, hs, reach_slicesLast (by decide) (by decide +kernel) hs⟩

/-- The same run with a request of one millisecond, without the fork. -/
def emptySliceRun : List Op :=
  [.fork ⟨false, false⟩ 1, .schedule, .setscheduler 0 5 (.readable ⟨0, 1⟩), .tick]

/-- At the end of that run the overdue task has no slice. -/
theorem not_slicesLast : ¬ ∀ (M : Arch) (ops : List Op) (s : Sys), 100 ≤ M.HZ →
    run (Sys.exec M) ops (Sys.booted M) = some s → SlicesLast M s := by
  intro hall
  have hrun : ((run (Sys.exec .hz100) emptySliceRun (Sys.booted .hz100)).any fun s =>
      decide (s.live 1 = true ∧ s.idle = 0 ∧ (s.task 1).timeSlice = 0)) = true := by
    decide +kernel
  obtain ⟨s, hs, hbad⟩ := (Option.any_eq_true _ _).mp hrun
  obtain ⟨hlive, hidle, h0⟩ := of_decide_eq_true hbad
  have := (hall _ _ s (by decide) hs).pos 1 (Or.inl ⟨hlive, by rw [hidle]; decide⟩)
  omega

end Os234123.Sched
