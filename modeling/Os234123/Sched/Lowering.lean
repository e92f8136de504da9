import Os234123.Sched.Records
import Os234123.Sched.Requests
import Os234123.Sched.Guards

/-!
How far a regular SHORT task may lower its request.

* `ShortPhase`: a run of a task from becoming regular SHORT, or from being born so;
* `surplus`: what its slice holds above its request, the first slice and the bumps together;
* `ShortPhase.balance`: ticks charged and slice left are worth the request and the surplus;
* `guard_passes_iff`: the guard compares requests and milliseconds left, without wrapping;
* `lowering_iff`: so it measures the time used right exactly when the surplus is small enough and
  the milliseconds left are within the request;
* `not_lowersRight`: a task whose only jiffy is worth more than its request.
-/

namespace Os234123.Sched

open Machine

/-! ### The phase of a SHORT task -/

/-- In a reachable state an operation makes task `p` SHORT, or creates it; from the state `s` it
leads to, `ops` is a run to `s'` during which `p` is regular SHORT and neither forks nor reaps, and
it still is regular SHORT in `s'`. -/
structure ShortPhase (M : Arch) (p : Tid) (s : Sys) (ops : List Op) (s' : Sys) : Prop where
  start : ∃ pre s₀ o, run (Sys.exec M) pre (Sys.booted M) = some s₀ ∧ s₀.exec M o = some s
    ∧ (s₀.IsTask p ∧ (s₀.task p).policy ≠ .short ∨ o.child = some p)
  along : Along (Sys.exec M) (RegularAlone p) ops s
  run : run (Sys.exec M) ops s = some s'
  regular : s'.IsTask p ∧ (s'.task p).IsRegular

/-- A slice that is not empty, and at most `MAX_TIMESLICE` above the request. -/
def SoundSlice (M : Arch) (t : Task) : Prop :=
  1 ≤ t.timeSlice ∧ t.timeSlice ≤ M.jiffiesOf t.requestedTime + M.maxTimeslice

instance (M : Arch) (t : Task) : Decidable (SoundSlice M t) := inferInstanceAs (Decidable (_ ∧ _))

/-- What the slice of task `p` was worth above its request in `s`, and the bumps of the run `ops`
from there. -/
def surplus (M : Arch) (p : Tid) (s : Sys) (ops : List Op) : ℤ :=
  (s.task p).timeSlice - M.jiffiesOf (s.task p).requestedTime + tally (Sys.exec M) (bump M p) ops s

section

variable {M : Arch} {s s' : Sys} {p : Tid} {ops : List Op} {lp : SchedParam} {pid policy : ℤ}

namespace ShortPhase

/-- The state a phase starts in is reachable. -/
lemma reach (h : ShortPhase M p s ops s') :
    ∃ pre, Machine.run (Sys.exec M) pre (Sys.booted M) = some s := by
  obtain ⟨pre, s₀, o, hpre, ho, -⟩ := h.start
  exact ⟨pre ++ [o], run_snoc_eq_some.mpr ⟨s₀, hpre, ho⟩⟩

/-- The task is regular SHORT from the beginning. -/
lemma first (h : ShortPhase M p s ops s') : s.IsTask p ∧ (s.task p).IsRegular := by
  have halong := h.along
  have hrun := h.run
  cases ops with
  | nil =>
      rw [run_nil, Option.some.injEq] at hrun
      exact hrun ▸ h.regular
  | cons o ops => exact ⟨halong.1.1, halong.1.2.1⟩

/-- A task that was not SHORT before starts with a sound slice. -/
lemma sound (h : ShortPhase M p s ops s') (hz : 100 ≤ M.HZ) {pre : List Op} {s₀ : Sys} {o : Op}
    (hpre : Machine.run (Sys.exec M) pre (Sys.booted M) = some s₀) (ho : s₀.exec M o = some s)
    (hp : s₀.IsTask p) (hns : (s₀.task p).policy ≠ .short) : SoundSlice M (s.task p) := by
  have hstep := exec_step (reach_inv hpre) ho
  obtain ⟨-, hT⟩ := (hstep.effect p (Or.inl hp)).becomes hns h.first.2
  have hmax : 1 ≤ M.maxTimeslice := by
    simp only [Arch.maxTimeslice]
    omega
  rw [SoundSlice, hT, firstBump]
  split_ifs <;> omega

/-- **The balance of a SHORT task**: the ticks it was charged and what is left of its slice are
worth its request and the surplus. -/
lemma balance (h : ShortPhase M p s ops s') (hz : 100 ≤ M.HZ) (hs : SoundSlice M (s.task p)) :
    (tally (Sys.exec M) (charge p) ops s : ℤ) + (s'.task p).timeSlice
        = M.jiffiesOf (s'.task p).requestedTime + surplus M p s ops
      ∧ Within M M.maxTimeslice (s'.task p) := by
  obtain ⟨pre, hpre⟩ := h.reach
  obtain ⟨hp, hreg⟩ := h.first
  have hmax : 1 ≤ M.maxTimeslice ∧ M.maxTimeslice ≤ 4 * M.HZ := by
    simp only [Arch.maxTimeslice]
    omega
  have hwithin : Within M M.maxTimeslice (s.task p) :=
    ⟨(reach_fits hpre p (Or.inl hp)).request, Or.inl ⟨hreg, hs.1, hs.2⟩⟩
  obtain ⟨hwithin', hbal⟩ :=
    within_balance (reach_inv hpre) hwithin hmax.1 hmax.2 h.along h.run
  rw [regularLeft, regularLeft, if_pos hreg, if_pos h.regular.2] at hbal
  refine ⟨?_, hwithin'⟩
  rw [surplus]
  linarith

end ShortPhase

/-! ### What the guard compares -/

/-- What is left of the slice, in milliseconds. -/
def Task.leftMs (M : Arch) (t : Task) : ℕ := t.timeSlice * 1000 / M.HZ

/-- The running task may give the regular SHORT task `p` another request. -/
structure MayRequest (s : Sys) (pid policy : ℤ) (p : Tid) (lp : SchedParam) : Prop where
  found : Found s pid p
  policy : requestedPolicy (s.task p) policy = some .short
  owner : Owns s p
  rooted : (s.task s.curr).euid = 0 ∨ (s.task s.curr).euid = (s.task p).euid
  request : 1 ≤ lp.requestedTime ∧ lp.requestedTime ≤ 3000

/-- The guard lets the request `r` pass: the milliseconds left are within the old request, and the
new one is more than what is missing of it. -/
def GuardPasses (M : Arch) (t : Task) (r : ℕ) : Prop :=
  t.leftMs M ≤ t.requestedTime ∧ t.requestedTime < r + t.leftMs M

instance (M : Arch) (t : Task) (r : ℕ) : Decidable (GuardPasses M t r) :=
  inferInstanceAs (Decidable (_ ∧ _))

/-- **When a permitted request is accepted.** -/
lemma guard_passes_iff (hz : 100 ≤ M.HZ) (hw : Within M M.maxTimeslice (s.task p))
    (hreg : (s.task p).IsRegular) (hmay : MayRequest s pid policy p lp) :
    (s.setscheduler M pid policy (.readable lp)).2 = none
      ↔ GuardPasses M (s.task p) lp.requestedTime.toNat := by
  obtain ⟨hr1, hr3⟩ := hmay.request
  have hov : ¬ (s.task p).isShort = -1 := by rw [hreg.2]; decide
  rw [setscheduler_found hmay.found, hmay.policy]
  dsimp only
  rw [setschedulerTask_accepted]
  have hprio : ¬ Sys.BadPriority .short lp := fun hb => hb.1 rfl
  have hshort : ¬ s.BadShort (s.task p) .short := by
    rintro (⟨-, hb⟩ | ⟨-, hb⟩ | ⟨-, -, hb⟩ | ⟨-, h0, hne⟩)
    · exact hb rfl
    · exact hov hb
    · exact hb hreg.1
    · exact hmay.rooted.elim h0 hne
  have hreq : ¬ Sys.BadRequest M (s.task p) .short lp
      ↔ usub (s.task p).requestedTime (umul (s.task p).timeSlice 1000 / M.HZ)
        < toUint lp.requestedTime := by
    simp only [Sys.BadRequest, hreg.1, true_and, not_or, not_le, not_lt]
    exact ⟨And.left, fun hlt => ⟨hlt, hr3, hr1⟩⟩
  have hT : (s.task p).timeSlice ≤ 7 * M.HZ := by
    obtain ⟨hR, hcase⟩ := hw
    have hjR := M.jiffiesOf_le hR
    have hle := (hcase.resolve_right fun ho => hov ho.2).2.2
    simp only [Arch.maxTimeslice] at hle
    omega
  have hms : (s.task p).leftMs M ≤ 7000 := by
    refine Nat.div_le_of_le_mul ?_
    calc (s.task p).timeSlice * 1000 ≤ 7 * M.HZ * 1000 := Nat.mul_le_mul_right _ hT
      _ = M.HZ * 7000 := by ring
  have hmul : umul (s.task p).timeSlice 1000 = (s.task p).timeSlice * 1000 := by
    have hZ := M.HZ_lt
    refine umul_of_lt ?_
    simp only [uintSize]
    omega
  obtain ⟨r, hr⟩ : ∃ r : ℕ, lp.requestedTime = r := ⟨lp.requestedTime.toNat, by omega⟩
  have hleft : (s.task p).timeSlice * 1000 / M.HZ = (s.task p).leftMs M := rfl
  have hguard : usub (s.task p).requestedTime ((s.task p).leftMs M) < r
      ↔ (s.task p).leftMs M ≤ (s.task p).requestedTime
        ∧ (s.task p).requestedTime < r + (s.task p).leftMs M := by
    have hR := hw.1
    by_cases hle : (s.task p).leftMs M ≤ (s.task p).requestedTime
    · rw [usub_of_le (by simp only [uintSize]; omega) hle]
      omega
    · -- the difference wraps, and is larger than any request
      rw [usub_of_lt (by simp only [uintSize]; omega) (not_le.mp hle)]
      simp only [uintSize]
      omega
  rw [hreq, hmul, hleft, hr, toUint_of_lt (by simp only [uintSize]; omega), hguard, GuardPasses,
    Int.toNat_natCast]
  simp [hprio, hshort, hmay.owner]

/-! ### Lowering a request -/

/-- A request that is not below the present one is accepted, and an accepted one is worth at least
the ticks charged since the task became SHORT. -/
def LowersRight (M : Arch) (p : Tid) (s : Sys) (ops : List Op) (s' : Sys) (pid policy : ℤ)
    (lp : SchedParam) : Prop :=
  let accepted := (s'.setscheduler M pid policy (.readable lp)).2 = none
  ((s'.task p).requestedTime ≤ lp.requestedTime.toNat → accepted)
    ∧ (accepted → tally (Sys.exec M) (charge p) ops s ≤ M.jiffiesOf lp.requestedTime.toNat)

/-- The milliseconds left are within the request, unless the new request `r` is below it; and where
the guard passes, the surplus is at most what the new request leaves over the jiffies used. -/
def MeasuresRight (M : Arch) (t : Task) (r : ℕ) (surplus : ℤ) : Prop :=
  (t.leftMs M ≤ t.requestedTime ∨ r < t.requestedTime)
    ∧ (GuardPasses M t r → M.jiffiesOf t.requestedTime + surplus ≤ M.jiffiesOf r + t.timeSlice)

/-- **When the time used cannot be taken back.** -/
theorem lowering_iff (hz : 100 ≤ M.HZ) (hz' : M.HZ ≤ 1000) (h : ShortPhase M p s ops s')
    (hs : SoundSlice M (s.task p)) (hmay : MayRequest s' pid policy p lp) :
    LowersRight M p s ops s' pid policy lp
      ↔ MeasuresRight M (s'.task p) lp.requestedTime.toNat (surplus M p s ops) := by
  obtain ⟨hbal, hw⟩ := h.balance hz hs
  have hacc := guard_passes_iff hz hw h.regular.2 hmay
  have hpos : 1 ≤ (s'.task p).leftMs M := by
    have hT := (hw.2.resolve_right fun ho => absurd ho.2 (by rw [h.regular.2.2]; decide)).2.1
    rw [Task.leftMs, Nat.le_div_iff_mul_le M.HZ_pos]
    omega
  simp only [LowersRight, MeasuresRight, hacc]
  refine and_congr ?_ (imp_congr_right fun _ => ?_)
  · simp only [GuardPasses]
    omega
  · omega

/-- Without a surplus the guard is right about the time used. -/
theorem lowersRight_of_surplus (hz : 100 ≤ M.HZ) (hz' : M.HZ ≤ 1000) (h : ShortPhase M p s ops s')
    (hs : SoundSlice M (s.task p)) (hmay : MayRequest s' pid policy p lp)
    (hsur : surplus M p s ops ≤ 0) (hle : (s'.task p).leftMs M ≤ (s'.task p).requestedTime) :
    LowersRight M p s ops s' pid policy lp := by
  refine (lowering_iff hz hz' h hs hmay).mpr ⟨Or.inl hle, fun hg => ?_⟩
  have hms : (s'.task p).leftMs M * M.HZ ≤ (s'.task p).timeSlice * 1000 := Nat.div_mul_le_self _ _
  have hmul : (s'.task p).requestedTime * M.HZ
      ≤ lp.requestedTime.toNat * M.HZ + (s'.task p).timeSlice * 1000 := by
    calc (s'.task p).requestedTime * M.HZ
        ≤ (lp.requestedTime.toNat + (s'.task p).leftMs M) * M.HZ := Nat.mul_le_mul_right _ hg.2.le
      _ = lp.requestedTime.toNat * M.HZ + (s'.task p).leftMs M * M.HZ := Nat.add_mul ..
      _ ≤ _ := by omega
  have hj : M.jiffiesOf (s'.task p).requestedTime
      ≤ M.jiffiesOf lp.requestedTime.toNat + (s'.task p).timeSlice := by
    calc M.jiffiesOf (s'.task p).requestedTime
        ≤ (lp.requestedTime.toNat * M.HZ + (s'.task p).timeSlice * 1000) / 1000 :=
          Nat.div_le_div_right hmul
      _ = _ := Nat.add_mul_div_right _ _ (by decide)
  omega

end

/-! ### Two requests of one task -/

/-- A phase that starts with a request for thirty milliseconds, and a request at its end, can be
found by running it. -/
lemma exists_lowering (ops : List Op) (r k : ℕ) (hr : 1 ≤ r ∧ r ≤ 3000)
    (h : ((run (Sys.exec .hz100) firstRun (Sys.booted .hz100)).any fun s₀ =>
      decide (s₀.IsTask 1 ∧ (s₀.task 1).policy ≠ .short)
        && (s₀.exec .hz100 request30).any fun s =>
          decide (Along (Sys.exec .hz100) (RegularAlone 1) ops s
              ∧ tally (Sys.exec .hz100) (charge 1) ops s = k)
            && (run (Sys.exec .hz100) ops s).any fun s' =>
              decide ((s'.IsTask 1 ∧ (s'.task 1).IsRegular) ∧ s'.findProcessByPid 0 = some 1
                ∧ Owns s' 1 ∧ (s'.task s'.curr).euid = 0
                ∧ (s'.setscheduler .hz100 0 5 (.readable ⟨0, r⟩)).2 = none)) = true) :
    ∃ s s', ShortPhase .hz100 1 s ops s' ∧ SoundSlice .hz100 (s.task 1)
      ∧ MayRequest s' 0 5 1 ⟨0, r⟩ ∧ tally (Sys.exec .hz100) (charge 1) ops s = k
      ∧ (s'.setscheduler .hz100 0 5 (.readable ⟨0, r⟩)).2 = none := by
  obtain ⟨s₀, hs₀, h⟩ := (Option.any_eq_true _ _).mp h
  obtain ⟨h1, h⟩ := (Bool.and_eq_true _ _).mp h
  obtain ⟨hp, hns⟩ := of_decide_eq_true h1
  obtain ⟨s, hs, h⟩ := (Option.any_eq_true _ _).mp h
  obtain ⟨h2, h⟩ := (Bool.and_eq_true _ _).mp h
  obtain ⟨halong, hk⟩ := of_decide_eq_true h2
  obtain ⟨s', hs', h⟩ := (Option.any_eq_true _ _).mp h
  obtain ⟨hreg, hfind, hown, hroot, hacc⟩ := of_decide_eq_true h
  have hphase : ShortPhase .hz100 1 s ops s' :=
    ⟨⟨firstRun, s₀, request30, hs₀, hs, Or.inl ⟨hp, hns⟩⟩, halong, hs', hreg⟩
  have hmay : MayRequest s' 0 5 1 ⟨0, r⟩ :=
    ⟨⟨le_rfl, hfind⟩, rfl, hown, Or.inl hroot, by dsimp only; omega⟩
  exact ⟨s, s', hphase, hphase.sound (by decide) hs₀ hs hp hns, hmay, hk, hacc⟩

/-- Two ticks, and a change of the request to what has been used up. -/
def loweredRun : List Op := [.tick, .tick, .setscheduler 0 5 (.readable ⟨0, 21⟩)]

theorem lowering_loweredRun : ∃ s s', ShortPhase .hz100 1 s loweredRun s'
    ∧ (LowersRight .hz100 1 s loweredRun s' 0 5 ⟨0, 12⟩
      ↔ MeasuresRight .hz100 (s'.task 1) 12 (surplus .hz100 1 s loweredRun)) := by
  obtain ⟨s, s', h, hs, hmay, -⟩ :=
    exists_lowering loweredRun 12 2 (by decide) (by decide +kernel)
  exact ⟨s, s', h, lowering_iff (by decide) (by decide) h hs hmay⟩

/-- In that run the task has been charged two ticks, and may ask for twelve milliseconds, worth one
tick. -/
theorem not_lowersRight : ¬ ∀ (M : Arch) (p : Tid) (s : Sys) (ops : List Op) (s' : Sys)
    (pid policy : ℤ) (lp : SchedParam), 100 ≤ M.HZ → M.HZ ≤ 1000 → ShortPhase M p s ops s' →
      MayRequest s' pid policy p lp → LowersRight M p s ops s' pid policy lp := by
  intro hall
  obtain ⟨s, s', h, -, hmay, hk, hacc⟩ :=
    exists_lowering loweredRun 12 2 (by decide) (by decide +kernel)
  have hle := (hall .hz100 1 s loweredRun s' 0 5 ⟨0, 12⟩ (by decide) (by decide) h hmay).2 hacc
  rw [hk] at hle
  exact absurd hle (by decide)

end Os234123.Sched
