import Os234123.Sched.Classes

/-!
How long a task may run as a regular SHORT task when its request changes.

* `RegularPhase`: a run of a task from becoming regular SHORT, without forking or reaping;
* `bump`: an accepted change of the request that finds nothing left, and leaves one jiffy;
* `within_balance`: the ticks charged and what is left add up to the last request and the bumps;
* `regularPhase_ticks`: so the maximum holds exactly when last request and bumps stay within it;
* `not_ticks_le`: a run in which they do not.
-/

namespace Os234123.Sched

open Machine

/-! ### Bumps -/

/-- Task `p` is a regular SHORT task, and neither forks nor reaps. -/
def RegularAlone (p : Tid) (s : Sys) (o : Op) : Prop :=
  s.IsTask p ∧ (s.task p).IsRegular ∧ Childless p s o

instance (p : Tid) (s : Sys) (o : Op) : Decidable (RegularAlone p s o) :=
  inferInstanceAs (Decidable (_ ∧ _))

/-- The operation is an accepted change of the request of `p` to one worth just the ticks that
are used up: the new slice is empty, and bumped to one jiffy. -/
def bump (M : Arch) (p : Tid) (s : Sys) : Op → ℕ
  | .setscheduler pid policy (.readable lp) =>
      if s.findProcessByPid pid = some p
          ∧ (s.setscheduler M pid policy (.readable lp)).2 = none
          ∧ M.jiffiesOf lp.requestedTime.toNat + (s.task p).timeSlice
            = M.jiffiesOf (s.task p).requestedTime
      then 1 else 0
  | _ => 0

/-- The bump of a task whose first request is below one jiffy. -/
def firstBump (M : Arch) (t : Task) : ℕ := if M.jiffiesOf t.requestedTime = 0 then 1 else 0

lemma bump_of_spares {M : Arch} {p : Tid} {s : Sys} {o : Op} (h : Spares M s p o) :
    charge p s o = 0 ∧ bump M p s o = 0 := by
  cases o with
  | tick => exact ⟨if_neg h, rfl⟩
  | setscheduler pid policy param =>
      refine ⟨rfl, ?_⟩
      cases param with
      | readable lp =>
          rcases h with h | h
          · exact if_neg fun hc => h hc.1
          · exact if_neg fun hc => h hc.2.1
      | _ => rfl
  | _ => exact ⟨rfl, rfl⟩

/-! ### The balance -/

/-- What is left of the slice of a regular SHORT task, less its whole request. -/
def regularLeft (M : Arch) (p : Tid) (s : Sys) : ℤ :=
  (if (s.task p).IsRegular then ((s.task p).timeSlice : ℤ) else 0)
    - M.jiffiesOf (s.task p).requestedTime

/-- A regular SHORT task with something left of its slice, at most `d` jiffies above its request,
or a task that has turned overdue. -/
def Within (M : Arch) (d : ℕ) (t : Task) : Prop :=
  t.requestedTime ≤ 3000 ∧ (t.IsRegular ∧ 1 ≤ t.timeSlice
    ∧ t.timeSlice ≤ M.jiffiesOf t.requestedTime + d ∨ t.IsOverdue)

/-- The slice of a regular SHORT task after an accepted change of its request. -/
lemma newParams_regular {M : Arch} {s : Sys} {p : Tid} {pol : Policy} {lp : SchedParam}
    (hacc : Accepts M s p pol lp) (hreg : (s.task p).IsRegular)
    (hR : (s.task p).requestedTime ≤ 3000) (hT : (s.task p).timeSlice ≤ 7 * M.HZ) :
    let t := Sys.newParams M (s.task p) pol lp
    let r := lp.requestedTime.toNat
    t.IsRegular ∧ t.requestedTime = r ∧ r ≤ 3000
      ∧ M.jiffiesOf (s.task p).requestedTime ≤ M.jiffiesOf r + (s.task p).timeSlice
      ∧ t.timeSlice
        = max 1 (M.jiffiesOf r + (s.task p).timeSlice - M.jiffiesOf (s.task p).requestedTime) := by
  intro t r
  have hpol : pol = .short := by
    by_contra hne
    exact hacc.short (Or.inl ⟨hreg.1, hne⟩)
  subst hpol
  have hr : 1 ≤ lp.requestedTime ∧ lp.requestedTime ≤ 3000 := by
    have := hacc.request
    simp only [Sys.BadRequest, true_and, not_or, not_lt] at this
    exact ⟨this.2.2, this.2.1⟩
  have ht : t = _ := (newParams_short M (s.task p) lp).trans (by rw [shortParams_eq])
  have hr0 : ¬ r = 0 := by omega
  refine ⟨?_, ?_, by omega, jiffiesOf_le_of_request hreg.1 hT hR hacc.request, ?_⟩
  · rw [ht]
    exact ⟨rfl, by simp [hreg.1, hreg.2]⟩
  · rw [ht]
    exact if_neg hr0
  · rw [ht]
    simp only [newSlice_eq hreg.1 hT hR hacc.request]
    split_ifs with h0
    · rw [h0]
      rfl
    · exact (max_eq_right (Nat.one_le_iff_ne_zero.mpr h0)).symm

/-- One step of a regular SHORT task. -/
lemma Effect.within {M : Arch} {s s' : Sys} {o : Op} {p : Tid} {d : ℕ}
    (he : Effect M s p o (s'.task p)) (hok : RegularAlone p s o) (huse : Within M d (s.task p))
    (hd : 1 ≤ d) (hdM : d ≤ 4 * M.HZ) : Within M d (s'.task p)
      ∧ (charge p s o : ℤ) + regularLeft M p s' = bump M p s o + regularLeft M p s := by
  obtain ⟨-, hreg, hch⟩ := hok
  have hnov : ¬ (s.task p).IsOverdue := fun hov => by
    have h1 := hreg.2
    have h2 := hov.2
    omega
  obtain ⟨hR, huse⟩ := huse
  obtain ⟨-, hpos, hle⟩ := huse.resolve_right hnov
  have hjR := M.jiffiesOf_le hR
  have hZ := M.HZ_pos
  have hT : (s.task p).timeSlice ≤ 7 * M.HZ := by omega
  have hlt : (s.task p).timeSlice < uintSize := by
    have := M.HZ_lt
    simp only [uintSize]
    omega
  have hleft : regularLeft M p s
      = (s.task p).timeSlice - M.jiffiesOf (s.task p).requestedTime := by
    rw [regularLeft, if_pos hreg]
  have hspend : usub (s.task p).timeSlice 1 = (s.task p).timeSlice - 1 := usub_of_le hlt hpos
  rw [hleft]
  simp only [regularLeft]
  generalize s'.task p = t at he
  cases he with
  | keep hn hsame =>
      obtain ⟨h1, h2⟩ := bump_of_spares hn
      have hreg' : t.IsRegular := ⟨hsame.policy.trans hreg.1, hsame.isShort.trans hreg.2⟩
      rw [Within, hsame.requestedTime, hsame.timeSlice, if_pos hreg', h1, h2]
      exact ⟨⟨hR, Or.inl ⟨hreg', hpos, hle⟩⟩, rfl⟩
  | tick hc ht =>
      have h1 : charge p s .tick = 1 := if_pos hc
      have h2 : bump M p s .tick = 0 := rfl
      rw [h1, h2]
      cases ht with
      | spend avg hne =>
          rw [hspend] at hne
          rw [if_pos ⟨hreg.1, hreg.2⟩, hspend]
          refine ⟨⟨hR, Or.inl ⟨⟨hreg.1, hreg.2⟩, Nat.one_le_iff_ne_zero.mpr hne, ?_⟩⟩, ?_⟩
          · exact (Nat.sub_le _ _).trans hle
          · push_cast [hpos]
            ring
      | refillRr _ hp => exact absurd (hp.symm.trans hreg.1) (by decide)
      | refillOther _ _ _ hp _ => exact absurd (hp.symm.trans hreg.1) (by decide)
      | turnOverdue avg hz _ =>
          have h1 : (s.task p).timeSlice = 1 := by omega
          rw [if_neg fun h => absurd h.2 (by simp [Sys.turnOverdue]), h1]
          refine ⟨⟨hR, Or.inr ⟨hreg.1, rfl⟩⟩, ?_⟩
          push_cast
          ring_nf
          rfl
      | turnOther _ _ hov => exact absurd hov hnov
  | share hp _ _ => exact absurd hp.symm hch
  | @change pid policy lp pol t hfind hacc' hacc hsame =>
      obtain ⟨hreg', hr, hr3, hworth, hslice⟩ := newParams_regular hacc hreg hR hT
      have hregt : t.IsRegular :=
        ⟨hsame.policy.trans hreg'.1, hsame.isShort.trans hreg'.2⟩
      have hc : charge p s (.setscheduler pid policy (.readable lp)) = 0 := rfl
      rw [Within, if_pos hregt, hsame.requestedTime, hsame.timeSlice, hr, hslice, hc]
      have hb : bump M p s (.setscheduler pid policy (.readable lp))
          = if M.jiffiesOf lp.requestedTime.toNat + (s.task p).timeSlice
              = M.jiffiesOf (s.task p).requestedTime then 1 else 0 := by
        simp only [bump, hfind, hacc', true_and]
      rw [hb]
      refine ⟨⟨hr3, Or.inl ⟨hregt, le_max_left _ _, ?_⟩⟩, ?_⟩
      · exact max_le (by omega) (by omega)
      · split_ifs with h0 <;> omega
  | credit hp _ _ => exact absurd hp.symm hch

/-- **The balance of a regular SHORT task**: the ticks it is charged come out of its slice, its
requests and the bumps. -/
theorem within_balance {M : Arch} {ops : List Op} {s s' : Sys} {p : Tid} {d : ℕ} (h : Inv s)
    (huse : Within M d (s.task p)) (hd : 1 ≤ d) (hdM : d ≤ 4 * M.HZ)
    (hok : Along (Sys.exec M) (RegularAlone p) ops s) (hrun : run (Sys.exec M) ops s = some s') :
    Within M d (s'.task p)
      ∧ (tally (Sys.exec M) (charge p) ops s : ℤ) + regularLeft M p s'
        = tally (Sys.exec M) (bump M p) ops s + regularLeft M p s := by
  have hstep : ∀ s o s', Inv s ∧ Within M d (s.task p) → RegularAlone p s o →
      s.exec M o = some s' → (Inv s' ∧ Within M d (s'.task p))
        ∧ (charge p s o : ℤ) + regularLeft M p s' = bump M p s o + regularLeft M p s := by
    rintro s o s' ⟨hi, hP⟩ hok hs
    have hst := exec_step hi hs
    obtain ⟨hP', hbal⟩ := (hst.effect p (Or.inl hok.1)).within hok hP hd hdM
    exact ⟨⟨hst.inv, hP'⟩, hbal⟩
  exact ⟨(run_induct_along (fun s o s' hP hok hs => (hstep s o s' hP hok hs).1) ⟨h, huse⟩ hok
    hrun).2, tally_balance hstep ⟨h, huse⟩ hok hrun⟩

/-! ### The phase of a regular SHORT task -/

/-- In a reachable state an operation makes task `p` regular SHORT; from the state `s` it leads
to, `ops` is a run to `s'` during which `p` is regular SHORT and neither forks nor reaps.  In
`s'` it may have turned overdue. -/
structure RegularPhase (M : Arch) (p : Tid) (s : Sys) (ops : List Op) (s' : Sys) : Prop where
  start : ∃ pre s₀ o, run (Sys.exec M) pre (Sys.booted M) = some s₀ ∧ s₀.IsTask p
    ∧ (s₀.task p).policy ≠ .short ∧ s₀.exec M o = some s
  regular : (s.task p).IsRegular
  along : Along (Sys.exec M) (RegularAlone p) ops s
  run : run (Sys.exec M) ops s = some s'

/-- A task that becomes regular SHORT starts with its request, or with one jiffy if that is less
than one. -/
lemma Effect.becomes {M : Arch} {s : Sys} {o : Op} {p : Tid} {t : Task} (he : Effect M s p o t)
    (hp : (s.task p).policy ≠ .short) (hreg : t.IsRegular) : t.requestedTime ≤ 3000
      ∧ t.timeSlice = M.jiffiesOf t.requestedTime + firstBump M t := by
  have htick : ∀ {active expired u u'}, TickOf M active expired u u' →
      u.policy = (s.task p).policy → u'.policy ≠ .short := by
    intro active expired u u' ht hpol
    rw [← hpol] at hp
    cases ht with
    | turnOther => simp [Sys.turnOther]
    | _ => exact hp
  cases he with
  | keep _ hsame => exact absurd (hsame.policy.symm.trans hreg.1) hp
  | tick _ ht => exact absurd hreg.1 (htick ht rfl)
  | share _ ht hsame =>
      obtain ⟨hpol, -, -, -⟩ := SliceOk.halve_core (s.task p)
      have hps := hsame.policy.symm.trans hreg.1
      cases ht with
      | charged _ ht => exact absurd hps (htick ht hpol)
      | _ => exact absurd (hpol.symm.trans hps) hp
  | @change pid policy lp pol t hfind hok hacc hsame =>
      have hps := hsame.policy.symm.trans hreg.1
      by_cases hpol : pol = .short
      swap
      · rw [newParams_of_ne M _ hpol] at hps
        exact absurd hps hpol
      subst hpol
      have hr : 1 ≤ lp.requestedTime ∧ lp.requestedTime ≤ 3000 := by
        have := hacc.request
        simp only [Sys.BadRequest, true_and, not_or, not_lt] at this
        exact ⟨this.2.2, this.2.1⟩
      have hr0 : ¬ lp.requestedTime.toNat = 0 := by omega
      rw [newParams_short, shortParams_eq, if_neg hr0, newSlice, if_neg hp] at hsame
      have hreq : t.requestedTime = lp.requestedTime.toNat := hsame.requestedTime
      have hts : t.timeSlice = if M.jiffiesOf lp.requestedTime.toNat = 0 then 1
        else M.jiffiesOf lp.requestedTime.toNat := hsame.timeSlice
      rw [hreq, hts, firstBump, hreq]
      refine ⟨by omega, ?_⟩
      split_ifs with h0 <;> omega
  | credit _ _ hsame => exact absurd (hsame.policy.symm.trans hreg.1) hp

/-- The bumps of a phase, the first one included. -/
def bumps (M : Arch) (p : Tid) (s : Sys) (ops : List Op) : ℕ :=
  firstBump M (s.task p) + tally (Sys.exec M) (bump M p) ops s

/-- The ticks of a phase are worth the last request and the bumps, less what is left. -/
lemma RegularPhase.balance {M : Arch} {p : Tid} {s s' : Sys} {ops : List Op}
    (h : RegularPhase M p s ops s') :
    tally (Sys.exec M) (charge p) ops s
        + (if (s'.task p).IsRegular then (s'.task p).timeSlice else 0)
      = M.jiffiesOf (s'.task p).requestedTime + bumps M p s ops := by
  obtain ⟨pre, s₀, o, hpre, hp, hns, ho⟩ := h.start
  have hstep := exec_step (reach_inv hpre) ho
  obtain ⟨hR, hT⟩ := (hstep.effect p (Or.inl hp)).becomes hns h.regular
  have huse : Within M 1 (s.task p) := by
    refine ⟨hR, Or.inl ⟨h.regular, ?_, ?_⟩⟩
    · rw [hT, firstBump]
      split_ifs <;> omega
    · rw [hT, firstBump]
      split_ifs <;> omega
  have hZ := M.HZ_pos
  have hbal := (within_balance hstep.inv huse le_rfl (by omega) h.along h.run).2
  rw [regularLeft, regularLeft, if_pos h.regular, hT] at hbal
  simp only [bumps]
  split_ifs at hbal ⊢ <;> push_cast at hbal <;> omega

/-- **How many ticks a regular SHORT task is charged.**  If the last request and the bumps are
within the maximum, so are the ticks; once the task has turned overdue, only then. -/
theorem regularPhase_ticks {M : Arch} {p : Tid} {s s' : Sys} {ops : List Op}
    (h : RegularPhase M p s ops s') :
    (M.jiffiesOf (s'.task p).requestedTime + bumps M p s ops ≤ max 1 (M.jiffiesOf 3000) →
        tally (Sys.exec M) (charge p) ops s ≤ max 1 (M.jiffiesOf 3000))
      ∧ ((s'.task p).IsOverdue →
        (tally (Sys.exec M) (charge p) ops s ≤ max 1 (M.jiffiesOf 3000) ↔
          M.jiffiesOf (s'.task p).requestedTime + bumps M p s ops
            ≤ max 1 (M.jiffiesOf 3000))) := by
  have hbal := h.balance
  refine ⟨fun hle => ?_, fun hov => ?_⟩
  · omega
  · have hnreg : ¬ (s'.task p).IsRegular := fun hr => by
      have h1 := hr.2
      have h2 := hov.2
      omega
    rw [if_neg hnreg, Nat.add_zero] at hbal
    rw [hbal]

/-! ### Two phases -/

/-- A task runs for the first time. -/
def firstRun : List Op := [.fork ⟨false, false⟩ 1, .schedule]

/-- It asks for thirty milliseconds. -/
def request30 : Op := .setscheduler 0 5 (.readable ⟨0, 30⟩)

/-- A phase that starts so and charges `n` ticks can be found by running it. -/
lemma exists_phase (ops : List Op) (n : ℕ)
    (h : ((run (Sys.exec .hz100) firstRun (Sys.booted .hz100)).any fun s₀ =>
      decide (s₀.IsTask 1 ∧ (s₀.task 1).policy ≠ .short)
        && (s₀.exec .hz100 request30).any fun s =>
          decide ((s.task 1).IsRegular ∧ Along (Sys.exec .hz100) (RegularAlone 1) ops s
            ∧ tally (Sys.exec .hz100) (charge 1) ops s = n)
          && (run (Sys.exec .hz100) ops s).isSome) = true) :
    ∃ s s', RegularPhase .hz100 1 s ops s' ∧ tally (Sys.exec .hz100) (charge 1) ops s = n := by
  obtain ⟨s₀, hs₀, h⟩ := (Option.any_eq_true _ _).mp h
  obtain ⟨h1, h⟩ := (Bool.and_eq_true _ _).mp h
  obtain ⟨hp, hns⟩ := of_decide_eq_true h1
  obtain ⟨s, hs, h⟩ := (Option.any_eq_true _ _).mp h
  obtain ⟨h2, h⟩ := (Bool.and_eq_true _ _).mp h
  obtain ⟨hreg, halong, hn⟩ := of_decide_eq_true h2
  obtain ⟨s', hs'⟩ := Option.isSome_iff_exists.mp h
  exact ⟨s, s', ⟨⟨firstRun, s₀, request30, hs₀, hp, hns, hs⟩, hreg, halong, hs'⟩, hn⟩

theorem regularPhase_ticks_three : ∃ s s',
    RegularPhase .hz100 1 s [.tick, .tick, .tick] s'
      ∧ (Arch.hz100.jiffiesOf (s'.task 1).requestedTime
          + bumps .hz100 1 s [.tick, .tick, .tick] ≤ max 1 (Arch.hz100.jiffiesOf 3000) →
        tally (Sys.exec .hz100) (charge 1) [.tick, .tick, .tick] s
          ≤ max 1 (Arch.hz100.jiffiesOf 3000)) := by
  obtain ⟨s, s', h, -⟩ := exists_phase [.tick, .tick, .tick] 3 (by decide +kernel)
  exact ⟨s, s', h, (regularPhase_ticks h).1⟩

/-- Two ticks, two changes of the request to what has been used up, one to the maximum, and the
ticks until the task turns overdue. -/
def bumpedRun : List Op :=
  [.tick, .tick, .setscheduler 0 5 (.readable ⟨0, 21⟩), .setscheduler 0 5 (.readable ⟨0, 12⟩),
    .setscheduler 0 5 (.readable ⟨0, 3000⟩)] ++ List.replicate 300 .tick

/-- In that run the task is charged 302 ticks, two more than the maximum. -/
theorem not_ticks_le : ¬ ∀ (M : Arch) (p : Tid) (s : Sys) (ops : List Op) (s' : Sys),
    100 ≤ M.HZ → M.HZ ≤ 1000 → RegularPhase M p s ops s' →
      tally (Sys.exec M) (charge p) ops s ≤ max 1 (M.jiffiesOf 3000) := by
  intro hall
  obtain ⟨s, s', h, hn⟩ := exists_phase bumpedRun 302 (by decide +kernel)
  have := hall .hz100 1 s bumpedRun s' (by decide) (by decide) h
  rw [hn] at this
  exact absurd this (by decide)

end Os234123.Sched
