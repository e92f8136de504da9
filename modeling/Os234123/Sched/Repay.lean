import Os234123.Sched.Classes
import Os234123.Sched.ForkQueues

/-!
Forking a child and getting its slice back.

* `Steady`: a task keeps its slice but for the ticks it is charged;
* `steady_slice`: ticks and slice add up along a run of such steps;
* `fork_shares`: what a fork leaves a parent that is not overdue, and its child;
* `claim_kept`: the child can be credited back to its parent as long as its slice lasts;
* `Loan`: a fork, a run, and the reaping of the child;
* `repaid_iff`: the parent is charged exactly the ticks used if what is left is within
  `MAX_TIMESLICE`, and if there were two jiffies to share;
* `not_repaid`: a SHORT task that loses most of its slice so.
-/

namespace Os234123.Sched

open Machine

/-! ### A slice that only ticks take from -/

/-- Task `q` neither forks nor reaps, no request for it is accepted, and no tick takes its last
jiffy. -/
def Steady (M : Arch) (q : Tid) (s : Sys) (o : Op) : Prop :=
  s.IsTask q ∧ Childless q s o ∧ match o with
    | .tick => s.Charged q → (s.task q).timeSlice ≠ 1
    | .setscheduler pid policy param =>
        s.findProcessByPid pid ≠ some q ∨ (s.setscheduler M pid policy param).2 ≠ none
    | _ => True

instance (M : Arch) (q : Tid) (s : Sys) (o : Op) : Decidable (Steady M q s o) := by
  unfold Steady
  induction o using Op.casesOn <;> infer_instance

section

variable {M : Arch} {s s' : Sys} {q c : Tid} {o : Op} {ops : List Op} {flags : ForkFlags}

/-- A new nice value changes no slice, and no claim to be credited back. -/
lemma reniced_claim (n : ℤ) (t : Task) : (reniced n t).timeSlice = t.timeSlice
    ∧ (reniced n t).firstTimeSlice = t.firstTimeSlice ∧ (reniced n t).pOpptr = t.pOpptr := by
  simp only [reniced, Sys.renice]
  split_ifs <;> exact ⟨rfl, rfl, rfl⟩

/-- A tick that does not take the last jiffy. -/
lemma TickOf.spends {active expired : ArrayId} {t t' : Task} (h : TickOf M active expired t t')
    (hpos : 1 ≤ t.timeSlice) (hlt : t.timeSlice < uintSize) (hne : t.timeSlice ≠ 1) :
    t'.timeSlice = t.timeSlice - 1 ∧ t'.firstTimeSlice = t.firstTimeSlice := by
  have hspend : usub t.timeSlice 1 = t.timeSlice - 1 := usub_of_le hlt hpos
  have hno : usub t.timeSlice 1 ≠ 0 := by omega
  cases h with
  | spend avg _ => exact ⟨hspend, rfl⟩
  | refillRr hz _ => exact absurd hz hno
  | refillOther _ _ hz _ _ => exact absurd hz hno
  | turnOverdue _ hz _ => exact absurd hz hno
  | turnOther _ hz _ => exact absurd hz hno

/-- What a step does to a steady task: it takes off the slice what it charges, and leaves the
parent and the claim to be credited back unless it orphans the task. -/
lemma Steady.cases (h : Inv s) (hs : s.exec M o = some s') (hok : Steady M q s o)
    (hpos : 1 ≤ (s.task q).timeSlice) (hlt : (s.task q).timeSlice < uintSize) :
    (1 ≤ (s'.task q).timeSlice ∧ charge q s o + (s'.task q).timeSlice = (s.task q).timeSlice)
      ∧ ((∃ r, o = .exit r ∧ (s.task q).pOpptr = s.curr)
        ∨ (s'.task q).firstTimeSlice = (s.task q).firstTimeSlice
          ∧ (s'.task q).pOpptr = (s.task q).pOpptr) := by
  obtain ⟨hq, hch, hno⟩ := hok
  have hc := exec_change h hs (Or.inl hq)
  generalize s'.task q = t at hc
  cases hc with
  | mild hn hm =>
      have h0 : charge q s o = 0 := by
        cases o with
        | tick => exact if_neg hn
        | _ => rfl
      rw [h0, hm.timeSlice, hm.firstTimeSlice, hm.pOpptr]
      exact ⟨⟨hpos, Nat.zero_add _⟩, Or.inr ⟨rfl, rfl⟩⟩
  | tick hc ht =>
      obtain ⟨h1, h2⟩ := ht.spends hpos hlt (hno hc)
      have h0 : charge q s .tick = 1 := if_pos hc
      have hne := hno hc
      rw [h0, h1]
      exact ⟨⟨by omega, by omega⟩, Or.inr ⟨h2, ht.ties.1⟩⟩
  | share hp _ _ => exact absurd hp.symm hch
  | @nice n t _ hm =>
      obtain ⟨h1, h2, h3⟩ := reniced_claim n (s.task q)
      rw [hm.timeSlice, hm.firstTimeSlice, hm.pOpptr, h1, h2, h3]
      exact ⟨⟨hpos, Nat.zero_add _⟩, Or.inr ⟨rfl, rfl⟩⟩
  | change hfind hacc _ _ => exact absurd hacc (hno.resolve_left fun hne => hne hfind)
  | orphan _ ho hm =>
      rw [hm.timeSlice]
      exact ⟨⟨hpos, Nat.zero_add _⟩, Or.inl ⟨_, rfl, ho⟩⟩
  | credit hp _ _ _ => exact absurd hp.symm hch

/-- **The ticks a steady task is charged come out of its slice.** -/
theorem steady_slice (h : Inv s) (hpos : 1 ≤ (s.task q).timeSlice)
    (hlt : (s.task q).timeSlice < uintSize) (hok : Along (Sys.exec M) (Steady M q) ops s)
    (hrun : run (Sys.exec M) ops s = some s') : 1 ≤ (s'.task q).timeSlice
      ∧ tally (Sys.exec M) (charge q) ops s + (s'.task q).timeSlice = (s.task q).timeSlice := by
  have hstep : ∀ s o s', Inv s ∧ 1 ≤ (s.task q).timeSlice ∧ (s.task q).timeSlice < uintSize →
      Steady M q s o → s.exec M o = some s' →
      (Inv s' ∧ 1 ≤ (s'.task q).timeSlice ∧ (s'.task q).timeSlice < uintSize)
        ∧ charge q s o + (s'.task q).timeSlice = (s.task q).timeSlice := by
    rintro s o s' ⟨hi, hpos, hlt⟩ hok hs
    obtain ⟨⟨hpos', hsum⟩, -⟩ := hok.cases hi hs hpos hlt
    exact ⟨⟨(exec_step hi hs).inv, hpos', by omega⟩, hsum⟩
  have hP := run_induct_along (P := fun s => Inv s ∧ 1 ≤ (s.task q).timeSlice
    ∧ (s.task q).timeSlice < uintSize) (fun s o s' hP hok hs => (hstep s o s' hP hok hs).1)
    ⟨h, hpos, hlt⟩ hok hrun
  exact ⟨hP.2.1, tally_add_eq hstep ⟨h, hpos, hlt⟩ hok hrun⟩

/-- **A steady child can be credited back** to a parent that does not exit. -/
theorem claim_kept {p : Tid} (h : Inv s) (hpos : 1 ≤ (s.task c).timeSlice)
    (hlt : (s.task c).timeSlice < uintSize) (hf : (s.task c).firstTimeSlice = true)
    (ho : (s.task c).pOpptr = p)
    (hok : Along (Sys.exec M) (fun s o => Steady M c s o ∧ ∀ r, o = .exit r → s.curr ≠ p) ops s)
    (hrun : run (Sys.exec M) ops s = some s') : (s'.task c).firstTimeSlice = true := by
  have hP : Inv s' ∧ (1 ≤ (s'.task c).timeSlice ∧ (s'.task c).timeSlice < uintSize)
      ∧ (s'.task c).firstTimeSlice = true ∧ (s'.task c).pOpptr = p := by
    refine run_induct_along (P := fun s => Inv s
      ∧ (1 ≤ (s.task c).timeSlice ∧ (s.task c).timeSlice < uintSize)
      ∧ (s.task c).firstTimeSlice = true ∧ (s.task c).pOpptr = p) ?_ ⟨h, ⟨hpos, hlt⟩, hf, ho⟩ hok hrun
    rintro s o s' ⟨hi, ⟨hpos, hlt⟩, hf, ho⟩ ⟨hst, hex⟩ hs
    obtain ⟨⟨hpos', hsum⟩, hclaim⟩ := hst.cases hi hs hpos hlt
    refine ⟨(exec_step hi hs).inv, ⟨hpos', by omega⟩, ?_⟩
    rcases hclaim with ⟨r, hr, hcurr⟩ | ⟨h1, h2⟩
    · exact absurd (hcurr.symm.trans ho) (hex r hr)
    · exact ⟨h1.trans hf, h2.trans ho⟩
  exact hP.2.2.1

/-! ### The fork -/

/-- What a child of a parent that is not overdue starts with. -/
lemma newborn_claim (s : Sys) (flags : ForkFlags) (hov : ¬ (s.task s.curr).IsOverdue) :
    (newborn s flags).timeSlice = uadd (s.task s.curr).timeSlice 1 / 2
      ∧ (newborn s flags).firstTimeSlice = true
      ∧ (flags.cloneParent = false → (newborn s flags).pOpptr = s.curr) := by
  refine ⟨?_, rfl, fun hcp => by simp [newborn, hcp]⟩
  simp only [newborn, Sys.inherit]
  rw [if_neg hov]

/-- **What a fork leaves**, if the parent is not overdue and the fork does not end its slice. -/
lemma fork_shares (h : Inv s) (hs : s.exec M (.fork flags c) = some s')
    (hov : ¬ (s.task s.curr).IsOverdue)
    (hlast : (s.task s.curr).timeSlice = 1 → ¬ s.Charged s.curr) :
    1 ≤ (s.task s.curr).timeSlice
      ∧ (s'.task s.curr).timeSlice = max 1 ((s.task s.curr).timeSlice / 2)
      ∧ (s'.task c).timeSlice = uadd (s.task s.curr).timeSlice 1 / 2
      ∧ (s'.task c).firstTimeSlice = true
      ∧ (flags.cloneParent = false → (s'.task c).pOpptr = s.curr) := by
  have hborn := exec_born h hs
  obtain ⟨h1, h2, h3⟩ := newborn_claim s flags hov
  obtain ⟨s₁, hsh, hc, h0, rfl, -, -, hn, -⟩ := fork_shared h hs
  have hcc : s.curr ≠ c := fun he => hc (he ▸ h.known_curr)
  have hkept := (hn.kept s.curr hcc).timeSlice
  have hhalf := halve_slice hov
  refine ⟨by omega, ?_, hborn.timeSlice.trans h1, hborn.firstTimeSlice.trans h2,
    fun hcp => hborn.pOpptr.trans (h3 hcp)⟩
  by_cases hz : (Sys.halve (s.task s.curr)).timeSlice = 0
  · rw [hkept, hsh.spared hz (hlast (by omega))]
    omega
  · rw [hkept, (hsh.parent hz).1]
    omega

end

/-! ### The loan -/

/-- The classes of parents and the slices they may have: ordinary and round-robin ones at most
`MAX_TIMESLICE`, regular SHORT ones at most the largest request. -/
def MayLend (M : Arch) (t : Task) : Prop :=
  ((t.policy = .other ∨ t.policy = .rr) ∧ t.timeSlice ≤ M.maxTimeslice)
    ∨ t.IsRegular ∧ t.timeSlice ≤ M.jiffiesOf 3000

instance (M : Arch) (t : Task) : Decidable (MayLend M t) := inferInstanceAs (Decidable (_ ∨ _))

/-- Parent `p` and child `c` keep their slices but for the ticks they are charged, and the parent
does not exit. -/
def Undisturbed (M : Arch) (p c : Tid) (s : Sys) (o : Op) : Prop :=
  Steady M p s o ∧ Steady M c s o ∧ match o with
    | .exit _ => s.curr ≠ p
    | _ => True

instance (M : Arch) (p c : Tid) (s : Sys) (o : Op) : Decidable (Undisturbed M p c s o) := by
  unfold Undisturbed
  induction o using Op.casesOn <;> infer_instance

/-- In the reachable state `s` the running task forks `c`, without ending its own slice; it reaps
`c` after an undisturbed run `ops`. -/
structure Loan (M : Arch) (s : Sys) (c : Tid) (s₁ : Sys) (ops : List Op) (s₂ s₃ : Sys) : Prop where
  reach : ∃ pre, run (Sys.exec M) pre (Sys.booted M) = some s
  mayLend : MayLend M (s.task s.curr)
  lasts : (s.task s.curr).timeSlice = 1 → ¬ s.Charged s.curr
  fork : ∃ flags, flags.cloneParent = false ∧ s.exec M (.fork flags c) = some s₁
  along : Along (Sys.exec M) (Undisturbed M s.curr c) ops s₁
  run : run (Sys.exec M) ops s₁ = some s₂
  curr : s₂.curr = s.curr
  reap : s₂.exec M (.reap c) = some s₃

section

variable {M : Arch} {s s₁ s₂ s₃ : Sys} {c : Tid} {ops : List Op}

lemma MayLend.not_overdue {t : Task} (h : MayLend M t) : ¬ t.IsOverdue := by
  rintro ⟨hp, hi⟩
  rcases h with ⟨ho | ho, -⟩ | ⟨hr, -⟩
  · simp [hp] at ho
  · simp [hp] at ho
  · rw [hr.2] at hi
    exact absurd hi (by decide)

lemma MayLend.le {t : Task} (h : MayLend M t) : t.timeSlice ≤ 3 * M.HZ := by
  have hmax : M.maxTimeslice ≤ 3 * M.HZ := by
    simp only [Arch.maxTimeslice]
    omega
  rcases h with ⟨-, hle⟩ | ⟨-, hle⟩
  · exact hle.trans hmax
  · exact hle.trans (M.jiffiesOf_le le_rfl)

/-- The slice of the parent once the child is reaped: what both have left, capped. -/
lemma Loan.credited (h : Loan M s c s₁ ops s₂ s₃) :
    let t := (s.task s.curr).timeSlice
    1 ≤ t ∧ ∃ a b, 1 ≤ a ∧ 1 ≤ b
      ∧ tally (Sys.exec M) (charge s.curr) ops s₁ + a = max 1 (t / 2)
      ∧ tally (Sys.exec M) (charge c) ops s₁ + b = (t + 1) / 2
      ∧ (s₃.task s.curr).timeSlice = min (a + b) M.maxTimeslice := by
  intro t
  obtain ⟨pre, hpre⟩ := h.reach
  obtain ⟨flags, hcp, hfork⟩ := h.fork
  have hi := reach_inv hpre
  obtain ⟨h1, hp₁, hc₁, hf₁, ho₁⟩ := fork_shares hi hfork h.mayLend.not_overdue h.lasts
  have hi₁ := (exec_step hi hfork).inv
  -- no number here is near the size of an `unsigned int`
  have hle := h.mayLend.le
  have hZ := M.HZ_lt
  have hsmall : t + 1 < uintSize := by
    simp only [uintSize]
    omega
  rw [uadd_of_lt hsmall] at hc₁
  obtain ⟨hpa, hpsum⟩ := steady_slice hi₁ (by omega) (by omega)
    (h.along.mono fun _ _ hu => hu.1) h.run
  obtain ⟨hcb, hcsum⟩ := steady_slice hi₁ (by omega) (by omega)
    (h.along.mono fun _ _ hu => hu.2.1) h.run
  have hfirst := claim_kept hi₁ (by omega) (by omega) hf₁ (ho₁ hcp)
    (h.along.mono fun s o hu => ⟨hu.2.1, fun r hr => by
      have hex := hu.2.2
      rw [hr] at hex
      exact hex⟩) h.run
  have hi₂ : Inv s₂ := run_induct (fun s o s' hi hs => (exec_step hi hs).inv) hi₁ h.run
  have hreap := exec_change hi₂ h.reap hi₂.known_curr
  rw [h.curr] at hreap
  refine ⟨h1, _, _, hpa, hcb, hpsum.trans hp₁, hcsum.trans hc₁, ?_⟩
  generalize s₃.task s.curr = u at hreap
  cases hreap with
  | mild hn _ =>
      rcases hn with hne | hne
      · exact absurd h.curr.symm hne
      · rw [hfirst] at hne
        exact absurd hne (by decide)
  | credit _ _ _ hm =>
      rw [hm.timeSlice]
      have hsum : (s₂.task s.curr).timeSlice + (s₂.task c).timeSlice < uintSize := by omega
      exact congrArg (fun n => min n M.maxTimeslice) (uadd_of_lt hsum)

/-- **When forking and reaping charge exactly the ticks used.** -/
theorem repaid_iff (h : Loan M s c s₁ ops s₂ s₃) :
    let t := (s.task s.curr).timeSlice
    let used := tally (Sys.exec M) (charge s.curr) ops s₁ + tally (Sys.exec M) (charge c) ops s₁
    (s₃.task s.curr).timeSlice = t - used
      ↔ t - used ≤ M.maxTimeslice ∧ (2 ≤ t ∨ M.maxTimeslice = 1) := by
  intro t used
  obtain ⟨h1, a, b, ha, hb, hpa, hcb, hres⟩ := h.credited
  have hused : used = tally (Sys.exec M) (charge s.curr) ops s₁
    + tally (Sys.exec M) (charge c) ops s₁ := rfl
  rw [hres]
  by_cases h2 : 2 ≤ t
  · have hsum : a + b = t - used := by omega
    rw [hsum, min_eq_left_iff]
    simp [h2]
  · -- a single jiffy is shared as two
    have ht : t = 1 := by omega
    omega

end

/-! ### Two loans -/

/-- A loan can be found by running it. -/
lemma exists_loan (pre : List Op) (c : Tid) (ops : List Op) (t j k r : ℕ)
    (h : ((run (Sys.exec .hz100) pre (Sys.booted .hz100)).any fun s =>
      decide (MayLend .hz100 (s.task s.curr) ∧ (s.task s.curr).timeSlice = t ∧ t ≠ 1)
        && (s.exec .hz100 (.fork ⟨false, false⟩ c)).any fun s₁ =>
          decide (Along (Sys.exec .hz100) (Undisturbed .hz100 s.curr c) ops s₁
              ∧ tally (Sys.exec .hz100) (charge s.curr) ops s₁ = j
              ∧ tally (Sys.exec .hz100) (charge c) ops s₁ = k)
            && (run (Sys.exec .hz100) ops s₁).any fun s₂ =>
              decide (s₂.curr = s.curr)
                && (s₂.exec .hz100 (.reap c)).any fun s₃ =>
                  decide ((s₃.task s.curr).timeSlice = r)) = true) :
    ∃ s s₁ s₂ s₃, Loan .hz100 s c s₁ ops s₂ s₃ ∧ (s.task s.curr).timeSlice = t
      ∧ tally (Sys.exec .hz100) (charge s.curr) ops s₁ = j
      ∧ tally (Sys.exec .hz100) (charge c) ops s₁ = k ∧ (s₃.task s.curr).timeSlice = r := by
  obtain ⟨s, hs, h⟩ := (Option.any_eq_true _ _).mp h
  obtain ⟨h1, h⟩ := (Bool.and_eq_true _ _).mp h
  obtain ⟨hlend, ht, hne⟩ := of_decide_eq_true h1
  obtain ⟨s₁, hs₁, h⟩ := (Option.any_eq_true _ _).mp h
  obtain ⟨h2, h⟩ := (Bool.and_eq_true _ _).mp h
  obtain ⟨halong, hj, hk⟩ := of_decide_eq_true h2
  obtain ⟨s₂, hs₂, h⟩ := (Option.any_eq_true _ _).mp h
  obtain ⟨h3, h⟩ := (Bool.and_eq_true _ _).mp h
  obtain ⟨s₃, hs₃, h⟩ := (Option.any_eq_true _ _).mp h
  exact ⟨s, s₁, s₂, s₃, ⟨⟨pre, hs⟩, hlend, fun h1 => absurd (ht.symm.trans h1) hne,
    ⟨_, rfl, hs₁⟩, halong, hs₂, of_decide_eq_true h3, hs₃⟩, ht, hj, hk, of_decide_eq_true h⟩

/-- The child of a task exits at once, and the task runs again. -/
def shortLived : List Op := [.schedule, .exit 0, .schedule]

/-- A SHORT task with a request of `r` milliseconds. -/
def borrower (r : ℤ) : List Op :=
  [.fork ⟨false, false⟩ 1, .schedule, .setscheduler 0 5 (.readable ⟨0, r⟩)]

/-- The task uses a tick, its child another one and exits, and the task runs again. -/
def tickEach : List Op := [.tick, .schedule, .tick, .exit 0, .schedule]

/-- Of a request of two hundred milliseconds all is paid back but the two ticks used. -/
theorem repaid_borrower : ∃ s s₁ s₂ s₃, Loan .hz100 s 2 s₁ tickEach s₂ s₃
    ∧ (s₃.task s.curr).timeSlice = 18 := by
  obtain ⟨s, s₁, s₂, s₃, h, ht, hj, hk, -⟩ :=
    exists_loan (borrower 200) 2 tickEach 20 1 1 18 (by decide +kernel)
  have hiff := repaid_iff h
  rw [ht, hj, hk] at hiff
  exact ⟨s, s₁, s₂, s₃, h, hiff.mpr ⟨by decide, Or.inl (by decide)⟩⟩

/-- A task with the largest request gets back ten times less than it had. -/
theorem not_repaid : ¬ ∀ (M : Arch) (s : Sys) (c : Tid) (s₁ : Sys) (ops : List Op) (s₂ s₃ : Sys),
    Loan M s c s₁ ops s₂ s₃ → (s₃.task s.curr).timeSlice = (s.task s.curr).timeSlice
      - (tally (Sys.exec M) (charge s.curr) ops s₁ + tally (Sys.exec M) (charge c) ops s₁) := by
  intro hall
  obtain ⟨s, s₁, s₂, s₃, h, ht, hj, hk, hr⟩ :=
    exists_loan (borrower 3000) 2 shortLived 300 0 0 30 (by decide +kernel)
  have heq := hall .hz100 s 2 s₁ shortLived s₂ s₃ h
  rw [ht, hj, hk, hr] at heq
  exact absurd heq (by decide)

end Os234123.Sched
