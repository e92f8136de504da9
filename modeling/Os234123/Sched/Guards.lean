import Os234123.Sched.Boot

/-!
The guards of `setscheduler`.

* `requestedPolicy`: the policy a call asks for;
* `MaySet`: who may give which task which policy and parameters;
* `setschedulerTask_accepted`: what the guards let through, one by one;
* `SetschedulerOk`: the call succeeds exactly when it may, and a refused one changes nothing;
* `MisreadPriority`: the calls on which the test of the priority of an ordinary task goes wrong;
* `setschedulerOk_iff`: the call is right on all others, and only on them.
-/

namespace Os234123.Sched

open Machine

/-! ### Who may ask for what -/

/-- The policy a call asks for; a negative number stands for the one the task has. -/
def requestedPolicy (t : Task) (policy : ℤ) : Option Policy :=
  if policy < 0 then some t.policy else Policy.ofInt policy

/-- The running task owns task `p`, or may renice any. -/
def Owns (s : Sys) (p : Tid) : Prop :=
  (s.task s.curr).euid = (s.task p).euid ∨ (s.task s.curr).euid = (s.task p).uid
    ∨ (s.task s.curr).capSysNice = true

instance (s : Sys) (p : Tid) : Decidable (Owns s p) := inferInstanceAs (Decidable (_ ∨ _))

/-- The running task may give task `p` the policy `pol` with the parameters `lp`. -/
structure MaySet (M : Arch) (s : Sys) (p : Tid) (pol : Policy) (lp : SchedParam) : Prop where
  realTime : pol = .fifo ∨ pol = .rr → 1 ≤ lp.schedPriority
    ∧ lp.schedPriority ≤ (maxUserRtPrio : ℤ) - 1 ∧ (s.task s.curr).capSysNice = true
  other : pol = .other → lp.schedPriority = 0
  request : pol = .short → 1 ≤ lp.requestedTime ∧ lp.requestedTime ≤ 3000
  target : pol = .short → (s.task p).policy = .other ∨ (s.task p).IsRegular
  rooted : pol = .short →
    (s.task s.curr).euid = 0 ∨ (s.task s.curr).euid = (s.task p).euid
  used : pol = .short → (s.task p).policy = .short →
    usub (s.task p).requestedTime (umul (s.task p).timeSlice 1000 / M.HZ) < toUint lp.requestedTime
  owner : Owns s p
  stays : (s.task p).policy = .short → pol = .short

section

variable {M : Arch} {s : Sys} {p : Tid} {pol : Policy} {lp : SchedParam}

/-! ### What the guards let through -/

lemma capable_snd (s : Sys) : s.capable.2 = (s.task s.curr).capSysNice := by
  cases h : (s.task s.curr).capSysNice <;> simp [Sys.capable, h]

/-- A check that may ask `capable`. -/
lemma ite_capable_snd (s : Sys) (c : Prop) [Decidable c] :
    (if c then s.capable else (s, true)).2 = true ↔ (c → (s.task s.curr).capSysNice = true) := by
  split_ifs with hc
  · rw [capable_snd]
    simp [hc]
  · simp [hc]

/-- The guards, one by one. -/
lemma setschedulerTask_accepted (M : Arch) (s : Sys) (p : Tid) (pol : Policy) (lp : SchedParam) :
    (s.setschedulerTask M p pol lp).2 = none ↔
      ¬ Sys.BadPriority pol lp ∧ ¬ Sys.BadRequest M (s.task p) pol lp
        ∧ (pol = .fifo ∨ pol = .rr → (s.task s.curr).capSysNice = true) ∧ Owns s p
        ∧ ¬ s.BadShort (s.task p) pol := by
  have howns : Owns s p ↔ ((s.task s.curr).euid ≠ (s.task p).euid
      ∧ (s.task s.curr).euid ≠ (s.task p).uid → (s.task s.curr).capSysNice = true) := by
    rw [Owns]
    tauto
  rw [howns]
  simp only [Sys.setschedulerTask]
  by_cases hprio : Sys.BadPriority pol lp
  · simp [hprio]
  by_cases hreq : Sys.BadRequest M (s.task p) pol lp
  · simp [hprio, hreq]
  rw [if_neg hprio, if_neg hreq]
  have hrt := ite_capable_snd s (pol = .fifo ∨ pol = .rr)
  generalize hx : (if pol = .fifo ∨ pol = .rr then s.capable else (s, true)) = x at hrt
  obtain ⟨s₁, rtOk⟩ := x
  obtain ⟨sp₁, rfl⟩ := s.of_ite_capable hx
  have hown := ite_capable_snd ({ s with superpriv := sp₁ } : Sys)
    ((s.task s.curr).euid ≠ (s.task p).euid ∧ (s.task s.curr).euid ≠ (s.task p).uid)
  generalize hy : (if (s.task s.curr).euid ≠ (s.task p).euid
    ∧ (s.task s.curr).euid ≠ (s.task p).uid then
      ({ s with superpriv := sp₁ } : Sys).capable
    else ({ s with superpriv := sp₁ }, true)) = y at hown
  obtain ⟨s₂, ownerOk⟩ := y
  obtain ⟨sp₂, rfl⟩ := Sys.of_ite_capable _ hy
  have hshort : ({ s with superpriv := sp₂ } : Sys).BadShort (s.task p) pol
      ↔ s.BadShort (s.task p) pol := Iff.rfl
  dsimp only at hrt hown ⊢
  rw [← hrt, ← hown]
  cases rtOk with
  | false => simp
  | true =>
      cases ownerOk with
      | false => simp
      | true => by_cases hsh : s.BadShort (s.task p) pol <;> simp [hshort, hprio, hreq, hsh]

/-- The test of the priority, read from the left as the compiler does. -/
lemma not_badPriority_iff : ¬ Sys.BadPriority pol lp ↔ pol = .short
    ∨ 0 ≤ lp.schedPriority ∧ lp.schedPriority ≤ (maxUserRtPrio : ℤ) - 1
      ∧ lp.schedPriority ≠ if pol = .other then 1 else 0 := by
  simp only [Sys.BadPriority, not_and, not_or, not_lt, not_not]
  constructor
  · intro h
    by_cases hp : pol = .short
    · exact Or.inl hp
    · obtain ⟨h1, h2, h3⟩ := h hp
      exact Or.inr ⟨h1, h2, Ne.symm h3⟩
  · rintro (hp | ⟨h1, h2, h3⟩) hne
    · exact absurd hp hne
    · exact ⟨h1, h2, Ne.symm h3⟩

/-- The call asks for `SCHED_OTHER` with a priority from 2 to 99, and nothing else is wrong with
it. -/
def MisreadPriority (s : Sys) (p : Tid) (policy : ℤ) (lp : SchedParam) : Prop :=
  requestedPolicy (s.task p) policy = some .other
    ∧ 2 ≤ lp.schedPriority ∧ lp.schedPriority ≤ (maxUserRtPrio : ℤ) - 1
    ∧ (s.task p).policy ≠ .short ∧ Owns s p

instance (s : Sys) (p : Tid) (policy : ℤ) (lp : SchedParam) :
    Decidable (MisreadPriority s p policy lp) := inferInstanceAs (Decidable (_ ∧ _))

/-- A regular SHORT task is the one `setscheduler` still lets change. -/
lemma ClassOk.regular_iff {t : Task} (h : ClassOk t) (hp : t.policy = .short) :
    t.isShort ≠ -1 ↔ t.IsRegular := by
  have h1 := (h.short hp).1
  rw [Task.IsRegular]
  constructor
  · exact fun hne => ⟨hp, h1.resolve_right hne⟩
  · rintro ⟨-, h1⟩
    omega

/-- The guards let through what may be set, and the misread priorities. -/
lemma guards_iff (hcls : ClassOk (s.task p)) :
    (¬ Sys.BadPriority pol lp ∧ ¬ Sys.BadRequest M (s.task p) pol lp
        ∧ (pol = .fifo ∨ pol = .rr → (s.task s.curr).capSysNice = true) ∧ Owns s p
        ∧ ¬ s.BadShort (s.task p) pol)
      ↔ MaySet M s p pol lp
        ∨ pol = .other ∧ 2 ≤ lp.schedPriority ∧ lp.schedPriority ≤ (maxUserRtPrio : ℤ) - 1
          ∧ (s.task p).policy ≠ .short ∧ Owns s p := by
  rw [not_badPriority_iff]
  simp only [Sys.BadRequest, Sys.BadShort, not_and, not_or, not_le, not_lt, ne_eq, not_not]
  constructor
  · rintro ⟨hprio, hreq, hcap, hown, hstay, hover, honly, hroot⟩
    by_cases hbad : pol = .other ∧ 2 ≤ lp.schedPriority
    · obtain ⟨rfl, h2⟩ := hbad
      obtain ⟨-, hle, -⟩ := hprio.resolve_left (by decide)
      exact Or.inr ⟨rfl, h2, hle, fun hps => absurd (hstay hps) (by decide), hown⟩
    refine Or.inl ⟨fun hrt => ?_, fun ho => ?_, fun hs => (hreq hs).2.symm, fun hs => ?_, fun hs => ?_,
      fun hs => (hreq hs).1, hown, hstay⟩
    · rcases hrt with rfl | rfl
      · obtain ⟨h0, hle, hne⟩ := hprio.resolve_left (by decide)
        simp only [reduceCtorEq, if_false] at hne
        exact ⟨by omega, hle, hcap (Or.inl rfl)⟩
      · obtain ⟨h0, hle, hne⟩ := hprio.resolve_left (by decide)
        simp only [reduceCtorEq, if_false] at hne
        exact ⟨by omega, hle, hcap (Or.inr rfl)⟩
    · subst ho
      obtain ⟨h0, -, hne⟩ := hprio.resolve_left (by decide)
      simp only [if_true] at hne
      have hlt : ¬ 2 ≤ lp.schedPriority := fun h2 => hbad ⟨rfl, h2⟩
      omega
    · by_cases hps : (s.task p).policy = .short
      · exact Or.inr ((hcls.regular_iff hps).mp (hover hps))
      · exact Or.inl (by_contra fun hne => hps (honly hs hne))
    · by_contra hne
      rw [not_or] at hne
      exact hne.2 (hroot hs hne.1)
  · rintro (h | ⟨rfl, h2, hle, hps, hown⟩)
    · refine ⟨?_, fun hs => ⟨h.used hs, (h.request hs).symm⟩, fun hrt => (h.realTime hrt).2.2, h.owner,
        h.stays, fun hps => ?_, fun hs hne => ?_, fun hs h0 => ?_⟩
      · cases pol with
        | short => exact Or.inl rfl
        | other =>
            have h0 := h.other rfl
            rw [h0]
            exact Or.inr ⟨le_rfl, by decide, by simp⟩
        | fifo =>
            obtain ⟨h1, hle, -⟩ := h.realTime (Or.inl rfl)
            exact Or.inr ⟨by omega, hle, by simp only [reduceCtorEq, if_false]; omega⟩
        | rr =>
            obtain ⟨h1, hle, -⟩ := h.realTime (Or.inr rfl)
            exact Or.inr ⟨by omega, hle, by simp only [reduceCtorEq, if_false]; omega⟩
      · have hreg := (h.target (h.stays hps)).resolve_left fun ho => by simp [hps] at ho
        exact (hcls.regular_iff hps).mpr hreg
      · exact ((h.target hs).resolve_left hne).1
      · exact (h.rooted hs).resolve_left h0
    · refine ⟨Or.inr ⟨by omega, hle, by simp only [if_true]; omega⟩, fun hs => absurd hs (by decide),
        fun hrt => absurd hrt (by decide), hown, fun hp => absurd hp hps, fun hp => absurd hp hps,
        fun hs => absurd hs (by decide), fun hs => absurd hs (by decide)⟩

/-! ### What a refused call changes -/

lemma ite_capable_superpriv (s : Sys) (c : Prop) [Decidable c] {q : Tid} (hq : q ≠ s.curr) :
    (if c then s.capable else (s, true)).1.superpriv q = s.superpriv q := by
  simp only [Sys.capable]
  split_ifs <;> simp [Function.update_of_ne hq]

/-- A refused call leaves `PF_SUPERPRIV` of the other tasks alone. -/
lemma setschedulerTask_superpriv {q : Tid} (hq : q ≠ s.curr)
    (h : (s.setschedulerTask M p pol lp).2 ≠ none) :
    (s.setschedulerTask M p pol lp).1.superpriv q = s.superpriv q := by
  simp only [Sys.setschedulerTask] at h ⊢
  by_cases hprio : Sys.BadPriority pol lp
  · simp [hprio]
  by_cases hreq : Sys.BadRequest M (s.task p) pol lp
  · simp [hprio, hreq]
  rw [if_neg hprio, if_neg hreq] at h ⊢
  have hrt := ite_capable_superpriv s (pol = .fifo ∨ pol = .rr) hq
  generalize hx : (if pol = .fifo ∨ pol = .rr then s.capable else (s, true)) = x at hrt h ⊢
  obtain ⟨s₁, rtOk⟩ := x
  obtain ⟨sp₁, rfl⟩ := s.of_ite_capable hx
  have hown := ite_capable_superpriv ({ s with superpriv := sp₁ } : Sys)
    ((s.task s.curr).euid ≠ (s.task p).euid ∧ (s.task s.curr).euid ≠ (s.task p).uid) hq
  generalize hy : (if (s.task s.curr).euid ≠ (s.task p).euid
    ∧ (s.task s.curr).euid ≠ (s.task p).uid then
      ({ s with superpriv := sp₁ } : Sys).capable
    else ({ s with superpriv := sp₁ }, true)) = y at hown h ⊢
  obtain ⟨s₂, ownerOk⟩ := y
  obtain ⟨sp₂, rfl⟩ := Sys.of_ite_capable _ hy
  dsimp only at hrt hown h ⊢
  split_ifs at h ⊢
  · exact hown.trans hrt
  · exact absurd rfl h
  · exact hown.trans hrt
  · exact hrt

/-! ### The call -/

/-- The call finds the task `p`. -/
def Found (s : Sys) (pid : ℤ) (p : Tid) : Prop := 0 ≤ pid ∧ s.findProcessByPid pid = some p

/-- A call with readable parameters that finds its task. -/
lemma setscheduler_found {pid : ℤ} (hf : Found s pid p) (policy : ℤ) :
    s.setscheduler M pid policy (.readable lp)
      = match requestedPolicy (s.task p) policy with
        | some pol => s.setschedulerTask M p pol lp
        | none => (s, some .einval) := by
  simp only [Sys.setscheduler, if_neg (not_lt.mpr hf.1), hf.2, requestedPolicy]
  split_ifs
  · rfl
  · cases Policy.ofInt policy <;> rfl

/-- The call succeeds exactly when it may; a refused one leaves every task and the runqueue as
they are. -/
structure SetschedulerOk (M : Arch) (s : Sys) (pid policy : ℤ) (p : Tid) (lp : SchedParam) :
    Prop where
  accepted : (s.setscheduler M pid policy (.readable lp)).2 = none
    ↔ ∃ pol, requestedPolicy (s.task p) policy = some pol ∧ MaySet M s p pol lp
  refused : (s.setscheduler M pid policy (.readable lp)).2 ≠ none → ∃ sp,
    (∀ q, q ≠ s.curr → sp q = s.superpriv q)
      ∧ (s.setscheduler M pid policy (.readable lp)).1 = { s with superpriv := sp }

/-- A refused call changes nothing. -/
lemma setscheduler_refused {pid policy : ℤ} (hf : Found s pid p)
    (h : (s.setscheduler M pid policy (.readable lp)).2 ≠ none) : ∃ sp,
    (∀ q, q ≠ s.curr → sp q = s.superpriv q)
      ∧ (s.setscheduler M pid policy (.readable lp)).1 = { s with superpriv := sp } := by
  rw [setscheduler_found hf] at h ⊢
  cases hpol : requestedPolicy (s.task p) policy with
  | none => exact ⟨s.superpriv, fun _ _ => rfl, rfl⟩
  | some pol =>
      rw [hpol] at h
      have hsp := fun q hq => setschedulerTask_superpriv (q := q) hq h
      dsimp only at h ⊢
      have hout := s.setschedulerTask_outcome M p pol lp
      generalize s.setschedulerTask M p pol lp = x at h hsp hout ⊢
      cases hout with
      | refused sp e => exact ⟨sp, hsp, rfl⟩
      | changed sp hacc => exact absurd rfl h

/-- **When `setscheduler` decides right**: on every call but those with a misread priority. -/
theorem setschedulerOk_iff {ops : List Op} (hrun : run (Sys.exec M) ops (Sys.booted M) = some s)
    {pid policy : ℤ} (hf : Found s pid p) :
    SetschedulerOk M s pid policy p lp ↔ ¬ MisreadPriority s p policy lp := by
  have h := reach_inv hrun
  have hk : s.Known p := by
    rcases h.toRqInv.found hf.2 with rfl | hp
    · exact h.known_curr
    · exact Or.inl hp
  have hcls := h.toRqInv.classOk hk
  have hacc : (s.setscheduler M pid policy (.readable lp)).2 = none
      ↔ (∃ pol, requestedPolicy (s.task p) policy = some pol ∧ MaySet M s p pol lp)
        ∨ MisreadPriority s p policy lp := by
    rw [setscheduler_found hf, MisreadPriority]
    cases requestedPolicy (s.task p) policy with
    | none => simp
    | some pol =>
        dsimp only
        rw [setschedulerTask_accepted, guards_iff hcls]
        simp
  have hmis : MisreadPriority s p policy lp →
      ¬ ∃ pol, requestedPolicy (s.task p) policy = some pol ∧ MaySet M s p pol lp := by
    rintro ⟨hpol, h2, -⟩ ⟨pol, hpol', hmay⟩
    obtain rfl : Policy.other = pol := Option.some.inj (hpol.symm.trans hpol')
    have := hmay.other rfl
    omega
  constructor
  · intro hok hbad
    exact hmis hbad (hok.accepted.mp (hacc.mpr (Or.inr hbad)))
  · intro hbad
    refine ⟨hacc.trans (or_iff_left hbad), setscheduler_refused hf⟩

end

/-- A root process runs. -/
def rootRun : List Op := [.fork ⟨false, false⟩ 1, .schedule]

theorem setschedulerOk_rootRun : ∃ s,
    run (Sys.exec .hz100) rootRun (Sys.booted .hz100) = some s
      ∧ SetschedulerOk .hz100 s 0 5 1 ⟨0, 3000⟩ := by
  have hrun : ((run (Sys.exec .hz100) rootRun (Sys.booted .hz100)).any fun s =>
      decide ((0 : ℤ) ≤ 0 ∧ s.findProcessByPid 0 = some 1 ∧ ¬ MisreadPriority s 1 5 ⟨0, 3000⟩))
        = true := by
    decide +kernel
  obtain ⟨s, hs, hok⟩ := (Option.any_eq_true _ _).mp hrun
  obtain ⟨h0, hfind, hbad⟩ := of_decide_eq_true hok
  exact ⟨s, hs, (setschedulerOk_iff hs ⟨h0, hfind⟩).mpr hbad⟩

/-- That process may give itself the policy `SCHED_OTHER` with priority 50. -/
theorem not_setschedulerOk : ¬ ∀ (M : Arch) (ops : List Op) (s : Sys) (pid policy : ℤ) (p : Tid)
    (lp : SchedParam), run (Sys.exec M) ops (Sys.booted M) = some s → Found s pid p →
      SetschedulerOk M s pid policy p lp := by
  intro hall
  have hrun : ((run (Sys.exec .hz100) rootRun (Sys.booted .hz100)).any fun s =>
      decide ((0 : ℤ) ≤ 0 ∧ s.findProcessByPid 0 = some 1
        ∧ (s.setscheduler .hz100 0 0 (.readable ⟨50, 0⟩)).2 = none)) = true := by
    decide +kernel
  obtain ⟨s, hs, hbad⟩ := (Option.any_eq_true _ _).mp hrun
  obtain ⟨h0, hfind, hnone⟩ := of_decide_eq_true hbad
  obtain ⟨pol, hpol, hmay⟩ := (hall .hz100 rootRun s 0 0 1 ⟨50, 0⟩ hs ⟨h0, hfind⟩).accepted.mp hnone
  obtain rfl : Policy.other = pol := Option.some.inj hpol
  exact absurd (hmay.other rfl) (by decide)

end Os234123.Sched
