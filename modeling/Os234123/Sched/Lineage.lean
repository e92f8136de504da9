import Os234123.Sched.Guards
import Os234123.Sched.Repay
import Os234123.Sched.Requests

/-!
Slices that come from forking.

* `lineage`: the tasks whose first slice was given away by a task `p`, directly or through others;
* `owed`: what such a task may still give back, and `p` has itself;
* `Lending`: a run in which `p` forks and reaps, and its own slice is neither refilled nor changed
  by `setscheduler`;
* `Honest`: the steps that make no slice out of nothing;
* `owed_step`, `slice_le`: in a run of honest steps the lineage never has more than `p` had;
* `not_slice_le`: an overdue task that forks.
-/

namespace Os234123.Sched

open Machine

/-! ### Sums that split and merge -/

section

variable {ι : Type*} [DecidableEq ι] {D : Finset ι} {w w' : ι → ℕ} {m c : ι}

/-- One weight is split between its owner and a new one. -/
lemma sum_le_of_split (hm : m ∈ D) (hc : c ∉ D) (hpair : w' m + w' c ≤ w m)
    (hrest : ∀ q ∈ D, q ≠ m → w' q ≤ w q) : ∑ q ∈ insert c D, w' q ≤ ∑ q ∈ D, w q := by
  have hle : ∑ q ∈ D.erase m, w' q ≤ ∑ q ∈ D.erase m, w q :=
    Finset.sum_le_sum fun q hq => hrest q (Finset.mem_of_mem_erase hq) (Finset.ne_of_mem_erase hq)
  rw [Finset.sum_insert hc, ← Finset.add_sum_erase D w' hm, ← Finset.add_sum_erase D w hm]
  omega

/-- A weight that goes is merged into another. -/
lemma sum_le_of_merge (hm : m ∈ D) (hc : c ∈ D) (hne : m ≠ c) (hpair : w' m ≤ w m + w c)
    (hrest : ∀ q ∈ D, q ≠ m → w' q ≤ w q) : ∑ q ∈ D.erase c, w' q ≤ ∑ q ∈ D, w q := by
  have hm' : m ∈ D.erase c := Finset.mem_erase.mpr ⟨hne, hm⟩
  have hle : ∑ q ∈ (D.erase c).erase m, w' q ≤ ∑ q ∈ (D.erase c).erase m, w q :=
    Finset.sum_le_sum fun q hq => hrest q
      (Finset.mem_of_mem_erase (Finset.mem_of_mem_erase hq)) (Finset.ne_of_mem_erase hq)
  rw [← Finset.add_sum_erase _ w' hm', ← Finset.add_sum_erase D w hc,
    ← Finset.add_sum_erase (D.erase c) w hm']
  omega

end

/-! ### The lineage of a task -/

/-- The slice of `q` is one that `p` has or gave away: `q` is `p`, or in its first slice. -/
def Owes (p : Tid) (s : Sys) (q : Tid) : Prop := q = p ∨ (s.task q).firstTimeSlice = true

instance (p : Tid) (s : Sys) (q : Tid) : Decidable (Owes p s q) := inferInstanceAs (Decidable (_ ∨ _))

/-- A task of the lineage whose slice is not its own. -/
def Member (p : Tid) (x : Sys × Finset Tid) (q : Tid) : Prop := q ∈ x.2 ∧ Owes p x.1 q

instance (p : Tid) (x : Sys × Finset Tid) (q : Tid) : Decidable (Member p x q) :=
  inferInstanceAs (Decidable (_ ∧ _))

/-- The lineage after an operation: the child of a member joins it, and a task that is reaped
leaves. -/
def lineage (p : Tid) (o : Op) (s _s' : Sys) (D : Finset Tid) : Finset Tid :=
  match o with
  | .fork _ c => if Member p (s, D) s.curr then insert c D else D
  | .reap q => D.erase q
  | _ => D

/-- The scheduler with the lineage of `p`. -/
abbrev lineageExec (M : Arch) (p : Tid) : Op → Sys × Finset Tid → Option (Sys × Finset Tid) :=
  observed (Sys.exec M) (lineage p)

/-- What `q` may give back to `p`, directly or through others, or what `p` has. -/
def owed (p : Tid) (s : Sys) (q : Tid) : ℕ := if Owes p s q then (s.task q).timeSlice else 0

/-! ### What the run of `p` may do -/

/-- No operation refills the slice of `p` or changes it by `setscheduler`, `p` reaps no child in its
first slice but of its lineage, and is not reaped. -/
def Lends (M : Arch) (p : Tid) (x : Sys × Finset Tid) : Op → Prop
  | .tick => x.1.Charged p → (x.1.task p).timeSlice ≠ 1
  | .fork _ _ => x.1.curr = p → (x.1.task p).timeSlice = 1 → ¬ x.1.Charged p
  | .setscheduler pid policy param =>
      x.1.findProcessByPid pid ≠ some p ∨ (x.1.setscheduler M pid policy param).2 ≠ none
  | .reap q => q ≠ p ∧ (x.1.curr = p → (x.1.task q).firstTimeSlice = true → q ∈ x.2)
  | _ => True

instance (M : Arch) (p : Tid) (x : Sys × Finset Tid) (o : Op) : Decidable (Lends M p x o) := by
  unfold Lends
  induction o using Op.casesOn <;> infer_instance

/-- The request is worth more than the slice, or than the old request, or the slice is empty. -/
def Lengthens (M : Arch) (t : Task) (policy : ℤ) (lp : SchedParam) : Prop :=
  requestedPolicy t policy = some .short ∧
    if t.policy = .short
    then t.timeSlice = 0 ∨ M.jiffiesOf t.requestedTime < M.jiffiesOf lp.requestedTime.toNat
    else t.timeSlice < max 1 (M.jiffiesOf lp.requestedTime.toNat)

instance (M : Arch) (t : Task) (policy : ℤ) (lp : SchedParam) :
    Decidable (Lengthens M t policy lp) := inferInstanceAs (Decidable (_ ∧ _))

/-- No member that is overdue forks, nor one with a single jiffy that the fork does not charge it;
none gets a longer slice by `setscheduler`, or the slice of a task outside the lineage by reaping
it; and no tick charges one with an empty slice. -/
def Honest (M : Arch) (p : Tid) (x : Sys × Finset Tid) : Op → Prop
  | .tick => Member p x x.1.curr → x.1.Charged x.1.curr → (x.1.task x.1.curr).timeSlice ≠ 0
  | .fork _ _ => Member p x x.1.curr → ¬ (x.1.task x.1.curr).IsOverdue
      ∧ ((x.1.task x.1.curr).timeSlice = 1 → x.1.Charged x.1.curr)
  | .setscheduler pid policy (.readable lp) =>
      (x.1.setscheduler M pid policy (.readable lp)).2 = none →
        ∀ q ∈ x.1.findProcessByPid pid, Member p x q → ¬ Lengthens M (x.1.task q) policy lp
  | .reap q => Member p x x.1.curr → (x.1.task q).firstTimeSlice = true → q ∈ x.2
  | _ => True

instance (M : Arch) (p : Tid) (x : Sys × Finset Tid) (o : Op) : Decidable (Honest M p x o) := by
  unfold Honest
  induction o using Op.casesOn with
  | setscheduler pid policy param => induction param using ParamPtr.casesOn <;> infer_instance
  | _ => infer_instance

/-- From the reachable state `s`, in which `p` has two jiffies or more, `ops` is a run in which it
forks and reaps children, and its slice is neither refilled nor changed by `setscheduler`. -/
structure Lending (M : Arch) (p : Tid) (s : Sys) (ops : List Op) (x : Sys × Finset Tid) : Prop where
  reach : ∃ pre, run (Sys.exec M) pre (Sys.booted M) = some s
  known : s.Known p
  two : 2 ≤ (s.task p).timeSlice
  lends : Along (lineageExec M p) (Lends M p) ops (s, {p})
  run : run (lineageExec M p) ops (s, {p}) = some x

/-! ### One task of the lineage -/

section

variable {M : Arch} {p q c : Tid} {s s' : Sys} {o : Op} {D : Finset Tid} {t t' : Task}

lemma owed_le (p : Tid) (s : Sys) (q : Tid) : owed p s q ≤ (s.task q).timeSlice := by
  rw [owed]
  split_ifs
  · exact le_rfl
  · exact Nat.zero_le _

/-- A task whose slice is still not its own has no more of it. -/
lemma owed_mono (h : Owes p s' q → Owes p s q ∧ (s'.task q).timeSlice ≤ (s.task q).timeSlice) :
    owed p s' q ≤ owed p s q := by
  by_cases ho : Owes p s' q
  · obtain ⟨h1, h2⟩ := h ho
    rw [owed, owed, if_pos ho, if_pos h1]
    exact h2
  · rw [owed, if_neg ho]
    exact Nat.zero_le _

/-- A change of parameters never makes a slice the first one. -/
lemma newParams_first (M : Arch) (t : Task) (pol : Policy) (lp : SchedParam) :
    (Sys.newParams M t pol lp).firstTimeSlice = t.firstTimeSlice := by
  by_cases hp : pol = .short
  · rw [hp, newParams_short, shortParams_eq]
  · rw [newParams_of_ne M t hp]

/-- A request that does not lengthen the slice. -/
lemma newParams_slice_le {policy : ℤ} {pol : Policy} {lp : SchedParam} (hf : Fits t)
    (hpol : requestedPolicy t policy = some pol) (hreq : ¬ Sys.BadRequest M t pol lp)
    (hno : ¬ Lengthens M t policy lp) :
    (Sys.newParams M t pol lp).timeSlice ≤ t.timeSlice := by
  by_cases hp : pol = .short
  swap
  · rw [newParams_of_ne M t hp]
  subst hp
  rw [newParams_short, shortParams_eq]
  dsimp only
  set r := lp.requestedTime.toNat
  have hnew : newSlice M t r ≤ t.timeSlice ∧ 1 ≤ t.timeSlice := by
    by_cases hps : t.policy = .short
    · -- the difference of two unsigned differences, whichever of them wraps
      have hlen : ¬ (t.timeSlice = 0 ∨ M.jiffiesOf t.requestedTime < M.jiffiesOf r) := fun hl =>
        hno ⟨hpol, by rwa [if_pos hps]⟩
      have hR := M.jiffiesOf_le hf.request
      have hZ := M.HZ_lt
      have hT := hf.slice
      have hguard : t.timeSlice ≤ 7 * M.HZ →
          M.jiffiesOf t.requestedTime ≤ M.jiffiesOf r + t.timeSlice := fun h7 =>
        jiffiesOf_le_of_request hps h7 hf.request hreq
      have heq : newSlice M t r
          = usub (M.jiffiesOf r) (usub (M.jiffiesOf t.requestedTime) t.timeSlice) := by
        rw [newSlice, if_pos hps]
        rfl
      rw [heq]
      simp only [usub, toUint, uintSize] at *
      omega
    · have hlen : ¬ t.timeSlice < max 1 (M.jiffiesOf r) := fun hl => hno ⟨hpol, by rwa [if_neg hps]⟩
      rw [newSlice, if_neg hps]
      exact ⟨le_trans (le_max_right 1 _) (not_lt.mp hlen), le_trans (le_max_left _ _) (not_lt.mp hlen)⟩
  split_ifs
  · exact hnew.2
  · exact hnew.1

/-- An accepted call gives the task the parameters of the policy it asks for. -/
lemma setscheduler_accepted {pid policy : ℤ} {lp : SchedParam}
    (hfind : s.findProcessByPid pid = some q)
    (hacc : (s.setscheduler M pid policy (.readable lp)).2 = none) :
    ∃ pol, requestedPolicy (s.task q) policy = some pol ∧ Accepts M s q pol lp
      ∧ Mild (Sys.newParams M (s.task q) pol lp)
        ((s.setscheduler M pid policy (.readable lp)).1.task q) := by
  have hpid : 0 ≤ pid := by
    by_contra hneg
    simp [Sys.setscheduler, not_le.mp hneg] at hacc
  rw [setscheduler_found ⟨hpid, hfind⟩] at hacc ⊢
  cases hpol : requestedPolicy (s.task q) policy with
  | none => simp [hpol] at hacc
  | some pol =>
      rw [hpol] at hacc
      dsimp only at hacc ⊢
      have hout := s.setschedulerTask_outcome M q pol lp
      generalize s.setschedulerTask M q pol lp = x at hacc hout ⊢
      cases hout with
      | refused sp e => simp at hacc
      | changed sp h => exact ⟨pol, rfl, h, applyParams_mild M { s with superpriv := sp } q pol lp⟩

/-- A tick on a slice that is not empty: it is shorter after, or no longer the first one. -/
lemma TickOf.shrinks {active expired : ArrayId} (h : TickOf M active expired t t')
    (hf : t.timeSlice < uintSize) (h0 : t.timeSlice ≠ 0) :
    (t.timeSlice ≠ 1 ∧ t'.timeSlice = t.timeSlice - 1 ∧ t'.firstTimeSlice = t.firstTimeSlice)
      ∨ t.timeSlice = 1 ∧ t'.firstTimeSlice = false := by
  by_cases h1 : t.timeSlice = 1
  · refine Or.inr ⟨h1, ?_⟩
    cases h with
    | spend avg hz => exact absurd (by rw [h1]; rfl) hz
    | _ => rfl
  · exact Or.inl ⟨h1, h.spends (Nat.one_le_iff_ne_zero.mpr h0) hf h1⟩

/-- A tick never makes a slice the first one. -/
lemma TickOf.first {active expired : ArrayId} (h : TickOf M active expired t t')
    (hf : t'.firstTimeSlice = true) : t.firstTimeSlice = true := by
  cases h with
  | spend => exact hf
  | _ => exact absurd hf Bool.false_ne_true

lemma ShareOf.first {active expired : ArrayId} (h : ShareOf M active expired t t')
    (hf : t'.firstTimeSlice = true) : t.firstTimeSlice = true := by
  have hh : (Sys.halve t).firstTimeSlice = t.firstTimeSlice := by
    simp only [Sys.halve]
    split_ifs <;> rfl
  cases h with
  | halved _ => exact hh ▸ hf
  | spared _ _ => exact hh ▸ hf
  | charged _ ht => exact hh ▸ ht.first hf

/-- **One task of the lineage**, if it does not fork, or reap a child in its first slice, while its
slice is not its own. -/
lemma owed_step (h : Inv s) (hfit : Fits (s.task q)) (hs : s.exec M o = some s') (hq : s.Known q)
    (hD : q ∈ D) (hl : Lends M p (s, D) o) (hh : Honest M p (s, D) o)
    (hfork : ∀ flags c, o = .fork flags c → q = s.curr → ¬ Owes p s q)
    (hreap : ∀ c, o = .reap c → q = s.curr → (s.task c).firstTimeSlice = true → ¬ Owes p s q) :
    owed p s' q ≤ owed p s q := by
  refine owed_mono fun ho => ?_
  have hc := exec_change h hs hq
  have hback : ∀ {u : Task}, (s'.task q).firstTimeSlice = u.firstTimeSlice →
      u.firstTimeSlice = (s.task q).firstTimeSlice → Owes p s q := fun h1 h2 =>
    ho.imp id fun hf => h2.symm.trans (h1.symm.trans hf)
  generalize ht : s'.task q = t at hc
  cases hc with
  | mild _ hm =>
      rw [hm.timeSlice]
      exact ⟨hback (ht ▸ hm.firstTimeSlice) rfl, le_rfl⟩
  | tick hc htick =>
      have hqc : q = s.curr := hc.1
      have howes : Owes p s q := ho.imp id fun hf => htick.first (ht ▸ hf)
      have h0 : (s.task q).timeSlice ≠ 0 := by
        have := hh ⟨hqc ▸ hD, hqc ▸ howes⟩ (hqc ▸ hc)
        rwa [← hqc] at this
      refine ⟨howes, ?_⟩
      rcases htick.shrinks hfit.slice h0 with ⟨-, hle, -⟩ | ⟨h1, hfalse⟩
      · omega
      · -- the slice has ended, so it is not that of `p`, nor the first one of a child
        rcases ho with rfl | hf
        · exact absurd h1 (hl hc)
        · rw [ht, hfalse] at hf
          exact absurd hf Bool.false_ne_true
  | @share flags c u t hp hu hm =>
      have howes : Owes p s q := ho.imp id fun hf => hu.first (hm.firstTimeSlice ▸ ht ▸ hf)
      exact absurd howes (hfork flags c rfl hp)
  | @nice n t _ hm =>
      obtain ⟨h1, h2, -⟩ := reniced_claim n (s.task q)
      rw [hm.timeSlice, h1]
      exact ⟨hback (ht ▸ hm.firstTimeSlice) h2, le_rfl⟩
  | @change pid policy lp pol t hfind hacc _ _ =>
      obtain ⟨pol', hpol, hok, hm⟩ := setscheduler_accepted hfind hacc
      have hs' : s' = (s.setscheduler M pid policy (.readable lp)).1 := by
        simp only [Sys.exec] at hs
        split_ifs at hs
        exact (Option.some.inj hs).symm
      rw [← hs', ht] at hm
      have hfirst : (Sys.newParams M (s.task q) pol' lp).firstTimeSlice
          = (s.task q).firstTimeSlice := newParams_first M (s.task q) pol' lp
      have howes : Owes p s q := hback (ht ▸ hm.firstTimeSlice) hfirst
      have hlen := hh hacc q hfind ⟨hD, howes⟩
      rw [hm.timeSlice]
      exact ⟨howes, newParams_slice_le hfit hpol hok.request hlen⟩
  | orphan _ _ hm =>
      rcases ho with rfl | hf
      · exact ⟨Or.inl rfl, hm.timeSlice.le⟩
      · rw [ht, hm.firstTimeSlice] at hf
        exact absurd hf Bool.false_ne_true
  | @credit c t hp _ hf hm =>
      exact absurd (hback (ht ▸ hm.firstTimeSlice) rfl) (hreap c rfl hp hf)

/-- A slice that is not its own anymore is not owed. -/
lemma owed_eq_zero (hne : q ≠ p) (hf : (s.task q).firstTimeSlice = false) : owed p s q = 0 :=
  if_neg fun ho => ho.elim hne fun ht => Bool.false_ne_true (hf.symm.trans ht)

/-- A member that forks splits what it owes with its child. -/
lemma fork_splits {flags : ForkFlags} (h : Inv s) (hs : s.exec M (.fork flags c) = some s')
    (hm : Member p (s, D) s.curr) (hl : Lends M p (s, D) (.fork flags c))
    (hh : Honest M p (s, D) (.fork flags c)) :
    owed p s' s.curr + owed p s' c ≤ owed p s s.curr := by
  obtain ⟨hov, hcharge⟩ := hh hm
  have hpaid : owed p s s.curr = (s.task s.curr).timeSlice := if_pos hm.2
  have h1 := owed_le p s' s.curr
  have h2 := owed_le p s' c
  have hle : uadd (s.task s.curr).timeSlice 1 ≤ (s.task s.curr).timeSlice + 1 := Nat.mod_le _ _
  by_cases hone : (s.task s.curr).timeSlice = 1
  · -- the fork takes the last jiffy of the parent, and its next slice is its own
    have hc := hcharge hone
    have hne : s.curr ≠ p := fun he => hl he (he ▸ hone) (he ▸ hc)
    have hborn := (exec_born h hs).timeSlice.trans (newborn_claim s flags hov).1
    obtain ⟨s₁, hsh, hk, -, rfl, -⟩ := fork_shared h hs
    have hcc : s.curr ≠ c := fun he => hk (he ▸ h.known_curr)
    have htick := hsh.charged (by rw [halve_slice hov, hone]) hc
    have hfalse : (s₁.task s.curr).firstTimeSlice = false := by
      rcases htick.shrinks Fits.one_lt_uintSize one_ne_zero with ⟨hn, -⟩ | ⟨-, hf⟩
      · exact absurd rfl hn
      · exact hf
    have hwake := (MildAll.forkWake M c s₁ flags s.curr).firstTimeSlice
    rw [linkChild_of_ne s₁ flags hcc, hfalse] at hwake
    rw [owed_eq_zero hne hwake]
    omega
  · obtain ⟨hpos, hpar, hchild, -⟩ := fork_shares h hs hov fun he => absurd he hone
    omega

/-- A member that reaps one in its first slice merges what both owe. -/
lemma reap_merges (h : Inv s) (hs : s.exec M (.reap c) = some s') (hm : Member p (s, D) s.curr)
    (hf : (s.task c).firstTimeSlice = true) :
    owed p s' s.curr ≤ owed p s s.curr + owed p s c := by
  have hpaid : owed p s s.curr = (s.task s.curr).timeSlice := if_pos hm.2
  have hchild : owed p s c = (s.task c).timeSlice := if_pos (Or.inr hf)
  have hle := owed_le p s' s.curr
  have hc := exec_change h hs h.known_curr
  generalize s'.task s.curr = t at hc hle
  cases hc with
  | mild hn _ =>
      rcases hn with hne | hne
      · exact absurd rfl hne
      · exact absurd (hne.symm.trans hf) Bool.false_ne_true
  | credit _ _ _ hmild =>
      have hsum : uadd (s.task s.curr).timeSlice (s.task c).timeSlice
          ≤ (s.task s.curr).timeSlice + (s.task c).timeSlice := Nat.mod_le _ _
      have hmin : (credited M (s.task s.curr) (s.task c)).timeSlice
          ≤ uadd (s.task s.curr).timeSlice (s.task c).timeSlice := min_le_left _ _
      have := hmild.timeSlice
      omega

/-! ### The whole lineage -/

/-- All that the lineage of `p` owes, and what `p` has. -/
def lineageOwed (p : Tid) (x : Sys × Finset Tid) : ℕ := ∑ q ∈ x.2, owed p x.1 q

/-- **An honest step makes no slice.** -/
theorem lineageOwed_step (h : Inv s) (hfit : ∀ q, s.Known q → Fits (s.task q))
    (hs : s.exec M o = some s') (hD : ∀ q ∈ D, s.Known q) (hl : Lends M p (s, D) o)
    (hh : Honest M p (s, D) o) :
    lineageOwed p (s', lineage p o s s' D) ≤ lineageOwed p (s, D) := by
  have hrest : ∀ q ∈ D, (∀ flags c, o = .fork flags c → q = s.curr → ¬ Owes p s q) →
      (∀ c, o = .reap c → q = s.curr → (s.task c).firstTimeSlice = true → ¬ Owes p s q) →
      owed p s' q ≤ owed p s q := fun q hq =>
    owed_step h (hfit q (hD q hq)) hs (hD q hq) hq hl hh
  simp only [lineageOwed]
  cases o with
  | fork flags c =>
      have hreap : ∀ (q c' : Tid), Op.fork flags c = .reap c' → q = s.curr →
        (s.task c').firstTimeSlice = true → ¬ Owes p s q := fun _ _ he => by simp at he
      simp only [lineage]
      split_ifs with hm
      · have hc : c ∉ D := fun hc => ((exec_step h hs).child c rfl).1 (hD c hc)
        exact sum_le_of_split hm.1 hc (fork_splits h hs hm hl hh) fun q hq hne =>
          hrest q hq (fun _ _ _ he => absurd he hne) (hreap q)
      · refine Finset.sum_le_sum fun q hq => hrest q hq (fun _ _ _ he ho => ?_) (hreap q)
        exact hm (he ▸ ⟨hq, ho⟩)
  | reap c =>
      have hfork : ∀ (q : Tid) (flags : ForkFlags) (c' : Tid), Op.reap c = .fork flags c' →
        q = s.curr → ¬ Owes p s q := fun _ _ _ he => by simp at he
      simp only [lineage]
      by_cases hm : Member p (s, D) s.curr ∧ (s.task c).firstTimeSlice = true
      · have hcD : c ∈ D := hh hm.1 hm.2
        have hne : s.curr ≠ c := by
          simp only [Sys.exec] at hs
          split_ifs at hs with hz
          exact Ne.symm hz.2.2.1
        exact sum_le_of_merge hm.1.1 hcD hne (reap_merges h hs hm.1 hm.2) fun q hq hqc =>
          hrest q hq (hfork q) fun _ _ he => absurd he hqc
      · refine (Finset.sum_le_sum fun q hq => ?_).trans
          (Finset.sum_le_sum_of_subset (Finset.erase_subset c D))
        have hqD := Finset.mem_of_mem_erase hq
        refine hrest q hqD (hfork q) fun c' hc' he hf ho => hm ⟨⟨he ▸ hqD, he ▸ ho⟩, ?_⟩
        rw [Op.reap.inj hc']
        exact hf
  | _ =>
      exact Finset.sum_le_sum fun q hq => hrest q hq (fun _ _ he => by simp at he)
        fun _ he => by simp at he

/-- A task that is there stays until it is reaped. -/
lemma Step.known_after (h : Step M s o s') (hq : s.Known q) (hne : o ≠ .reap q) : s'.Known q := by
  rcases hq with ⟨hlive, hi⟩ | hi
  swap
  · exact Or.inr (hi.trans h.idle.symm)
  refine Or.inl ⟨?_, h.idle ▸ hi⟩
  rw [h.live]
  cases o with
  | fork flags c =>
      by_cases hqc : q = c
      · simp [Op.liveAfter, hqc]
      · simpa [Op.liveAfter, Function.update_of_ne hqc] using hlive
  | reap c =>
      have hqc : q ≠ c := fun he => hne (he ▸ rfl)
      simpa [Op.liveAfter, Function.update_of_ne hqc] using hlive
  | _ => exact hlive

/-- A child is there once it is forked. -/
lemma Step.child_known (h : Step M s o s') (hc : o.child = some c) : s'.Known c := by
  obtain ⟨hk, hf⟩ := h.child c hc
  refine Or.inl ⟨by rw [hf.live, Function.update_self], fun hi => hk (Or.inr ?_)⟩
  rw [hi, hf.idle]

/-- The tasks of the lineage are there after a step, and `p` is one of them. -/
lemma lineage_known (h : Inv s) (hs : s.exec M o = some s') (hD : ∀ q ∈ D, s.Known q) (hp : p ∈ D)
    (hl : Lends M p (s, D) o) :
    (∀ q ∈ lineage p o s s' D, s'.Known q) ∧ p ∈ lineage p o s s' D := by
  have hstep := exec_step h hs
  cases o with
  | fork flags c =>
      have hold : ∀ q ∈ D, s'.Known q := fun q hq => hstep.known_after (hD q hq) (by simp)
      simp only [lineage]
      split_ifs
      · refine ⟨fun q hq => ?_, Finset.mem_insert_of_mem hp⟩
        rcases Finset.mem_insert.mp hq with rfl | hq
        · exact hstep.child_known rfl
        · exact hold q hq
      · exact ⟨hold, hp⟩
  | reap c =>
      refine ⟨fun q hq => ?_, Finset.mem_erase.mpr ⟨Ne.symm hl.1, hp⟩⟩
      obtain ⟨hne, hq⟩ := Finset.mem_erase.mp hq
      exact hstep.known_after (hD q hq) fun he => hne (Op.reap.inj he).symm
  | _ => exact ⟨fun q hq => hstep.known_after (hD q hq) (by simp), hp⟩

/-- The lineage in a run that lends and makes no slice. -/
structure LineageInv (M : Arch) (p : Tid) (t : ℕ) (x : Sys × Finset Tid) : Prop where
  reach : ∃ pre, run (Sys.exec M) pre (Sys.booted M) = some x.1
  known : ∀ q ∈ x.2, x.1.Known q
  self : p ∈ x.2
  owed : lineageOwed p x ≤ t

lemma LineageInv.step {t : ℕ} {x x' : Sys × Finset Tid} (h : LineageInv M p t x)
    (hok : Lends M p x o ∧ Honest M p x o) (hs : lineageExec M p o x = some x') :
    LineageInv M p t x' := by
  obtain ⟨s', hs', rfl⟩ := Option.map_eq_some_iff.mp hs
  obtain ⟨pre, hpre⟩ := h.reach
  have hi := reach_inv hpre
  obtain ⟨hknown, hself⟩ := lineage_known hi hs' h.known h.self hok.1
  exact ⟨⟨pre ++ [o], run_snoc_eq_some.mpr ⟨x.1, hpre, hs'⟩⟩, hknown, hself,
    (lineageOwed_step hi (reach_fits hpre) hs' h.known hok.1 hok.2).trans h.owed⟩

/-- **No slice comes from forking** in a run of honest steps. -/
theorem slice_le {ops : List Op} {x : Sys × Finset Tid} (h : Lending M p s ops x)
    (hh : Along (lineageExec M p) (Honest M p) ops (s, {p})) :
    (x.1.task p).timeSlice ≤ (s.task p).timeSlice := by
  have hself : ∀ s₁ : Sys, owed p s₁ p = (s₁.task p).timeSlice := fun s₁ => if_pos (Or.inl rfl)
  have hinv : LineageInv M p (s.task p).timeSlice (s, {p}) := by
    refine ⟨h.reach, fun q hq => ?_, Finset.mem_singleton_self p, ?_⟩
    · rw [Finset.mem_singleton.mp hq]
      exact h.known
    · simp [lineageOwed, hself]
  have hend := run_induct_along (fun y o y' hP hok hs => LineageInv.step hP hok hs) hinv
    (h.lends.and hh) h.run
  calc (x.1.task p).timeSlice = owed p x.1 p := (hself x.1).symm
    _ ≤ lineageOwed p x := Finset.single_le_sum (fun _ _ => Nat.zero_le _) hend.self
    _ ≤ (s.task p).timeSlice := hend.owed

end

/-! ### Two runs -/

/-- Task 1 forks a child and sleeps; the child exits, and is reaped. -/
def forkAndReap : List Op :=
  [.fork ⟨false, false⟩ 2, .setState .interruptible, .schedule, .exit 0, .wake 1, .schedule, .reap 2]

/-- A run of task 1 that lends can be found by running it. -/
lemma exists_lending (pre : List Op) (t t' : ℕ) (honest : Bool)
    (h : ((run (Sys.exec .hz100) pre (Sys.booted .hz100)).any fun s =>
      decide (s.IsTask 1 ∧ (s.task 1).timeSlice = t ∧ 2 ≤ t
          ∧ Along (lineageExec .hz100 1) (Lends .hz100 1) forkAndReap (s, {1})
          ∧ (honest = true → Along (lineageExec .hz100 1) (Honest .hz100 1) forkAndReap (s, {1})))
        && (run (lineageExec .hz100 1) forkAndReap (s, {1})).any fun x =>
          decide ((x.1.task 1).timeSlice = t')) = true) :
    ∃ s x, Lending .hz100 1 s forkAndReap x ∧ (s.task 1).timeSlice = t ∧ (x.1.task 1).timeSlice = t'
      ∧ (honest = true → Along (lineageExec .hz100 1) (Honest .hz100 1) forkAndReap (s, {1})) := by
  obtain ⟨s, hs, h⟩ := (Option.any_eq_true _ _).mp h
  obtain ⟨h1, h⟩ := (Bool.and_eq_true _ _).mp h
  obtain ⟨hp, ht, h2, hl, hh⟩ := of_decide_eq_true h1
  obtain ⟨x, hx, h⟩ := (Option.any_eq_true _ _).mp h
  exact ⟨s, x, ⟨⟨pre, hs⟩, Or.inl hp, ht ▸ h2, hl, hx⟩, ht, of_decide_eq_true h, hh⟩

/-- An ordinary task that forks has no more than before. -/
theorem slice_le_forkAndReap : ∃ s x, Lending .hz100 1 s forkAndReap x
    ∧ (x.1.task 1).timeSlice ≤ (s.task 1).timeSlice := by
  obtain ⟨s, x, h, -, -, hh⟩ := exists_lending firstRun 50 30 true (by decide +kernel)
  exact ⟨s, x, h, slice_le h (hh rfl)⟩

/-- A task that has used up a request of fifty milliseconds. -/
def overdueRun : List Op :=
  firstRun ++ [.setscheduler 0 5 (.readable ⟨0, 50⟩)] ++ List.replicate 5 .tick

/-- An overdue task has ten jiffies, forks, and gets ten more back. -/
theorem not_slice_le : ¬ ∀ (M : Arch) (p : Tid) (s : Sys) (ops : List Op) (x : Sys × Finset Tid),
    Lending M p s ops x → (x.1.task p).timeSlice ≤ (s.task p).timeSlice := by
  intro hall
  obtain ⟨s, x, h, ht, ht', -⟩ := exists_lending overdueRun 10 20 false (by decide +kernel)
  have hle := hall .hz100 1 s forkAndReap x h
  rw [ht, ht'] at hle
  exact absurd hle (by decide)

end Os234123.Sched
