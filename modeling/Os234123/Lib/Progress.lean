import Mathlib.Tactic

/-!
Progress of a deterministic machine: `f : σ → Option σ` makes one round, which may fail.

* `rounds`: some number of rounds;
* `served`: a potential that each round lowers, unless the goal is reached, bounds how long the goal
  is away;
* `served_again`: so the goal is reached over and over;
* `sum_lt_of_one`: a sum over many terms of which one drops and none grows.
-/

namespace Machine

variable {σ : Type*} {f : σ → Option σ}

/-- The state after a number of rounds, `none` once one of them fails. -/
def rounds (f : σ → Option σ) : ℕ → σ → Option σ
  | 0, s => some s
  | n + 1, s => (f s).bind (rounds f n)

lemma rounds_succ_eq_some {n : ℕ} {s s' : σ} :
    rounds f (n + 1) s = some s' ↔ ∃ t, f s = some t ∧ rounds f n t = some s' := by
  rw [rounds, Option.bind_eq_some_iff]

lemma rounds_add (f : σ → Option σ) (m n : ℕ) (s : σ) :
    rounds f (m + n) s = (rounds f m s).bind (rounds f n) := by
  induction m generalizing s with
  | zero => rw [Nat.zero_add, rounds, Option.bind_some]
  | succ m ih =>
      rw [Nat.succ_add, rounds, rounds, Option.bind_assoc]
      exact congrArg _ (funext ih)

section

variable {P goal : σ → Prop} {μ : σ → ℕ}

/-- What a round preserves, all rounds preserve, and none of them fails. -/
lemma rounds_preserve (hstep : ∀ s, P s → ∃ s', f s = some s' ∧ P s') (n : ℕ) {s : σ} (hs : P s) :
    ∃ s', rounds f n s = some s' ∧ P s' := by
  induction n generalizing s with
  | zero => exact ⟨s, rfl, hs⟩
  | succ n ih =>
      obtain ⟨t, ht, hPt⟩ := hstep s hs
      obtain ⟨s', hs', hP⟩ := ih hPt
      exact ⟨s', rounds_succ_eq_some.mpr ⟨t, ht, hs'⟩, hP⟩

/-- **Progress**: if every round that does not start at the goal lowers the potential, the goal is
reached within as many rounds as the potential says. -/
theorem served (hstep : ∀ s, P s → ∃ s', f s = some s' ∧ P s' ∧ (¬ goal s → μ s' < μ s)) {s : σ}
    (hs : P s) : ∃ k ≤ μ s, ∃ s', rounds f k s = some s' ∧ goal s' := by
  induction hn : μ s using Nat.strong_induction_on generalizing s with
  | _ n ih =>
      by_cases hg : goal s
      · exact ⟨0, Nat.zero_le _, s, rfl, hg⟩
      · obtain ⟨t, ht, hPt, hlt⟩ := hstep s hs
        have hdrop := hlt hg
        obtain ⟨k, hk, s', hs', hg'⟩ := ih (μ t) (hn ▸ hdrop) hPt rfl
        exact ⟨k + 1, by omega, s', rounds_succ_eq_some.mpr ⟨t, ht, hs'⟩, hg'⟩

/-- The goal is reached over and over, each time within the bound of the potential. -/
theorem served_again {B : ℕ}
    (hstep : ∀ s, P s → ∃ s', f s = some s' ∧ P s' ∧ (¬ goal s → μ s' < μ s))
    (hB : ∀ s, P s → μ s ≤ B) {s : σ} (hs : P s) (n : ℕ) :
    ∃ k ≤ B, ∃ s', rounds f (n + k) s = some s' ∧ goal s' := by
  have hkeep : ∀ s, P s → ∃ s', f s = some s' ∧ P s' := fun s hs => by
    obtain ⟨t, ht, hPt, -⟩ := hstep s hs
    exact ⟨t, ht, hPt⟩
  obtain ⟨t, ht, hPt⟩ := rounds_preserve hkeep n hs
  obtain ⟨k, hk, s', hs', hg⟩ := served hstep hPt
  exact ⟨k, hk.trans (hB t hPt), s', by rw [rounds_add, ht, Option.bind_some, hs'], hg⟩

end

/-- A sum of which one term drops and none grows. -/
lemma sum_lt_of_one {ι : Type*} {T : Finset ι} {w w' : ι → ℕ} {i : ι} (hi : i ∈ T)
    (hlt : w' i < w i) (hle : ∀ j ∈ T, j ≠ i → w' j ≤ w j) : ∑ j ∈ T, w' j < ∑ j ∈ T, w j := by
  refine Finset.sum_lt_sum (fun j hj => ?_) ⟨i, hi, hlt⟩
  by_cases hji : j = i
  · exact hji ▸ hlt.le
  · exact hle j hj hji

end Machine
