import Mathlib.Data.Finset.Card
import Mathlib.Tactic

/-!
Numbers that count.

* `Counts P n`: `n` is the number of the elements with the property `P`;
* `Counts.congr`, `Counts.insert`, `Counts.erase`: what a change of the property does to it.
-/

namespace Machine

variable {α : Type*} {P Q : α → Prop} {n m : ℤ} {x : α}

/-- Finitely many elements have the property `P`, and `n` is their number. -/
def Counts (P : α → Prop) (n : ℤ) : Prop := ∃ T : Finset α, (∀ x, x ∈ T ↔ P x) ∧ (T.card : ℤ) = n

namespace Counts

lemma zero (h : ∀ x, ¬ P x) : Counts P 0 :=
  ⟨∅, fun x => iff_of_false (Finset.notMem_empty x) (h x), rfl⟩

lemma congr (h : Counts P n) (hPQ : ∀ x, Q x ↔ P x) : Counts Q n := by
  obtain ⟨T, hT, hn⟩ := h
  exact ⟨T, fun x => (hT x).trans (hPQ x).symm, hn⟩

/-- One more. -/
lemma insert (h : Counts P n) (hx : ¬ P x) (hQ : ∀ y, Q y ↔ y = x ∨ P y) : Counts Q (n + 1) := by
  classical
  obtain ⟨T, hT, hn⟩ := h
  refine ⟨Insert.insert x T, fun y => ?_, ?_⟩
  · rw [Finset.mem_insert, hT, hQ]
  · rw [Finset.card_insert_of_notMem fun hc => hx ((hT x).mp hc)]
    omega

/-- One less. -/
lemma erase (h : Counts P n) (hx : P x) (hQ : ∀ y, Q y ↔ y ≠ x ∧ P y) : Counts Q (n - 1) := by
  classical
  obtain ⟨T, hT, hn⟩ := h
  have hmem := (hT x).mpr hx
  refine ⟨T.erase x, fun y => ?_, ?_⟩
  · rw [Finset.mem_erase, hT, hQ]
  · have := Finset.card_erase_add_one hmem
    omega

end Counts

end Machine
