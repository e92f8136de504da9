import Mathlib.Tactic

/-!
Going up along a parent function.

* `Reaches f z a`: going up from `a` along `f` comes to `z`;
* `Clear f z S a`: it does, and meets no node of `S` before;
* `Reaches.redirect`: changing some of the parents keeps this, if the new parents lead there;
* `Reaches.exists_iterate`: the way up is shorter than the number of nodes;
* `Reaches.not_closed`: a node on a way that never comes to `z` does not reach it.
-/

namespace Ascent

variable {α : Type*} {f f' : α → α} {z a : α} {S : α → Prop}

/-- Going up along `f` from the node comes to `z`. -/
inductive Reaches (f : α → α) (z : α) : α → Prop where
  | here : Reaches f z z
  | step {a : α} (h : Reaches f z (f a)) : Reaches f z a

/-- Going up along `f` from the node comes to `z` and meets no node of `S` before. -/
inductive Clear (f : α → α) (z : α) (S : α → Prop) : α → Prop where
  | here : Clear f z S z
  | step {a : α} (ha : ¬ S a) (h : Clear f z S (f a)) : Clear f z S a

/-- A way up that meets no changed node is still one. -/
lemma Clear.unaffected (h : Clear f z S a) (hf : ∀ t, ¬ S t → f' t = f t) : Reaches f' z a := by
  induction h with
  | here => exact .here
  | step ha _ ih => exact .step (hf _ ha ▸ ih)

/-- A way up that does not meet `b` meets no child of `b`. -/
lemma Clear.of_parent {b : α} (h : Clear f z (fun x => x = b) a) (hz : z ≠ b) :
    Clear f z (fun x => f x = b) a := by
  induction h with
  | here => exact .here
  | @step a _ h ih =>
      refine .step (fun he => ?_) ih
      cases h with
      | here => exact hz he
      | step hb _ => exact hb he

namespace Reaches

/-- A way up within `S` depends on the parents of the nodes of `S`. -/
lemma congr_on (h : Reaches f z a) (ha : S a) (hS : ∀ x, S x → S (f x))
    (hf : ∀ x, S x → f' x = f x) : Reaches f' z a := by
  induction h with
  | here => exact .here
  | @step a _ ih => exact .step ((hf a ha).symm ▸ ih (hS a ha))

/-- **Changing parents.**  Every node still reaches `z`, if the nodes with a new parent do. -/
lemma redirect (h : Reaches f z a) (hr : ∀ t, f' t ≠ f t → Reaches f' z (f' t)) :
    Reaches f' z a := by
  induction h with
  | here => exact .here
  | @step a _ ih =>
      by_cases ha : f' a = f a
      · exact .step (ha ▸ ih)
      · exact .step (hr a ha)

lemma iterate (h : Reaches f z a) : ∃ n, f^[n] a = z := by
  induction h with
  | here => exact ⟨0, rfl⟩
  | step _ ih =>
      obtain ⟨n, hn⟩ := ih
      exact ⟨n + 1, hn⟩

/-- The first time the way up comes to `z` is earlier than the number of nodes it can meet. -/
theorem exists_iterate [DecidableEq α] {s : Finset α} (hs : ∀ x ∈ s, f x ∈ s) (ha : a ∈ s)
    (h : Reaches f z a) : ∃ n < s.card, f^[n] a = z ∧ ∀ i < n, f^[i] a ≠ z := by
  classical
  have hex := h.iterate
  set n := Nat.find hex with hn
  have hspec : f^[n] a = z := Nat.find_spec hex
  have hmin : ∀ i < n, f^[i] a ≠ z := fun i hi => Nat.find_min hex hi
  have hmem : ∀ i, f^[i] a ∈ s := fun i => by
    induction i with
    | zero => exact ha
    | succ i ih =>
        rw [Function.iterate_succ_apply']
        exact hs _ ih
  -- two visits to one node would make the way up shorter
  have hinj : Set.InjOn (fun i => f^[i] a) (Finset.range (n + 1)) := by
    have hlt : ∀ i j, i < j → j ≤ n → f^[i] a ≠ f^[j] a := by
      intro i j hij hj he
      have hshort : f^[n - j + i] a = z := by
        rw [Function.iterate_add_apply, he, ← Function.iterate_add_apply, Nat.sub_add_cancel hj,
          hspec]
      exact hmin (n - j + i) (by omega) hshort
    intro i hi j hj he
    have hi : i ≤ n := Nat.lt_succ_iff.mp (Finset.mem_range.mp hi)
    have hj : j ≤ n := Nat.lt_succ_iff.mp (Finset.mem_range.mp hj)
    rcases lt_trichotomy i j with hij | hij | hij
    · exact absurd he (hlt i j hij hj)
    · exact hij
    · exact absurd he.symm (hlt j i hij hi)
  have hcard := Finset.card_le_card_of_injOn (fun i => f^[i] a) (fun i _ => hmem i) hinj
  rw [Finset.card_range] at hcard
  exact ⟨n, hcard, hspec, hmin⟩

/-- Nodes that only lead to one another do not reach `z`. -/
lemma not_closed (hf : ∀ x, S x → S (f x)) (hz : ¬ S z) (ha : S a) : ¬ Reaches f z a := by
  intro h
  induction h with
  | here => exact hz ha
  | @step a _ ih => exact ih (hf a ha)

end Reaches

end Ascent
