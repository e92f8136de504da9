import Mathlib.Tactic

/-!
Numbers given out in turn from a circle, the first free one after the last one given.

* `succ lo hi`: the order in which numbers are tried, upwards and from `hi` back to `lo`;
* `Passed lo hi b l u`: the search that started after `b` and stands at `l` has tried `u`;
* `First lo hi used b r`: `r` is the first number after `b` that is not in use, and there is at most
  one such number;
* `Gap used l h`: a record that nothing between `l` and `h` is in use, which saves a search.

The numbers below `lo` are tried only as long as the search has not come round.
-/

namespace Allot

variable {lo hi : ℤ} {used used' : ℤ → Prop} {b l h r u : ℤ}

/-- The number tried after `l`. -/
def succ (lo hi l : ℤ) : ℤ := if hi ≤ l + 1 then lo else l + 1

/-- A search that started after `b` and stands at `l` has passed `u`. -/
def Passed (lo hi b l u : ℤ) : Prop :=
  if b < l then b < u ∧ u < l else b < u ∧ u < hi ∨ lo ≤ u ∧ u < l

/-- The first number after `b` that is not in use. -/
structure First (lo hi : ℤ) (used : ℤ → Prop) (b r : ℤ) : Prop where
  bounds : (lo ≤ r ∨ b < r) ∧ r < hi
  free : ¬ used r
  passed : ∀ u, Passed lo hi b r u → used u

/-- Nothing between `l` and `h` is in use. -/
def Gap (used : ℤ → Prop) (l h : ℤ) : Prop := ∀ u, used u → l < u → h ≤ u

/-! ### The order of the search -/

lemma succ_bounds (hlo : lo < hi) : (lo ≤ succ lo hi l ∨ l < succ lo hi l) ∧ succ lo hi l < hi := by
  rw [succ]
  split_ifs <;> omega

lemma succ_of_lt (hl : l + 1 < hi) : succ lo hi l = l + 1 := if_neg (not_le.mpr hl)

lemma succ_of_le (hl : hi ≤ l + 1) : succ lo hi l = lo := if_pos hl

/-- The first step passes nothing. -/
lemma not_passed_succ (hlo : lo ≤ hi) (hb : b < hi) : ¬ Passed lo hi b (succ lo hi b) u := by
  simp only [Passed, succ]
  split_ifs <;> omega

/-- A step passes the number it leaves. -/
lemma passed_succ (hlo : lo ≤ hi) (hlt : l < hi) (hb : b < hi)
    (hu : Passed lo hi b (succ lo hi l) u) : Passed lo hi b l u ∨ u = l := by
  simp only [Passed, succ] at *
  split_ifs at * <;> omega

/-- A search that has come round has passed every number but the one it started from. -/
lemma passed_round (hu : lo ≤ u ∧ u < hi) (hne : u ≠ b) : Passed lo hi b b u := by
  simp only [Passed, lt_irrefl, if_false]
  omega

/-! ### The first free number -/

/-- Two first free numbers are equal, as each has not passed the other. -/
theorem First.unique {r' : ℤ} (h : First lo hi used b r) (h' : First lo hi used b r') : r = r' := by
  have h1 : ¬ Passed lo hi b r' r := fun hp => h.free (h'.passed r hp)
  have h2 : ¬ Passed lo hi b r r' := fun hp => h'.free (h.passed r' hp)
  have h3 := h.bounds
  have h4 := h'.bounds
  simp only [Passed] at h1 h2
  split_ifs at h1 h2 <;> omega

/-- How many numbers a search at `l` has still to try before it comes back to `b`. -/
def left (lo hi b l : ℤ) : ℤ := if l < b then b - l else hi - l + (b - lo)

lemma left_succ (hb : lo ≤ b) (hb' : b < hi) (hl : lo ≤ l) (hlt : l < hi) (hs : succ lo hi l ≠ b) :
    left lo hi b (succ lo hi l) = left lo hi b l - 1 := by
  simp only [left, succ] at *
  split_ifs at * <;> omega

lemma left_pos (hb : lo ≤ b) (hlt : l < hi) : 0 < left lo hi b l := by
  rw [left]
  split_ifs <;> omega

lemma left_le (hb : b < hi) (hl : lo ≤ l) : left lo hi b l ≤ hi - lo := by
  rw [left]
  split_ifs <;> omega

/-! ### The record of a gap -/

/-- A gap is kept as long as the numbers that come into use lie outside. -/
lemma Gap.mono (h : Gap used l r) (hnew : ∀ u, used' u → used u ∨ u ≤ l ∨ r ≤ u) : Gap used' l r := by
  intro u hu hl
  rcases hnew u hu with hold | hle | hge
  · exact h u hold hl
  · exact absurd hle (not_le.mpr hl)
  · exact hge

/-- What a gap saves: its first number is free. -/
theorem Gap.first (hg : Gap used b h) (hlt : b + 1 < h) (hh : h ≤ hi) (hlo : lo ≤ hi) :
    First lo hi used b (b + 1) := by
  refine ⟨⟨Or.inr (lt_add_one b), hlt.trans_le hh⟩, fun hu => ?_, fun u hu => ?_⟩
  · exact absurd (hg _ hu (lt_add_one b)) (not_le.mpr hlt)
  · have hsucc : succ lo hi b = b + 1 := succ_of_lt (hlt.trans_le hh)
    rw [← hsucc] at hu
    exact absurd hu (not_passed_succ hlo (by omega))

/-- The gap is as wide from a number inside it. -/
lemma Gap.next (hg : Gap used b h) : Gap used (b + 1) h := fun u hu hl => hg u hu (by omega)

end Allot
