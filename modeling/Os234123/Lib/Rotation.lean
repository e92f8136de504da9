import Os234123.Lib.Run

/-!
Going round: sequences that take the elements of a list in turn, and runs that report one.

* `GoesRound r l`: the entries of `l` are those of `r` in turn, from the first on;
* `GoesRound.window`: as many consecutive ones as `r` has are a rotation of `r`;
* `GoesRound.periodic`: so they come again and again in the same order;
* `lead f x l`: what those that come before `x` in `l` take;
* `trace`: what the steps of a run report;
* `trace_goesRound`: a run goes round if each report takes the head of a list and rotates it.
-/

namespace Machine

section

variable {α : Type*} {r l : List α} {x : α}

/-! ### Lists that go round -/

/-- The entries of `l` are those of `r`, taken in turn. -/
def GoesRound (r l : List α) : Prop := ∀ i < l.length, l[i]? = r[i % r.length]?

namespace GoesRound

lemma nil (r : List α) : GoesRound r [] := fun i hi => absurd hi (Nat.not_lt_zero i)

/-- The head first, and then the list rotated. -/
lemma cons (hx : r.head? = some x) (h : GoesRound (r.rotate 1) l) : GoesRound r (x :: l) := by
  have hpos : 0 < r.length := List.length_pos_iff.mpr fun hr => by simp [hr] at hx
  intro i hi
  cases i with
  | zero => rw [List.getElem?_cons_zero, Nat.zero_mod, ← List.head?_eq_getElem?, hx]
  | succ i =>
      have hlt : i % r.length < r.length := Nat.mod_lt i hpos
      rw [List.getElem?_cons_succ, h i (Nat.lt_of_succ_lt_succ hi), List.length_rotate,
        List.getElem?_rotate hlt, Nat.mod_add_mod]

/-- **As many consecutive entries as `r` has are a rotation of `r`.** -/
theorem window (h : GoesRound r l) {i : ℕ} (hi : i + r.length ≤ l.length) :
    (l.drop i).take r.length = r.rotate i := by
  refine List.ext_getElem? fun m => ?_
  by_cases hm : m < r.length
  · rw [List.getElem?_take_of_lt hm, List.getElem?_drop, h (i + m) (by omega),
      List.getElem?_rotate hm, Nat.add_comm]
  · rw [List.getElem?_eq_none (by simp; omega), List.getElem?_eq_none (by simpa using hm)]

/-- **The entries come again in the same order.** -/
theorem periodic (h : GoesRound r l) {i : ℕ} (hi : i + r.length < l.length) :
    l[i + r.length]? = l[i]? := by
  rw [h _ hi, h i (by omega), Nat.add_mod_right]

end GoesRound

/-! ### Who comes before -/

section

variable [DecidableEq α] {f g : α → ℕ} {c : α}

/-- What the entries before `x` take. -/
def lead (f : α → ℕ) (x : α) (l : List α) : ℕ := ((l.takeWhile (· ≠ x)).map f).sum

lemma lead_cons (hc : c ≠ x) : lead f x (c :: l) = f c + lead f x l := by
  rw [lead, List.takeWhile_cons_of_pos (by simpa using hc), List.map_cons, List.sum_cons, lead]

lemma lead_append (hx : x ∈ l) : lead f x (l ++ r) = lead f x l := by
  induction l with
  | nil => exact absurd hx List.not_mem_nil
  | cons c l ih =>
      by_cases hc : c = x
      · subst hc
        simp [lead]
      · rw [List.cons_append, lead_cons hc, lead_cons hc, ih (by simpa [Ne.symm hc] using hx)]

lemma lead_mono (h : ∀ y ∈ l, f y ≤ g y) : lead f x l ≤ lead g x l := by
  induction l with
  | nil => exact le_rfl
  | cons c l ih =>
      by_cases hc : c = x
      · subst hc
        simp [lead]
      · rw [lead_cons hc, lead_cons hc]
        exact Nat.add_le_add (h c List.mem_cons_self) (ih fun y hy => h y (List.mem_cons_of_mem c hy))

/-- Going round, what the head takes is over. -/
lemma lead_rotate (hl : l.Nodup) (hc : l.head? = some c) (hne : c ≠ x) (hx : x ∈ l)
    (h : ∀ y ∈ l, y ≠ c → f y ≤ g y) : lead f x (l.rotate 1) + g c ≤ lead g x l := by
  cases l with
  | nil => exact absurd hx List.not_mem_nil
  | cons y l =>
      obtain rfl := Option.some.inj hc
      have hxl : x ∈ l := (List.mem_cons.mp hx).resolve_left hne.symm
      rw [List.rotate_cons_succ, List.rotate_zero, lead_append hxl, lead_cons hne, Nat.add_comm]
      refine Nat.add_le_add_left (lead_mono fun z hz => h z (List.mem_cons_of_mem y hz) ?_) _
      rintro rfl
      exact (List.nodup_cons.mp hl).1 hz

/-- The head takes less than before. -/
lemma lead_lt (hc : l.head? = some c) (hne : c ≠ x) (hlt : f c < g c) (h : ∀ y ∈ l, f y ≤ g y) :
    lead f x l < lead g x l := by
  cases l with
  | nil => simp at hc
  | cons y l =>
      obtain rfl := Option.some.inj hc
      rw [lead_cons hne, lead_cons hne]
      exact Nat.add_lt_add_of_lt_of_le hlt (lead_mono fun z hz => h z (List.mem_cons_of_mem y hz))

lemma lead_le {B : ℕ} (hx : x ∈ l) (h : ∀ y ∈ l, f y ≤ B) : lead f x l ≤ B * (l.length - 1) := by
  induction l with
  | nil => exact absurd hx List.not_mem_nil
  | cons c l ih =>
      by_cases hc : c = x
      · subst hc
        simp [lead]
      · have hxl : x ∈ l := (List.mem_cons.mp hx).resolve_left (Ne.symm hc)
        have hpos := List.length_pos_of_mem hxl
        have hrest := ih hxl fun y hy => h y (List.mem_cons_of_mem c hy)
        have hhead := h c List.mem_cons_self
        calc lead f x (c :: l) = f c + lead f x l := lead_cons hc
          _ ≤ B + B * (l.length - 1) := Nat.add_le_add hhead hrest
          _ = B * (l.length - 1 + 1) := by rw [Nat.mul_succ, Nat.add_comm]
          _ = B * ((c :: l).length - 1) := by rw [Nat.sub_add_cancel hpos, List.length_cons,
            Nat.add_sub_cancel]

end

end

/-! ### Runs that go round -/

section

variable {σ ω α : Type*} (step : ω → σ → Option σ) (f : ω → σ → Option α)

/-- What the steps of a run report, each seen from the state after it. -/
def trace : List ω → σ → List α
  | [], _ => []
  | o :: os, s => (step o s).elim [] fun s' => (f o s').toList ++ trace os s'

variable {step f}

lemma trace_cons {o : ω} {os : List ω} {s s' : σ} (h : step o s = some s') :
    trace step f (o :: os) s = (f o s').toList ++ trace step f os s' := by
  rw [trace, h, Option.elim_some]

/-- Where the label decides whether a step reports, a run reports as often as it has such
labels. -/
lemma trace_length {p : ω → Bool} (hf : ∀ o s, (f o s).isSome = p o) {os : List ω} {s t : σ}
    (h : run step os s = some t) : (trace step f os s).length = os.countP p := by
  induction os generalizing s with
  | nil => rfl
  | cons o os ih =>
      obtain ⟨s', h1, h2⟩ := run_cons_eq_some.mp h
      have hone : (f o s').toList.length = if p o = true then 1 else 0 := by
        rw [← hf o s']
        cases f o s' <;> rfl
      rw [trace_cons h1, List.length_append, hone, ih h2, List.countP_cons, Nat.add_comm]

/-- **The run rule**: each step reports nothing and leaves the list, or reports its head and
rotates it. -/
theorem trace_goesRound {P : σ → Prop} {q : σ → List α} {ok : σ → ω → Prop}
    (hstep : ∀ s o s', P s → ok s o → step o s = some s' → P s' ∧
      ((f o s' = none ∧ q s' = q s)
        ∨ ∃ x, f o s' = some x ∧ (q s).head? = some x ∧ q s' = (q s).rotate 1))
    {os : List ω} {s : σ} (hs : P s) (hok : Along step ok os s) :
    GoesRound (q s) (trace step f os s) := by
  induction os generalizing s with
  | nil => exact GoesRound.nil _
  | cons o os ih =>
      cases h : step o s with
      | none =>
          rw [trace, h]
          exact GoesRound.nil _
      | some s' =>
          obtain ⟨hs', hcase⟩ := hstep s o s' hs hok.1 h
          have hround := ih hs' (hok.2 s' h)
          rw [trace_cons h]
          rcases hcase with ⟨hf, hq⟩ | ⟨x, hf, hx, hq⟩
          · rw [hf, ← hq]
            exact hround
          · rw [hf]
            exact GoesRound.cons hx (hq ▸ hround)

end

end Machine
