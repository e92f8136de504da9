import Mathlib.Tactic

/-!
Doubly linked lists, as two pointer functions on the nodes.

* `Seg next prev a l b`: the nodes of `l` follow one another between the ends `a` and `b`;
* `Seg.remove`, `Seg.pushFront`: taking a node out, and putting one in at the front;
* `Ring next prev z l`: the list `l` closed through the node `z`, with total pointers;
* `Ring.remove`, `Ring.pushBack`: the same on a ring, and `Ring.rotate`: any node is a sentinel;
* `Circuits P next prev`: the nodes of `P`, linked into rings that need no name;
* `follow`, `around`: walking along the pointers, and what such a walk meets.
-/

namespace Linked

variable {α β : Type*} [DecidableEq α]

/-! ### Updates at a place that may be missing -/

/-- The update of a guarded assignment: nothing happens without a node. -/
def updateAt (f : α → β) (o : Option α) (v : β) : α → β :=
  match o with
  | some x => Function.update f x v
  | none => f

@[simp] lemma updateAt_none (f : α → β) (v : β) : updateAt f none v = f := rfl

@[simp] lemma updateAt_some (f : α → β) (x : α) (v : β) :
    updateAt f (some x) v = Function.update f x v := rfl

lemma updateAt_of_ne {f : α → β} {o : Option α} {v : β} {x : α} (h : o ≠ some x) :
    updateAt f o v x = f x := by
  cases o with
  | none => rfl
  | some y => exact Function.update_of_ne (fun he => h (congrArg some he.symm)) ..

/-! ### Segments -/

/-- The nodes of `l` are linked to one another, the first one back to `a` and the last one on
to `b`. -/
def Seg (next prev : α → Option α) : Option α → List α → Option α → Prop
  | _, [], _ => True
  | a, x :: l, b => prev x = a ∧ next x = l.head?.or b ∧ Seg next prev (some x) l b

section

variable {next prev next' prev' : α → Option α} {a b a' b' : Option α} {l l₁ l₂ : List α} {p : α}

omit [DecidableEq α] in
@[simp] lemma seg_nil : Seg next prev a [] b := trivial

omit [DecidableEq α] in
lemma seg_cons : Seg next prev a (p :: l) b
    ↔ prev p = a ∧ next p = l.head?.or b ∧ Seg next prev (some p) l b := Iff.rfl

omit [DecidableEq α] in
/-- A segment splits at every place. -/
lemma seg_append : Seg next prev a (l₁ ++ l₂) b
    ↔ Seg next prev a l₁ (l₂.head?.or b) ∧ Seg next prev (l₁.getLast?.or a) l₂ b := by
  induction l₁ generalizing a with
  | nil => simp
  | cons x l ih =>
      have hhead : (l ++ l₂).head?.or b = l.head?.or (l₂.head?.or b) := by
        cases l <;> simp
      have hlast : (x :: l).getLast?.or a = l.getLast?.or (some x) := by
        rw [List.getLast?_cons]
        cases l.getLast? <;> rfl
      rw [List.cons_append, seg_cons, seg_cons, ih, hhead, hlast]
      tauto

namespace Seg

omit [DecidableEq α] in
/-- A segment depends on the pointers of its own nodes only. -/
lemma congr (h : Seg next prev a l b) (hn : ∀ x ∈ l, next' x = next x)
    (hp : ∀ x ∈ l, prev' x = prev x) : Seg next' prev' a l b := by
  induction l generalizing a with
  | nil => trivial
  | cons x l ih =>
      obtain ⟨h1, h2, h3⟩ := h
      refine ⟨(hp x (by simp)).trans h1, (hn x (by simp)).trans h2, ih h3 ?_ ?_⟩
      · exact fun y hy => hn y (List.mem_cons_of_mem _ hy)
      · exact fun y hy => hp y (List.mem_cons_of_mem _ hy)

/-- The last node may be linked on to another end. -/
lemma setEnd (h : Seg next prev a l b) (hl : l.Nodup) :
    Seg (updateAt next l.getLast? b') prev a l b' := by
  rcases List.eq_nil_or_concat l with rfl | ⟨l, x, rfl⟩
  · trivial
  rw [List.concat_eq_append] at h hl ⊢
  have hx : ∀ y ∈ l, y ≠ x := fun y hy he => by
    have := List.disjoint_of_nodup_append hl hy
    exact this (by simp [he])
  obtain ⟨h1, h2, -, -⟩ := seg_append.mp h
  rw [List.getLast?_concat, updateAt_some]
  refine seg_append.mpr ⟨h1.congr (fun y hy => Function.update_of_ne (hx y hy) ..) fun _ _ => rfl,
    h2, ?_, trivial⟩
  simp

/-- The first node may be linked back to another end. -/
lemma setFront (h : Seg next prev a l b) (hl : l.Nodup) :
    Seg next (updateAt prev l.head? a') a' l b := by
  cases l with
  | nil => trivial
  | cons x l =>
      obtain ⟨-, h2, h3⟩ := h
      have hx : ∀ y ∈ l, y ≠ x := fun y hy he => (List.nodup_cons.mp hl).1 (he ▸ hy)
      refine ⟨by simp, h2, h3.congr (fun _ _ => rfl) fun y hy => ?_⟩
      exact Function.update_of_ne (hx y hy) ..

omit [DecidableEq α] in
/-- The pointers of a node of the list. -/
lemma at_split (h : Seg next prev a (l₁ ++ p :: l₂) b) :
    prev p = l₁.getLast?.or a ∧ next p = l₂.head?.or b := by
  obtain ⟨-, h1, h2, -⟩ := seg_append.mp h
  exact ⟨h1, h2⟩

omit [DecidableEq α] in
/-- The pointers determine the list. -/
lemma unique {l' : List α} (h : Seg next prev a l none) (h' : Seg next prev a' l' none)
    (hl : l.head? = l'.head?) : l = l' := by
  induction l generalizing a a' l' with
  | nil => exact (List.head?_eq_none_iff.mp hl.symm).symm
  | cons x l ih =>
      cases l' with
      | nil => exact nomatch hl
      | cons y l' =>
          obtain rfl : x = y := Option.some.inj hl
          have hnext : l.head?.or none = l'.head?.or none := h.2.1.symm.trans h'.2.1
          rw [Option.or_none, Option.or_none] at hnext
          rw [ih h.2.2 h'.2.2 hnext]

/-- **A node is taken out**: its neighbours are linked to each other. -/
lemma remove (h : Seg next prev a (l₁ ++ p :: l₂) b) (hl : (l₁ ++ p :: l₂).Nodup) :
    Seg (updateAt next l₁.getLast? (l₂.head?.or b)) (updateAt prev l₂.head? (l₁.getLast?.or a))
      a (l₁ ++ l₂) b := by
  obtain ⟨h1, -, -, h2⟩ := seg_append.mp h
  obtain ⟨hl₁, hl₂, hd⟩ := List.nodup_append.mp hl
  have hne : ∀ x ∈ l₁, ∀ y ∈ l₂, x ≠ y := fun x hx y hy => hd x hx y (List.mem_cons_of_mem _ hy)
  refine seg_append.mpr ⟨(h1.setEnd hl₁).congr (fun _ _ => rfl) fun x hx => ?_,
    (h2.setFront (List.nodup_cons.mp hl₂).2).congr (fun y hy => ?_) fun _ _ => rfl⟩
  · exact updateAt_of_ne fun he => hne x hx x (List.mem_of_mem_head? he) rfl
  · exact updateAt_of_ne fun he => hne y (List.mem_of_getLast? he) y hy rfl

/-- **A node is put in at the front.** -/
lemma pushFront (h : Seg next prev a l b) (hl : l.Nodup) (hp : p ∉ l) :
    Seg (Function.update next p (l.head?.or b)) (updateAt (Function.update prev p a) l.head? (some p))
      a (p :: l) b := by
  have hne : ∀ y ∈ l, y ≠ p := fun y hy he => hp (he ▸ hy)
  refine ⟨?_, by simp, ?_⟩
  · rw [updateAt_of_ne fun he => hp (List.mem_of_mem_head? he), Function.update_self]
  · refine ((h.congr (fun y hy => ?_) fun y hy => ?_).setFront hl :
      Seg _ (updateAt (Function.update prev p a) l.head? (some p)) (some p) l b)
    · exact Function.update_of_ne (hne y hy) ..
    · exact Function.update_of_ne (hne y hy) ..

end Seg

end

/-! ### Rings -/

/-- The list `l` is linked into a ring through the node `z`. -/
structure Ring (next prev : α → α) (z : α) (l : List α) : Prop where
  nodup : (z :: l).Nodup
  seg : Seg (fun x => some (next x)) (fun x => some (prev x)) (some z) l (some z)
  first : next z = l.head?.getD z
  last : prev z = l.getLast?.getD z

section

variable {next prev : α → α} {z p : α} {l l₁ l₂ : List α}

omit [DecidableEq α] in
lemma or_some_eq (o : Option α) (z : α) : o.or (some z) = some (o.getD z) := by
  cases o <;> rfl

/-- Off the sentinel, an update at the node `o`, or at the sentinel if there is none, is one at
`o`. -/
lemma some_update_getD (f : α → α) (o : Option α) (v : α) {y : α} (hy : y ≠ z) :
    some (Function.update f (o.getD z) v y) = updateAt (fun x => some (f x)) o (some v) y := by
  cases o with
  | none => rw [Option.getD_none, Function.update_of_ne hy, updateAt_none]
  | some x =>
      by_cases h : y = x
      · simp [h]
      · simp [Function.update_of_ne h]

namespace Ring

omit [DecidableEq α] in
lemma ne_of_mem (h : Ring next prev z l) {x : α} (hx : x ∈ l) : x ≠ z :=
  fun he => (List.nodup_cons.mp h.nodup).1 (he ▸ hx)

omit [DecidableEq α] in
/-- The neighbours of a node of the ring. -/
lemma at_split (h : Ring next prev z (l₁ ++ p :: l₂)) :
    prev p = l₁.getLast?.getD z ∧ next p = l₂.head?.getD z := by
  obtain ⟨h1, h2⟩ := h.seg.at_split
  rw [or_some_eq] at h1 h2
  exact ⟨Option.some.inj h1, Option.some.inj h2⟩

omit [DecidableEq α] in
/-- Only the sentinel of an empty ring is its own neighbour. -/
lemma next_ne (h : Ring next prev z (l₁ ++ p :: l₂)) : next p ≠ p := by
  rw [h.at_split.2]
  cases l₂ with
  | nil => exact (h.ne_of_mem (by simp)).symm
  | cons x l₂ =>
      have hnd := (List.nodup_append.mp (List.nodup_cons.mp h.nodup).2).2.1
      exact fun he => (List.nodup_cons.mp hnd).1 (by simp [show x = p from he])

omit [DecidableEq α] in
/-- A ring depends on the pointers of its own nodes only. -/
lemma congr {next' prev' : α → α} (h : Ring next prev z l) (hn : ∀ x ∈ z :: l, next' x = next x)
    (hv : ∀ x ∈ z :: l, prev' x = prev x) : Ring next' prev' z l := by
  refine ⟨h.nodup, h.seg.congr (fun x hx => ?_) fun x hx => ?_, ?_, ?_⟩
  · exact congrArg some (hn x (List.mem_cons_of_mem z hx))
  · exact congrArg some (hv x (List.mem_cons_of_mem z hx))
  · exact (hn z List.mem_cons_self).trans h.first
  · exact (hv z List.mem_cons_self).trans h.last

omit [DecidableEq α] in
/-- Any other node of the ring may be taken for the sentinel. -/
lemma rotate (h : Ring next prev z (l₁ ++ p :: l₂)) : Ring next prev p (l₂ ++ z :: l₁) := by
  obtain ⟨hp, hn⟩ := h.at_split
  obtain ⟨hs₁, -, -, hs₂⟩ := seg_append.mp h.seg
  have hperm : ((p :: l₂) ++ (z :: l₁)).Perm ((z :: l₁) ++ (p :: l₂)) := List.perm_append_comm
  have hfirst := h.first
  have hlast := h.last
  refine ⟨hperm.nodup_iff.mpr h.nodup, seg_append.mpr ⟨hs₂, ?_, ?_, hs₁⟩, ?_, ?_⟩
  · rw [or_some_eq]
    refine congrArg some (hlast.trans ?_)
    cases l₂ <;> simp [List.getLast?_append, List.getLast?_cons]
  · rw [or_some_eq]
    refine congrArg some (hfirst.trans ?_)
    cases l₁ <;> simp
  · rw [hn]
    cases l₂ <;> simp
  · rw [hp]
    cases l₁ <;> simp [List.getLast?_append, List.getLast?_cons]

omit [DecidableEq α] in
/-- The neighbours of a node lie on the ring. -/
lemma neighbours (h : Ring next prev z l) : next z ∈ z :: l ∧ prev z ∈ z :: l := by
  rw [h.first, h.last]
  cases l with
  | nil => simp
  | cons x l =>
      refine ⟨by simp, List.mem_cons_of_mem z ?_⟩
      rw [List.getLast?_eq_some_getLast (List.cons_ne_nil x l), Option.getD_some]
      exact List.getLast_mem _

/-- **A node leaves the ring.** -/
lemma remove (h : Ring next prev z (l₁ ++ p :: l₂)) :
    Ring (Function.update next (prev p) (next p)) (Function.update prev (next p) (prev p)) z
      (l₁ ++ l₂) := by
  obtain ⟨hp, hn⟩ := h.at_split
  have hsub : (l₁ ++ l₂).Sublist (l₁ ++ p :: l₂) := (List.sublist_cons_self p l₂).append_left l₁
  have hne : ∀ x ∈ l₁ ++ l₂, x ≠ z := fun x hx => h.ne_of_mem (hsub.subset hx)
  have hseg := h.seg.remove (List.nodup_cons.mp h.nodup).2
  rw [or_some_eq, or_some_eq] at hseg
  have hfirst := h.first
  have hlast := h.last
  refine ⟨h.nodup.sublist (hsub.cons_cons z), hseg.congr (fun x hx => ?_) fun x hx => ?_, ?_, ?_⟩
  · rw [hp, hn]
    exact some_update_getD next _ _ (hne x hx)
  · rw [hp, hn]
    exact some_update_getD prev _ _ (hne x hx)
  · rw [hp, hn]
    cases l₁ with
    | nil => simp
    | cons x l₁ =>
        have hm : ((x :: l₁).getLast?).getD z ∈ x :: l₁ := by
          rw [List.getLast?_eq_some_getLast (List.cons_ne_nil x l₁), Option.getD_some]
          exact List.getLast_mem _
        rw [Function.update_of_ne (h.ne_of_mem (List.mem_append_left _ hm)).symm, hfirst]
        rfl
  · rw [hp, hn]
    cases l₂ with
    | nil => simp
    | cons y l₂ =>
        have hy : y ≠ z := hne y (by simp)
        rw [List.head?_cons, Option.getD_some, Function.update_of_ne hy.symm, hlast]
        simp [List.getLast?_append, List.getLast?_cons]

/-- **A node enters the ring**, before the sentinel. -/
lemma pushBack (h : Ring next prev z l) (hp : p ∉ z :: l) :
    Ring (Function.update (Function.update next p z) (prev z) p)
      (Function.update (Function.update prev p (prev z)) z p) z (l ++ [p]) := by
  have hpz : p ≠ z := fun he => hp (by simp [he])
  have hpl : ∀ x ∈ l, x ≠ p := fun x hx he => hp (List.mem_cons_of_mem _ (he ▸ hx))
  have hlastp : prev z ≠ p := fun he => hp (by
    rw [← he, h.last]
    cases hl : l.getLast? with
    | none => simp
    | some x => exact List.mem_cons_of_mem _ (List.mem_of_getLast? hl))
  have hnodup : (z :: (l ++ [p])).Nodup := by
    obtain ⟨h1, h2⟩ := List.nodup_cons.mp h.nodup
    refine List.nodup_cons.mpr ⟨by simp [h1, hpz.symm], ?_⟩
    exact List.nodup_append.mpr ⟨h2, List.nodup_singleton p, fun x hx y hy =>
      List.mem_singleton.mp hy ▸ hpl x hx⟩
  refine ⟨hnodup, seg_append.mpr ⟨?_, ?_, ?_, trivial⟩, ?_, by simp⟩
  · have hseg : Seg _ _ (some z) l (some p) := h.seg.setEnd (List.nodup_cons.mp h.nodup).2
    refine hseg.congr (fun x hx => ?_) fun x hx => ?_
    · rw [h.last, some_update_getD _ _ _ (h.ne_of_mem hx)]
      cases l.getLast? with
      | none => simp [Function.update_of_ne (hpl x hx)]
      | some y =>
          by_cases hxy : x = y
          · simp [hxy]
          · simp [Function.update_of_ne hxy, Function.update_of_ne (hpl x hx)]
    · rw [Function.update_of_ne (h.ne_of_mem hx), Function.update_of_ne (hpl x hx)]
  · dsimp only
    rw [Function.update_of_ne hpz, Function.update_self, h.last, or_some_eq]
  · dsimp only
    rw [Function.update_of_ne hlastp.symm, Function.update_self]
    rfl
  · have hlast := h.last
    cases l with
    | nil =>
        rw [hlast]
        simp
    | cons x l =>
        have hm : prev z ∈ x :: l := by
          rw [hlast, List.getLast?_eq_some_getLast (List.cons_ne_nil x l), Option.getD_some]
          exact List.getLast_mem _
        rw [Function.update_of_ne (h.ne_of_mem hm).symm, Function.update_of_ne hpz.symm, h.first]
        rfl

end Ring

/-! ### Several rings -/

/-- The nodes of `P` are linked into rings: each has a next and a previous one in `P`, and these are
inverse to each other. -/
structure Circuits (P : α → Prop) (next prev : α → α) : Prop where
  next_mem : ∀ x, P x → P (next x)
  prev_mem : ∀ x, P x → P (prev x)
  prev_next : ∀ x, P x → prev (next x) = x
  next_prev : ∀ x, P x → next (prev x) = x

namespace Circuits

variable {P : α → Prop} {c x : α}

/-- A new node alone in its ring. -/
lemma single (h : Circuits P next prev) (hp : ¬ P p) :
    Circuits (fun x => x = p ∨ P x) (Function.update next p p) (Function.update prev p p) := by
  have hne : ∀ x, P x → x ≠ p := fun x hx he => hp (he ▸ hx)
  refine ⟨?_, ?_, ?_, ?_⟩ <;> rintro x (rfl | hx)
  · simp
  · rw [Function.update_of_ne (hne x hx)]
    exact Or.inr (h.next_mem x hx)
  · simp
  · rw [Function.update_of_ne (hne x hx)]
    exact Or.inr (h.prev_mem x hx)
  · simp
  · rw [Function.update_of_ne (hne x hx), Function.update_of_ne (hne _ (h.next_mem x hx)),
      h.prev_next x hx]
  · simp
  · rw [Function.update_of_ne (hne x hx), Function.update_of_ne (hne _ (h.prev_mem x hx)),
      h.next_prev x hx]

/-- A new node enters a ring, right after `c`. -/
lemma insert (h : Circuits P next prev) (hp : ¬ P p) (hc : P c) :
    Circuits (fun x => x = p ∨ P x) (Function.update (Function.update next p (next c)) c p)
      (Function.update (Function.update prev (next c) p) p c) := by
  have hne : ∀ x, P x → x ≠ p := fun x hx he => hp (he ▸ hx)
  have hcp := hne c hc
  have hnp := hne _ (h.next_mem c hc)
  set next' := Function.update (Function.update next p (next c)) c p with hnext
  set prev' := Function.update (Function.update prev (next c) p) p c with hprev
  have hn_p : next' p = next c := by rw [hnext, Function.update_of_ne hcp.symm, Function.update_self]
  have hn_c : next' c = p := Function.update_self ..
  have hn : ∀ x, P x → x ≠ c → next' x = next x := fun x hx hxc => by
    rw [hnext, Function.update_of_ne hxc, Function.update_of_ne (hne x hx)]
  have hv_p : prev' p = c := Function.update_self ..
  have hv_n : prev' (next c) = p := by rw [hprev, Function.update_of_ne hnp, Function.update_self]
  have hv : ∀ x, P x → x ≠ next c → prev' x = prev x := fun x hx hxn => by
    rw [hprev, Function.update_of_ne (hne x hx), Function.update_of_ne hxn]
  refine ⟨?_, ?_, ?_, ?_⟩ <;> rintro x (rfl | hx)
  · exact Or.inr (hn_p ▸ h.next_mem c hc)
  · by_cases hxc : x = c
    · exact Or.inl (hxc ▸ hn_c)
    · exact Or.inr (hn x hx hxc ▸ h.next_mem x hx)
  · exact Or.inr (hv_p ▸ hc)
  · by_cases hxn : x = next c
    · exact Or.inl (hxn ▸ hv_n)
    · exact Or.inr (hv x hx hxn ▸ h.prev_mem x hx)
  · rw [hn_p, hv_n]
  · by_cases hxc : x = c
    · rw [hxc, hn_c, hv_p]
    · have hne' : next x ≠ next c := fun he =>
        hxc ((h.prev_next x hx).symm.trans ((congrArg prev he).trans (h.prev_next c hc)))
      rw [hn x hx hxc, hv _ (h.next_mem x hx) hne', h.prev_next x hx]
  · rw [hv_p, hn_c]
  · by_cases hxn : x = next c
    · rw [hxn, hv_n, hn_p]
    · have hne' : prev x ≠ c := fun he => hxn ((h.next_prev x hx).symm.trans (congrArg next he))
      rw [hv x hx hxn, hn _ (h.prev_mem x hx) hne', h.next_prev x hx]

/-- A node leaves its ring. -/
lemma remove (h : Circuits P next prev) (hp : P p) :
    Circuits (fun x => P x ∧ x ≠ p) (Function.update next (prev p) (next p))
      (Function.update prev (next p) (prev p)) := by
  have hloop : prev p = p ↔ next p = p := by
    constructor <;> intro he
    · exact (congrArg next he).symm.trans (h.next_prev p hp)
    · exact (congrArg prev he).symm.trans (h.prev_next p hp)
  have hn : ∀ x, P x → x ≠ prev p → next x ≠ p := fun x hx hxp he =>
    hxp ((h.prev_next x hx).symm.trans (congrArg prev he))
  have hv : ∀ x, P x → x ≠ next p → prev x ≠ p := fun x hx hxn he =>
    hxn ((h.next_prev x hx).symm.trans (congrArg next he))
  refine ⟨?_, ?_, ?_, ?_⟩ <;> rintro x ⟨hx, hxp⟩
  · by_cases hxv : x = prev p
    · rw [hxv, Function.update_self]
      exact ⟨h.next_mem p hp, fun he => hxp (hxv.trans (hloop.mpr he))⟩
    · rw [Function.update_of_ne hxv]
      exact ⟨h.next_mem x hx, hn x hx hxv⟩
  · by_cases hxn : x = next p
    · rw [hxn, Function.update_self]
      exact ⟨h.prev_mem p hp, fun he => hxp (hxn.trans (hloop.mp he))⟩
    · rw [Function.update_of_ne hxn]
      exact ⟨h.prev_mem x hx, hv x hx hxn⟩
  · by_cases hxv : x = prev p
    · rw [hxv, Function.update_self, Function.update_self]
    · have hne : next x ≠ next p := fun he =>
        hxp ((h.prev_next x hx).symm.trans ((congrArg prev he).trans (h.prev_next p hp)))
      rw [Function.update_of_ne hxv, Function.update_of_ne hne, h.prev_next x hx]
  · by_cases hxn : x = next p
    · rw [hxn, Function.update_self, Function.update_self]
    · have hne : prev x ≠ prev p := fun he =>
        hxp ((h.next_prev x hx).symm.trans ((congrArg next he).trans (h.next_prev p hp)))
      rw [Function.update_of_ne hxn, Function.update_of_ne hne, h.next_prev x hx]

end Circuits

/-! ### Walking -/

/-- The nodes met on the way along `next`, at most `n` of them. -/
def follow (next : α → Option α) : ℕ → Option α → List α
  | n + 1, some x => x :: follow next n (next x)
  | _, _ => []

omit [DecidableEq α] in
/-- A walk along a segment meets its nodes. -/
lemma follow_seg {next prev : α → Option α} {a : Option α} (h : Seg next prev a l none) (n : ℕ) :
    follow next n l.head? = l.take n := by
  induction l generalizing a n with
  | nil => cases n <;> rfl
  | cons x l ih =>
      cases n with
      | zero => rfl
      | succ n =>
          obtain ⟨-, h2, h3⟩ := h
          rw [Option.or_none] at h2
          rw [List.head?_cons, follow, h2, ih h3, List.take_succ_cons]

/-- The nodes met on the way from a node back to the sentinel, at most `n` of them. -/
def around (next : α → α) (z : α) : ℕ → α → List α
  | 0, _ => []
  | n + 1, x => if next x = z then [] else next x :: around next z n (next x)

/-- A walk around a ring meets its nodes, if it may be long enough. -/
lemma around_seg {x : α} (h : Seg (fun x => some (next x)) (fun x => some (prev x)) (some x) l (some z))
    (hx : next x = l.head?.getD z) (hl : z ∉ l) {n : ℕ} (hn : l.length ≤ n) :
    around next z n x = l := by
  induction l generalizing x n with
  | nil =>
      cases n with
      | zero => rfl
      | succ n => exact if_pos hx
  | cons y l ih =>
      obtain ⟨-, h2, h3⟩ := h
      obtain ⟨m, rfl⟩ : ∃ m, n = m + 1 := ⟨n - 1, by simp at hn; omega⟩
      have hy : next x = y := hx
      have hyz : y ≠ z := fun he => hl (by simp [he])
      rw [or_some_eq] at h2
      rw [around, hy, if_neg hyz, ih h3 (Option.some.inj h2) (fun hz => hl (by simp [hz]))]
      simpa using hn

/-- A walk along rings stays on their nodes, and does not come back. -/
lemma Circuits.mem_around {P : α → Prop} (h : Circuits P next prev) {n : ℕ} {x y : α}
    (hy : P y) (hx : x ∈ Linked.around next z n y) : P x ∧ x ≠ z := by
  induction n generalizing y with
  | zero => exact absurd hx List.not_mem_nil
  | succ n ih =>
      rw [Linked.around] at hx
      split at hx
      · exact absurd hx List.not_mem_nil
      · next hyz =>
          rcases List.mem_cons.mp hx with rfl | hx
          · exact ⟨h.next_mem y hy, hyz⟩
          · exact ih (h.next_mem y hy) hx

lemma Ring.around (h : Ring next prev z l) {n : ℕ} (hn : l.length ≤ n) :
    Linked.around next z n z = l :=
  around_seg h.seg h.first (List.nodup_cons.mp h.nodup).1 hn

end

end Linked
