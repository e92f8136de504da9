import Mathlib.Tactic

/-!
Families of queues with a location map: every element stands in at most one queue of a family
indexed by keys, and a partial map says in which.

* `Located`: the queues are duplicate free and hold exactly what the map places there;
* `Located.erase`, `Located.insert`: taking an element out and putting one in, at any
  position, follow the map;
* `erase_eq_update`: erasing everywhere is erasing at the place the map gives;
* `insertSecond`: the queue with an element put behind its head;
* `without`, `sendTo`: an element taken out of every queue, and sent to the end of one;
* `Ahead`: one element stands before another in a queue, and what keeps it so;
* `sum_length_erase`, `sum_length_insert`: the total length over a finite set of keys.
-/

namespace Buckets

variable {α κ : Type*}

/-- The queues `q` hold exactly what `loc` places in them, each element once. -/
structure Located (q : κ → List α) (loc : α → Option κ) : Prop where
  nodup : ∀ k, (q k).Nodup
  mem_iff : ∀ x k, x ∈ q k ↔ loc x = some k

namespace Located

variable {q : κ → List α} {loc : α → Option κ}

lemma notMem_of_none (h : Located q loc) {x : α} (hx : loc x = none) (k : κ) : x ∉ q k := by
  rw [h.mem_iff, hx]
  simp

lemma notMem_of_ne (h : Located q loc) {x : α} {k k' : κ} (hx : loc x = some k) (hk : k' ≠ k) :
    x ∉ q k' := by
  rw [h.mem_iff, hx, Option.some.injEq]
  exact fun he => hk he.symm

variable [DecidableEq α] [DecidableEq κ]

/-- Erasing an element from every queue only touches the one that holds it. -/
lemma erase_eq_update (h : Located q loc) {x : α} {k : κ} (hx : loc x = some k) :
    (fun k' => (q k').erase x) = Function.update q k ((q k).erase x) := by
  funext k'
  by_cases hk : k' = k
  · rw [hk, Function.update_self]
  · rw [Function.update_of_ne hk, List.erase_of_not_mem (h.notMem_of_ne hx hk)]

omit [DecidableEq κ] in
/-- Erasing an element that stands nowhere changes nothing. -/
lemma erase_eq_self (h : Located q loc) {x : α} (hx : loc x = none) :
    (fun k' => (q k').erase x) = q :=
  funext fun k' => List.erase_of_not_mem (h.notMem_of_none hx k')

omit [DecidableEq κ] in
/-- Taking an element out of every queue. -/
lemma erase (h : Located q loc) (x : α) :
    Located (fun k => (q k).erase x) (Function.update loc x none) := by
  refine ⟨fun k => (h.nodup k).erase x, fun y k => ?_⟩
  rw [(h.nodup k).mem_erase_iff, h.mem_iff]
  by_cases hy : y = x
  · simp [hy]
  · simp [hy]

/-- Putting an element that stands nowhere into one queue, at any position. -/
lemma insert (h : Located q loc) {x : α} (hx : loc x = none) {k : κ} {l : List α}
    (hl : l.Perm (x :: q k)) :
    Located (Function.update q k l) (Function.update loc x (some k)) := by
  have hnew : x ∉ q k := h.notMem_of_none hx k
  refine ⟨fun k' => ?_, fun y k' => ?_⟩
  · by_cases hk : k' = k
    · subst hk
      rw [Function.update_self, hl.nodup_iff]
      exact List.nodup_cons.mpr ⟨hnew, h.nodup k'⟩
    · rw [Function.update_of_ne hk]
      exact h.nodup k'
  · by_cases hk : k' = k
    · subst hk
      rw [Function.update_self, hl.mem_iff, List.mem_cons, h.mem_iff]
      by_cases hy : y = x
      · simp [hy]
      · simp [hy]
    · rw [Function.update_of_ne hk, h.mem_iff]
      by_cases hy : y = x
      · subst hy
        simp [hx, Ne.symm hk]
      · rw [Function.update_of_ne hy]

omit [DecidableEq α] in
/-- Reordering one queue. -/
lemma perm (h : Located q loc) {k : κ} {l : List α} (hl : l.Perm (q k)) :
    Located (Function.update q k l) loc := by
  refine ⟨fun k' => ?_, fun y k' => ?_⟩ <;> by_cases hk : k' = k
  · subst hk
    rw [Function.update_self, hl.nodup_iff]
    exact h.nodup k'
  · rw [Function.update_of_ne hk]
    exact h.nodup k'
  · subst hk
    rw [Function.update_self, hl.mem_iff, h.mem_iff]
  · rw [Function.update_of_ne hk, h.mem_iff]

end Located

/-! ### Order in a queue -/

/-- `a` stands before `b`. -/
def Ahead (a b : α) (l : List α) : Prop := [a, b].Sublist l

namespace Ahead

variable {a b x : α} {l : List α}

/-- Others leave the queue. -/
lemma erase [DecidableEq α] (h : Ahead a b l) (ha : a ≠ x) (hb : b ≠ x) :
    Ahead a b (l.erase x) := by
  have := List.Sublist.erase x h
  rwa [List.erase_of_not_mem (by simp [ha.symm, hb.symm])] at this

/-- The order of two elements without some of the others. -/
lemma filter_iff {p : α → Bool} (ha : p a = true) (hb : p b = true) :
    Ahead a b (l.filter p) ↔ Ahead a b l := by
  refine ⟨fun h => h.trans List.filter_sublist, fun h => ?_⟩
  have := List.Sublist.filter p h
  rwa [List.filter_eq_self.mpr (by simp [ha, hb])] at this

/-- Others join the queue at the end. -/
lemma append (h : Ahead a b l) (l' : List α) : Ahead a b (l ++ l') :=
  h.trans (List.sublist_append_left l l')

/-- Who joins the queue at the end stands behind everyone. -/
lemma last (ha : a ∈ l) : Ahead a b (l ++ [b]) :=
  (List.singleton_sublist.mpr ha).append (List.Sublist.refl [b])

/-- Who stands behind another is not the first. -/
lemma head?_ne (h : Ahead a b l) (hn : l.Nodup) : l.head? ≠ some b := by
  rintro hb
  cases l with
  | nil => simp at hb
  | cons y l =>
      obtain rfl : y = b := by simpa using hb
      have hmem : y ∈ l := by
        rcases List.sublist_cons_iff.mp h with hs | ⟨r, hr, hs⟩
        · exact hs.subset (by simp)
        · obtain ⟨-, rfl⟩ := List.cons.inj hr
          exact hs.subset (by simp)
      exact (List.nodup_cons.mp hn).1 hmem

end Ahead

/-! ### Moves -/

section Moves

variable [DecidableEq α]

lemma erase_append_singleton {x : α} {l : List α} (hx : x ∉ l) : (l ++ [x]).erase x = l := by
  rw [List.erase_append_right _ hx, List.erase_cons_head, List.append_nil]

/-- Every queue with `x` taken out. -/
def without (x : α) (q : κ → List α) : κ → List α := fun k => (q k).erase x

variable [DecidableEq κ]

/-- `x` goes to the end of the queue `k`. -/
def sendTo (x : α) (k : κ) (q : κ → List α) : κ → List α :=
  Function.update (without x q) k ((q k).erase x ++ [x])

lemma sendTo_self (x : α) (k : κ) (q : κ → List α) : sendTo x k q k = (q k).erase x ++ [x] :=
  Function.update_self ..

lemma sendTo_of_ne (x : α) {k k' : κ} (h : k' ≠ k) (q : κ → List α) :
    sendTo x k q k' = (q k').erase x := Function.update_of_ne h ..

omit [DecidableEq κ] in
lemma without_comm (x y : α) (q : κ → List α) :
    without x (without y q) = without y (without x q) :=
  funext fun _ => List.erase_comm ..

/-- Sending an element to the end of a queue only moves that element. -/
lemma without_sendTo {q : κ → List α} (hq : ∀ k, (q k).Nodup) (x : α) (k : κ) :
    without x (sendTo x k q) = without x q := by
  funext k'
  have hx : x ∉ (q k').erase x := fun hx => ((hq k').mem_erase_iff.mp hx).1 rfl
  by_cases hk : k' = k
  · subst hk
    rw [without, sendTo_self, erase_append_singleton hx, without]
  · rw [without, sendTo_of_ne x hk, List.erase_of_not_mem hx, without]

omit [DecidableEq κ] in
/-- Two elements whose queues agree once others have left keep their order. -/
lemma Ahead.of_without {a b x : α} {q q' : κ → List α} {k : κ} (h : Ahead a b (q k)) (ha : a ≠ x)
    (hb : b ≠ x) (hq : without x q' = without x q) : Ahead a b (q' k) := by
  have he : (q' k).erase x = (q k).erase x := congrFun hq k
  have := h.erase ha hb
  rw [← he] at this
  exact this.trans (List.erase_sublist ..)

/-- Who is sent to the end of the queue stands behind everyone. -/
lemma Ahead.sent {a b : α} {q : κ → List α} {k : κ} (ha : a ∈ q k) (hab : a ≠ b) :
    Ahead a b (sendTo b k q k) := by
  rw [sendTo_self]
  exact .last ((List.mem_erase_of_ne hab).mpr ha)

/-- Taking one element out of a list that has it once. -/
lemma filter_notMem_singleton {l : List α} (hl : l.Nodup) (x : α) :
    l.filter (· ∉ [x]) = l.erase x := by
  rw [hl.erase_eq_filter]
  exact List.filter_congr fun y _ => Bool.eq_iff_iff.mpr (by simp)

/-- Taking two elements out. -/
lemma filter_notMem_pair {l : List α} (hl : l.Nodup) (x y : α) :
    l.filter (· ∉ [x, y]) = (l.erase x).erase y := by
  rw [← filter_notMem_singleton (hl.erase x), ← filter_notMem_singleton hl, List.filter_filter]
  exact List.filter_congr fun z _ => Bool.eq_iff_iff.mpr (by simp [and_comm])

namespace Located

variable {q : κ → List α} {loc : α → Option κ} {x : α} {k : κ}

/-- An element that stands nowhere joins the queue. -/
lemma sendTo_of_none (h : Located q loc) (hx : loc x = none) :
    sendTo x k q = Function.update q k (q k ++ [x]) := by
  have hw : without x q = q := h.erase_eq_self hx
  rw [sendTo, hw, List.erase_of_not_mem (h.notMem_of_none hx k)]

omit [DecidableEq κ] in
lemma without_without (h : Located q loc) : without x (without x q) = without x q :=
  funext fun k => List.erase_of_not_mem fun hx => ((h.nodup k).mem_erase_iff.mp hx).1 rfl

/-- An element may leave first. -/
lemma sendTo_without (h : Located q loc) : sendTo x k (without x q) = sendTo x k q := by
  rw [sendTo, h.without_without, sendTo]
  have hk : (without x q k).erase x = (q k).erase x := congrFun h.without_without k
  rw [hk]

end Located

end Moves

/-! ### Positions -/

/-- The queue with `x` put behind its head, or alone in it. -/
def insertSecond (x : α) : List α → List α
  | [] => [x]
  | y :: l => y :: x :: l

lemma insertSecond_perm (x : α) (l : List α) : (insertSecond x l).Perm (x :: l) := by
  cases l with
  | nil => exact List.Perm.refl _
  | cons y l => exact List.Perm.swap x y l

@[simp] lemma insertSecond_ne_nil (x : α) (l : List α) : insertSecond x l ≠ [] := by
  cases l <;> simp [insertSecond]

lemma append_singleton_perm (x : α) (l : List α) : (l ++ [x]).Perm (x :: l) :=
  List.perm_append_comm

lemma erase_insertSecond [DecidableEq α] {x : α} {l : List α} (hx : x ∉ l) :
    (insertSecond x l).erase x = l := by
  cases l with
  | nil => exact List.erase_cons_head ..
  | cons y l =>
      have hy : y ≠ x := fun he => hx (by simp [he])
      rw [insertSecond, List.erase_cons_tail (by simpa using hy), List.erase_cons_head]

/-! ### Total lengths -/

variable [DecidableEq κ]

/-- The total length drops by one when an element leaves. -/
lemma sum_length_erase [DecidableEq α] {q : κ → List α} {S : Finset κ} {k : κ} (hk : k ∈ S) {x : α}
    (hx : x ∈ q k) :
    ∑ j ∈ S, (Function.update q k ((q k).erase x) j).length + 1 = ∑ j ∈ S, (q j).length := by
  rw [← Finset.add_sum_erase S _ hk, ← Finset.add_sum_erase S (fun j => (q j).length) hk,
    Function.update_self, List.length_erase_of_mem hx]
  have hpos : 0 < (q k).length := List.length_pos_of_mem hx
  have hrest : ∑ j ∈ S.erase k, (Function.update q k ((q k).erase x) j).length
      = ∑ j ∈ S.erase k, (q j).length :=
    Finset.sum_congr rfl fun j hj => by rw [Function.update_of_ne (Finset.ne_of_mem_erase hj)]
  omega

/-- The total length grows by one when an element enters. -/
lemma sum_length_insert {q : κ → List α} {S : Finset κ} {k : κ} (hk : k ∈ S) {x : α} {l : List α}
    (hl : l.Perm (x :: q k)) :
    ∑ j ∈ S, (Function.update q k l j).length = ∑ j ∈ S, (q j).length + 1 := by
  rw [← Finset.add_sum_erase S _ hk, ← Finset.add_sum_erase S (fun j => (q j).length) hk,
    Function.update_self, hl.length_eq, List.length_cons]
  have hrest : ∑ j ∈ S.erase k, (Function.update q k l j).length
      = ∑ j ∈ S.erase k, (q j).length :=
    Finset.sum_congr rfl fun j hj => by rw [Function.update_of_ne (Finset.ne_of_mem_erase hj)]
  omega

end Buckets
