import Os234123.Family.Process

/-!
What the family links stand for, and what the macros do to it.

* `Shape s order kids`: the list of all tasks is `order`, and the children of `a` are `kids a`;
* `Shape.removeLinks`, `Shape.setLinks`: a task is taken out of both lists, or put in;
* `Shape.relink`: both, with new parents in between, as `sys_attach_proc` does;
* `Shape.adoptChild`: one round of the loop of `exit_notify`;
* `Loop`, `Loop.adoptChildren`: the loop as a whole, which leaves stale pointers behind until its
  next round.
-/

namespace Os234123.Family

open Linked

/-! ### The shape of the links -/

/-- The children of `a` are linked as the list `l`. -/
def Kids (s : Sys) (a : Addr) (l : List Addr) : Prop :=
  s.pCptr a = l.head? ∧ Seg s.pOsptr s.pYsptr none l none

/-- The tasks are linked as the list `order`, and the children of each `a` as the list `kids a`. -/
structure Shape (s : Sys) (order : List Addr) (kids : Addr → List Addr) : Prop where
  ring : Ring s.nextTask s.prevTask initTask order
  lists : ∀ a, Kids s a (kids a)
  nodup : ∀ a, (kids a).Nodup
  parent : ∀ a, ∀ p ∈ kids a, s.pPptr p = a

section

variable {s s' : Sys} {order : List Addr} {kids : Addr → List Addr} {p a b : Addr}

/-- The pointers determine the list. -/
lemma Kids.unique {l l' : List Addr} (h : Kids s a l) (h' : Kids s a l') : l = l' :=
  h.2.unique h'.2 (h.1.symm.trans h'.1)

/-- Lists of different parents share no child. -/
lemma Shape.ne_of_mem (h : Shape s order kids) (hab : a ≠ b) {x y : Addr} (hx : x ∈ kids a)
    (hy : y ∈ kids b) : x ≠ y := fun he =>
  hab ((h.parent a x hx).symm.trans (he ▸ h.parent b y hy))

/-! ### The macros -/

lemma removeLinks_task (s : Sys) (p : Addr) : (s.removeLinks p).task = s.task
    ∧ (s.removeLinks p).pPptr = s.pPptr ∧ (s.removeLinks p).pOpptr = s.pOpptr
    ∧ (s.removeLinks p).threadNext = s.threadNext ∧ (s.removeLinks p).threadPrev = s.threadPrev
    ∧ (s.removeLinks p).pidhash = s.pidhash ∧ (s.removeLinks p).place = s.place
    ∧ (s.removeLinks p).fresh = s.fresh ∧ (s.removeLinks p).log = s.log := by
  simp only [Sys.removeLinks]
  split <;> exact ⟨rfl, rfl, rfl, rfl, rfl, rfl, rfl, rfl, rfl⟩

/-- The pointers `REMOVE_LINKS` changes, in terms of the list the task stands in. -/
lemma removeLinks_links {l₁ l₂ : List Addr} (hy : s.pYsptr p = l₁.getLast?)
    (ho : s.pOsptr p = l₂.head?) (hp : p ∉ l₂) :
    (s.removeLinks p).pOsptr = updateAt s.pOsptr l₁.getLast? l₂.head?
      ∧ (s.removeLinks p).pYsptr = updateAt s.pYsptr l₂.head? l₁.getLast?
      ∧ (s.removeLinks p).pCptr
        = if l₁ = [] then Function.update s.pCptr (s.pPptr p) l₂.head? else s.pCptr := by
  have hself : updateAt s.pYsptr (s.pOsptr p) (s.pYsptr p) p = s.pYsptr p := by
    refine updateAt_of_ne fun he => hp ?_
    rw [ho] at he
    exact List.mem_of_mem_head? he
  simp only [Sys.removeLinks, hself]
  rw [hy, ho]
  rcases List.eq_nil_or_concat l₁ with rfl | ⟨l, y, rfl⟩
  · exact ⟨rfl, rfl, by simp⟩
  · simp

/-- **`REMOVE_LINKS`** takes a task out of the list of all tasks and out of its parent's list. -/
lemma Shape.removeLinks (h : Shape s order kids) (hp : p ∈ order) (hk : p ∈ kids (s.pPptr p)) :
    Shape (s.removeLinks p) (order.erase p)
      (Function.update kids (s.pPptr p) ((kids (s.pPptr p)).erase p)) := by
  set a := s.pPptr p with ha
  obtain ⟨l₁, l₂, hl⟩ := List.append_of_mem hk
  obtain ⟨hc, hseg⟩ := h.lists a
  have hnd := h.nodup a
  rw [hl] at hc hseg hnd
  have hp₁ : p ∉ l₁ := fun hm => (List.nodup_append.mp hnd).2.2 p hm p (by simp) rfl
  have hp₂ : p ∉ l₂ := (List.nodup_cons.mp (List.nodup_append.mp hnd).2.1).1
  have herase : (kids a).erase p = l₁ ++ l₂ := by
    rw [hl, List.erase_append_right _ hp₁, List.erase_cons_head]
  obtain ⟨hy, ho⟩ := hseg.at_split
  rw [Option.or_none] at hy ho
  obtain ⟨hO, hY, hC⟩ := removeLinks_links hy ho hp₂
  have hrem := hseg.remove hnd
  rw [Option.or_none, Option.or_none, ← hO, ← hY] at hrem
  have hmem : ∀ x, x ∈ l₁.getLast? ∨ x ∈ l₂.head? → x ∈ kids a := by
    rintro x (hx | hx)
    · exact hl ▸ List.mem_append_left _ (List.mem_of_getLast? hx)
    · exact hl ▸ List.mem_append_right _ (List.mem_cons_of_mem _ (List.mem_of_mem_head? hx))
  refine ⟨?_, fun b => ?_, fun b => ?_, fun b x hx => ?_⟩
  · obtain ⟨o₁, o₂, ho⟩ := List.append_of_mem hp
    have hring := h.ring
    rw [ho] at hring
    have hpo : p ∉ o₁ := fun hm =>
      (List.nodup_append.mp (List.nodup_cons.mp hring.nodup).2).2.2 p hm p (by simp) rfl
    rw [ho, List.erase_append_right _ hpo, List.erase_cons_head]
    have hr := hring.remove
    simp only [Sys.removeLinks, Function.update_of_ne hring.next_ne.symm]
    split <;> exact hr
  · by_cases hb : b = a
    · rw [hb, Function.update_self, herase]
      refine ⟨?_, hrem⟩
      rw [hC]
      cases l₁ with
      | nil => simp [ha]
      | cons x l₁ => simpa using hc
    · rw [Function.update_of_ne hb]
      obtain ⟨hcb, hsb⟩ := h.lists b
      refine ⟨?_, hsb.congr (fun x hx => ?_) fun x hx => ?_⟩
      · rw [hC]
        split_ifs
        · rwa [← ha, Function.update_of_ne hb]
        · exact hcb
      · rw [hO]
        exact updateAt_of_ne fun he => h.ne_of_mem hb hx (hmem x (Or.inl he)) rfl
      · rw [hY]
        exact updateAt_of_ne fun he => h.ne_of_mem hb hx (hmem x (Or.inr he)) rfl
  · by_cases hb : b = a
    · rw [hb, Function.update_self]
      exact (h.nodup a).erase p
    · rw [Function.update_of_ne hb]
      exact h.nodup b
  · rw [(removeLinks_task s p).2.1]
    by_cases hb : b = a
    · rw [hb, Function.update_self] at hx
      exact hb ▸ h.parent a x (List.mem_of_mem_erase hx)
    · rw [Function.update_of_ne hb] at hx
      exact h.parent b x hx

/-- **`SET_LINKS`** puts a task at the end of the list of all tasks and makes it the youngest child of
its parent. -/
lemma Shape.setLinks (h : Shape s order kids) (hp : p ∉ initTask :: order) (hk : ∀ a, p ∉ kids a) :
    Shape (s.setLinks p) (order ++ [p])
      (Function.update kids (s.pPptr p) (p :: kids (s.pPptr p))) := by
  set a := s.pPptr p with ha
  have hlinks : (s.setLinks p).pOsptr = Function.update s.pOsptr p (kids a).head?
      ∧ (s.setLinks p).pYsptr
        = updateAt (Function.update s.pYsptr p none) (kids a).head? (some p)
      ∧ (s.setLinks p).pCptr = Function.update s.pCptr a (some p) := by
    refine ⟨?_, ?_, ?_⟩ <;>
      simp only [Sys.setLinks, Function.update_self, ← ha, (h.lists a).1]
  obtain ⟨hO, hY, hC⟩ := hlinks
  have hpush := (h.lists a).2.pushFront (h.nodup a) (hk a)
  rw [Option.or_none, ← hO, ← hY] at hpush
  refine ⟨?_, fun b => ?_, fun b => ?_, fun b x hx => ?_⟩
  · have hpi : p ≠ initTask := fun he => hp (by simp [he])
    have hr := h.ring.pushBack hp
    simp only [Sys.setLinks, Function.update_of_ne hpi.symm]
    exact hr
  · by_cases hb : b = a
    · rw [hb, Function.update_self]
      exact ⟨by rw [hC, Function.update_self]; rfl, hpush⟩
    · rw [Function.update_of_ne hb]
      obtain ⟨hcb, hsb⟩ := h.lists b
      have hne : ∀ x ∈ kids b, x ≠ p := fun x hx he => hk b (he ▸ hx)
      refine ⟨by rw [hC, Function.update_of_ne hb, hcb], hsb.congr (fun x hx => ?_) fun x hx => ?_⟩
      · rw [hO, Function.update_of_ne (hne x hx)]
      · rw [hY, updateAt_of_ne, Function.update_of_ne (hne x hx)]
        exact fun he => h.ne_of_mem hb hx (List.mem_of_mem_head? he) rfl
  · by_cases hb : b = a
    · rw [hb, Function.update_self]
      exact List.nodup_cons.mpr ⟨hk a, h.nodup a⟩
    · rw [Function.update_of_ne hb]
      exact h.nodup b
  · show s.pPptr x = b
    by_cases hb : b = a
    · rw [hb, Function.update_self] at hx
      rcases List.mem_cons.mp hx with rfl | hx
      · exact hb ▸ rfl
      · exact hb ▸ h.parent a x hx
    · rw [Function.update_of_ne hb] at hx
      exact h.parent b x hx

/-- A task leaves its list: the others do not have it. -/
lemma Shape.update_erase (h : Shape s order kids) :
    Function.update kids (s.pPptr p) ((kids (s.pPptr p)).erase p) = fun a => (kids a).erase p := by
  funext a
  by_cases ha : a = s.pPptr p
  · rw [ha, Function.update_self]
  · rw [Function.update_of_ne ha, List.erase_of_not_mem]
    exact fun hp => ha (h.parent a p hp).symm

/-- **The links after `sys_attach_proc`**, past its checks. -/
lemma Shape.relink (h : Shape s order kids) {t : Addr} (ho : t ∈ order)
    (hk : t ∈ kids (s.pPptr t)) (c : Addr) :
    Shape (s.relink c t) (order.erase t ++ [t])
      (Function.update (fun a => (kids a).erase t) c (t :: (kids c).erase t)) := by
  have hrem := h.removeLinks ho hk
  rw [h.update_erase] at hrem
  have hnot : ∀ a, t ∉ (kids a).erase t := fun a => (h.nodup a).not_mem_erase
  have hmoved : Shape { s.removeLinks t with
      pPptr := Function.update (s.removeLinks t).pPptr t c
      pOpptr := Function.update (s.removeLinks t).pOpptr t c } (order.erase t)
        fun a => (kids a).erase t := by
    refine ⟨hrem.ring, hrem.lists, hrem.nodup, fun a x hx => ?_⟩
    have hxt : x ≠ t := fun he => hnot a (he ▸ hx)
    exact (Function.update_of_ne hxt ..).trans (hrem.parent a x hx)
  obtain ⟨hinit, hnd⟩ := List.nodup_cons.mp h.ring.nodup
  have hring : t ∉ initTask :: order.erase t := by
    rw [List.mem_cons]
    rintro (rfl | ht)
    · exact hinit ho
    · exact hnd.not_mem_erase ht
  have hset := hmoved.setLinks hring hnot
  simp only [Function.update_self] at hset
  exact hset

/-! ### The tasks on the lists -/

/-- A list loses a task that stands in no other one. -/
lemma exists_mem_erase {b : Addr} (hnd : (kids b).Nodup) (honly : ∀ a, p ∈ kids a → a = b)
    (q : Addr) : (∃ a, q ∈ Function.update kids b ((kids b).erase p) a)
      ↔ (∃ a, q ∈ kids a) ∧ q ≠ p := by
  constructor
  · rintro ⟨a, ha⟩
    by_cases hab : a = b
    · rw [hab, Function.update_self, hnd.mem_erase_iff] at ha
      exact ⟨⟨b, ha.2⟩, ha.1⟩
    · rw [Function.update_of_ne hab] at ha
      exact ⟨⟨a, ha⟩, fun he => hab (honly a (he ▸ ha))⟩
  · rintro ⟨⟨a, ha⟩, hq⟩
    refine ⟨a, ?_⟩
    by_cases hab : a = b
    · rw [hab, Function.update_self, hnd.mem_erase_iff]
      exact ⟨hq, hab ▸ ha⟩
    · rwa [Function.update_of_ne hab]

/-- A list gets one more task. -/
lemma exists_mem_cons {b : Addr} (q : Addr) :
    (∃ a, q ∈ Function.update kids b (p :: kids b) a) ↔ q = p ∨ ∃ a, q ∈ kids a := by
  constructor
  · rintro ⟨a, ha⟩
    by_cases hab : a = b
    · rw [hab, Function.update_self] at ha
      exact (List.mem_cons.mp ha).imp_right fun hm => ⟨b, hm⟩
    · rw [Function.update_of_ne hab] at ha
      exact Or.inr ⟨a, ha⟩
  · rintro (rfl | ⟨a, ha⟩)
    · exact ⟨b, by simp⟩
    · refine ⟨a, ?_⟩
      by_cases hab : a = b
      · rw [hab, Function.update_self, ← hab]
        exact List.mem_cons_of_mem _ ha
      · rwa [Function.update_of_ne hab]

/-- The list of all tasks and the lists of children hold the tasks of `live`. -/
def Enlists (s : Sys) (live : Addr → Prop) : Prop :=
  ∃ order kids, Shape s order kids ∧ (∀ q, q ∈ order ↔ live q) ∧ ∀ q, (∃ a, q ∈ kids a) ↔ live q

namespace Enlists

variable {live : Addr → Prop}

/-- The list of children of `a` holds the tasks whose `p_pptr` is `a`. -/
lemma children (h : Enlists s live) (a : Addr) :
    ∃ l, Kids s a l ∧ l.Nodup ∧ ∀ q, q ∈ l ↔ live q ∧ s.pPptr q = a := by
  obtain ⟨order, kids, hsh, -, hcover⟩ := h
  refine ⟨kids a, hsh.lists a, hsh.nodup a, fun q => ⟨fun hq => ?_, ?_⟩⟩
  · exact ⟨(hcover q).mp ⟨a, hq⟩, hsh.parent a q hq⟩
  · rintro ⟨hl, ha⟩
    obtain ⟨b, hb⟩ := (hcover q).mpr hl
    exact ha ▸ hsh.parent b q hb ▸ hb

/-- The condition on the tasks may be put in other words. -/
lemma of_iff {live' : Addr → Prop} (h : Enlists s live) (hl : ∀ q, live' q ↔ live q) :
    Enlists s live' := (funext fun q => propext (hl q) : live' = live) ▸ h

lemma init_not_live (h : Enlists s live) : ¬ live initTask := by
  obtain ⟨order, kids, hsh, hord, -⟩ := h
  exact fun hl => (List.nodup_cons.mp hsh.ring.nodup).1 ((hord _).mpr hl)

/-- The lists depend on the links of their own tasks, and a task that is nobody's parent may forget
its children. -/
lemma congr (h : Enlists s live) (hn : s'.nextTask = s.nextTask) (hp : s'.prevTask = s.prevTask)
    (hy : s'.pYsptr = s.pYsptr) (ho : s'.pOsptr = s.pOsptr)
    (hpp : ∀ q, live q → s'.pPptr q = s.pPptr q)
    (hc : ∀ a, s'.pCptr a = s.pCptr a ∨ s'.pCptr a = none ∧ ∀ q, live q → s.pPptr q ≠ a) :
    Enlists s' live := by
  obtain ⟨order, kids, hsh, hord, hcover⟩ := h
  have hlive : ∀ a, ∀ q ∈ kids a, live q := fun a q hq => (hcover q).mp ⟨a, hq⟩
  refine ⟨order, kids, ⟨hn ▸ hp ▸ hsh.ring, fun a => ⟨?_, ho ▸ hy ▸ (hsh.lists a).2⟩, hsh.nodup,
    fun a q hq => (hpp q (hlive a q hq)).trans (hsh.parent a q hq)⟩, hord, hcover⟩
  rcases hc a with he | ⟨hnone, hno⟩
  · exact he.trans (hsh.lists a).1
  · have hnil : kids a = [] := List.eq_nil_iff_forall_not_mem.mpr fun q hq =>
      hno q (hlive a q hq) (hsh.parent a q hq)
    rw [hnone, hnil]
    rfl

/-- `REMOVE_LINKS` on one of the tasks. -/
lemma removeLinks (h : Enlists s live) (hp : live p) :
    Enlists (s.removeLinks p) fun q => live q ∧ q ≠ p := by
  obtain ⟨order, kids, hsh, hord, hcover⟩ := h
  obtain ⟨a, ha⟩ := (hcover p).mpr hp
  have honly : ∀ b, p ∈ kids b → b = s.pPptr p := fun b hb => (hsh.parent b p hb).symm
  refine ⟨_, _, hsh.removeLinks ((hord p).mpr hp) (honly a ha ▸ ha), fun q => ?_, fun q => ?_⟩
  · rw [(List.nodup_cons.mp hsh.ring.nodup).2.mem_erase_iff, hord, and_comm]
  · rw [exists_mem_erase (hsh.nodup _) honly, hcover]

/-- `SET_LINKS` on one more task. -/
lemma setLinks (h : Enlists s live) (hp : ¬ live p) (hi : p ≠ initTask) :
    Enlists (s.setLinks p) fun q => q = p ∨ live q := by
  obtain ⟨order, kids, hsh, hord, hcover⟩ := h
  have hring : p ∉ initTask :: order := by
    rw [List.mem_cons, hord]
    exact fun hm => hm.elim hi hp
  refine ⟨_, _, hsh.setLinks hring fun a ha => hp ((hcover p).mp ⟨a, ha⟩), fun q => ?_, fun q => ?_⟩
  · rw [List.mem_append, List.mem_singleton, hord, or_comm]
  · rw [exists_mem_cons, hcover]

end Enlists

/-! ### The loop of `exit_notify` -/

/-- The links in the middle of the loop of `exit_notify` by `c`: the first child left to it may
still be linked back to the one that went before. -/
structure Loop (c : Addr) (s : Sys) (order : List Addr) (kids : Addr → List Addr) : Prop where
  ring : Ring s.nextTask s.prevTask initTask order
  lists : ∀ a, a ≠ c → Kids s a (kids a)
  rest : s.pCptr c = (kids c).head? ∧ ∃ front, Seg s.pOsptr s.pYsptr front (kids c) none
  nodup : ∀ a, (kids a).Nodup
  parent : ∀ a, ∀ p ∈ kids a, s.pPptr p = a

/-- **One round of the loop**: the first child goes to its new parent. -/
lemma Loop.adoptChild {c : Addr} {l : List Addr} (h : Loop c s order kids) (hl : kids c = p :: l)
    (hne : s.pOpptr p ≠ c) : Loop c (s.adoptChild c p) order
      (Function.update (Function.update kids c l) (s.pOpptr p) (p :: kids (s.pOpptr p))) := by
  set a := s.pOpptr p with ha
  obtain ⟨hc, front, hseg⟩ := h.rest
  have hnd := h.nodup c
  rw [hl] at hc hseg hnd
  obtain ⟨hpl, hndl⟩ := List.nodup_cons.mp hnd
  obtain ⟨-, hnext, hrest⟩ := hseg
  rw [Option.or_none] at hnext
  have hother : ∀ b, b ≠ c → ∀ x ∈ kids b, x ≠ p := fun b hb x hx he =>
    hb ((h.parent b x hx).symm.trans (he ▸ h.parent c p (by simp [hl])))
  have hpa : p ∉ kids a := fun hm => hother a hne p hm rfl
  have hlists := h.lists a hne
  -- the pointers after the round
  have hO : (s.adoptChild c p).pOsptr = Function.update s.pOsptr p (kids a).head? := by
    simp only [Sys.adoptChild, Sys.modTask, Function.update_self, ← ha, Function.update_of_ne hne,
      hlists.1]
  have hY : (s.adoptChild c p).pYsptr
      = updateAt (Function.update s.pYsptr p none) (kids a).head? (some p) := by
    simp only [Sys.adoptChild, Sys.modTask, Function.update_self, ← ha, Function.update_of_ne hne,
      hlists.1]
  have hC : (s.adoptChild c p).pCptr
      = Function.update (Function.update s.pCptr c l.head?) a (some p) := by
    simp only [Sys.adoptChild, Sys.modTask, Function.update_self, ← ha, hnext]
  have hpush := hlists.2.pushFront (h.nodup a) hpa
  rw [Option.or_none, ← hO, ← hY] at hpush
  have hfar : ∀ b, b ≠ a → ∀ x ∈ kids b, x ≠ p → (s.adoptChild c p).pOsptr x = s.pOsptr x
      ∧ (s.adoptChild c p).pYsptr x = s.pYsptr x := by
    intro b hb x hx hxp
    rw [hO, hY, Function.update_of_ne hxp, updateAt_of_ne, Function.update_of_ne hxp]
    · exact ⟨rfl, rfl⟩
    · intro he
      exact hb ((h.parent b x hx).symm.trans (h.parent a x (List.mem_of_mem_head? he)))
  have hlc : ∀ x ∈ l, x ∈ kids c ∧ x ≠ p := fun x hx =>
    ⟨hl ▸ List.mem_cons_of_mem _ hx, fun he => hpl (he ▸ hx)⟩
  refine ⟨h.ring, fun b hb => ?_, ⟨?_, some p, ?_⟩, fun b => ?_, fun b x hx => ?_⟩
  · by_cases hba : b = a
    · rw [hba, Function.update_self]
      exact ⟨by rw [hC, Function.update_self]; rfl, hpush⟩
    · rw [Function.update_of_ne hba, Function.update_of_ne hb]
      obtain ⟨hcb, hsb⟩ := h.lists b hb
      refine ⟨by rw [hC, Function.update_of_ne hba, Function.update_of_ne hb, hcb], ?_⟩
      exact hsb.congr (fun x hx => (hfar b hba x hx (hother b hb x hx)).1)
        fun x hx => (hfar b hba x hx (hother b hb x hx)).2
  · rw [hC, Function.update_of_ne hne.symm, Function.update_of_ne hne.symm, Function.update_self,
      Function.update_self]
  · rw [Function.update_of_ne hne.symm, Function.update_self]
    exact hrest.congr (fun x hx => (hfar c hne.symm x (hlc x hx).1 (hlc x hx).2).1)
      fun x hx => (hfar c hne.symm x (hlc x hx).1 (hlc x hx).2).2
  · by_cases hba : b = a
    · rw [hba, Function.update_self]
      exact List.nodup_cons.mpr ⟨hpa, h.nodup a⟩
    · rw [Function.update_of_ne hba]
      by_cases hb : b = c
      · rw [hb, Function.update_self]
        exact hndl
      · rw [Function.update_of_ne hb]
        exact h.nodup b
  · show Function.update s.pPptr p a x = b
    by_cases hba : b = a
    · rw [hba, Function.update_self] at hx
      rcases List.mem_cons.mp hx with rfl | hx
      · rw [hba, Function.update_self]
      · rw [Function.update_of_ne (hother a hne x hx), hba]
        exact h.parent a x hx
    · rw [Function.update_of_ne hba] at hx
      by_cases hb : b = c
      · rw [hb, Function.update_self] at hx
        rw [Function.update_of_ne (hlc x hx).2, hb]
        exact h.parent c x (hlc x hx).1
      · rw [Function.update_of_ne hb] at hx
        rw [Function.update_of_ne (hother b hb x hx)]
        exact h.parent b x hx

/-- A loop with nothing left to do. -/
lemma Loop.shape {c : Addr} (h : Loop c s order kids) (hc : kids c = []) : Shape s order kids := by
  refine ⟨h.ring, fun a => ?_, h.nodup, h.parent⟩
  by_cases ha : a = c
  · rw [ha, Kids, hc, h.rest.1, hc]
    exact ⟨rfl, seg_nil⟩
  · exact h.lists a ha

/-- What the loop of `exit_notify` leaves alone. -/
structure SameRest (s s' : Sys) : Prop where
  pOpptr : s'.pOpptr = s.pOpptr
  threadNext : s'.threadNext = s.threadNext
  threadPrev : s'.threadPrev = s.threadPrev
  pidhash : s'.pidhash = s.pidhash
  place : s'.place = s.place
  fresh : s'.fresh = s.fresh
  log : s'.log = s.log
  task : ∀ q, ∃ b, s'.task q = { s.task q with ptraced := b } ∧ (b = true → (s.task q).ptraced = true)

lemma SameRest.refl (s : Sys) : SameRest s s :=
  ⟨rfl, rfl, rfl, rfl, rfl, rfl, rfl, fun q => ⟨(s.task q).ptraced, rfl, id⟩⟩

lemma SameRest.trans {s'' : Sys} (h : SameRest s s') (h' : SameRest s' s'') : SameRest s s'' := by
  refine ⟨h'.pOpptr.trans h.pOpptr, h'.threadNext.trans h.threadNext,
    h'.threadPrev.trans h.threadPrev, h'.pidhash.trans h.pidhash, h'.place.trans h.place,
    h'.fresh.trans h.fresh, h'.log.trans h.log, fun q => ?_⟩
  obtain ⟨b, hb, hbt⟩ := h.task q
  obtain ⟨b', hb', hbt'⟩ := h'.task q
  refine ⟨b', by rw [hb', hb], fun hf => hbt ?_⟩
  have := hbt' hf
  rwa [hb] at this

lemma sameRest_adoptChild (s : Sys) (c p : Addr) : SameRest s (s.adoptChild c p) := by
  refine ⟨rfl, rfl, rfl, rfl, rfl, rfl, rfl, fun q => ?_⟩
  have htask : (s.adoptChild c p).task = Function.update s.task p { s.task p with ptraced := false } :=
    rfl
  by_cases hq : q = p
  · exact ⟨false, by rw [htask, hq, Function.update_self], fun hf => absurd hf Bool.false_ne_true⟩
  · exact ⟨(s.task q).ptraced, by rw [htask, Function.update_of_ne hq], id⟩

/-- The loop leaves everything else alone. -/
lemma sameRest_adoptChildren (c : Addr) (n : ℕ) (s : Sys) :
    SameRest s (Sys.adoptChildren c n s) := by
  induction n generalizing s with
  | zero => exact .refl s
  | succ n ih =>
      rw [Sys.adoptChildren]
      split
      · exact .refl s
      · next p _ => exact (sameRest_adoptChild s c p).trans (ih _)

/-- **The loop of `exit_notify`**, given enough rounds: the children of `c` go to their `p_opptr`, and
the lists are in order again. -/
lemma Loop.adoptChildren {c : Addr} {n : ℕ} (h : Loop c s order kids) (hn : (kids c).length ≤ n)
    (hne : ∀ p ∈ kids c, s.pOpptr p ≠ c) :
    ∃ kids', Shape (Sys.adoptChildren c n s) order kids'
      ∧ (∀ q, (∃ a, q ∈ kids' a) ↔ ∃ a, q ∈ kids a)
      ∧ ∀ q, (Sys.adoptChildren c n s).pPptr q
        = if q ∈ kids c then s.pOpptr q else s.pPptr q := by
  induction n generalizing s kids with
  | zero =>
      have hnil := List.length_eq_zero_iff.mp (Nat.le_zero.mp hn)
      exact ⟨kids, h.shape hnil, fun _ => Iff.rfl, fun q => by simp [hnil, Sys.adoptChildren]⟩
  | succ n ih =>
      cases hl : kids c with
      | nil =>
          have hc : s.pCptr c = none := by rw [h.rest.1, hl]; rfl
          simp only [Sys.adoptChildren, hc]
          exact ⟨kids, h.shape hl, fun _ => Iff.rfl, fun q => by simp⟩
      | cons p l =>
          have hc : s.pCptr c = some p := by rw [h.rest.1, hl]; rfl
          have hp : s.pOpptr p ≠ c := hne p (by simp [hl])
          have hpl : p ∉ l := (List.nodup_cons.mp (hl ▸ h.nodup c)).1
          have hround := h.adoptChild hl hp
          set kids₁ := Function.update (Function.update kids c l) (s.pOpptr p)
            (p :: kids (s.pOpptr p)) with hkids₁
          have hkc : kids₁ c = l := by
            rw [hkids₁, Function.update_of_ne hp.symm, Function.update_self]
          have hlen : (kids₁ c).length ≤ n := by
            rw [hkc]
            rw [hl] at hn
            simpa using hn
          obtain ⟨kids', hshape, hcover, hpp⟩ := ih hround hlen fun q hq =>
            hne q (hl ▸ List.mem_cons_of_mem _ (hkc ▸ hq))
          simp only [Sys.adoptChildren, hc]
          refine ⟨kids', hshape, fun q => (hcover q).trans ?_, fun q => ?_⟩
          · have hin : ∃ a, p ∈ kids a := ⟨c, by simp [hl]⟩
            have hlp : l = (kids c).erase p := by rw [hl, List.erase_cons_head]
            have hkp : kids (s.pOpptr p) = Function.update kids c l (s.pOpptr p) :=
              (Function.update_of_ne hp ..).symm
            have honly : ∀ a, p ∈ kids a → a = c := fun a ha =>
              (h.parent a p ha).symm.trans (h.parent c p (by simp [hl]))
            rw [hkids₁, hkp, exists_mem_cons, hlp, exists_mem_erase (h.nodup c) honly]
            by_cases hqp : q = p
            · exact iff_of_true (Or.inl hqp) (hqp ▸ hin)
            · simp [hqp]
          · rw [hpp, hkc]
            have hO : (s.adoptChild c p).pOpptr = s.pOpptr := rfl
            have hP : (s.adoptChild c p).pPptr = Function.update s.pPptr p (s.pOpptr p) := rfl
            rw [hO, hP]
            by_cases hqp : q = p
            · simp [hqp, hpl]
            · simp [hqp]

/-- **The loop of `exit_notify`** on lists in order: the children of `c` go to their `p_opptr`. -/
lemma Enlists.adoptChildren {live : Addr → Prop} {c : Addr} {n : ℕ} (h : Enlists s live)
    (hn : ∀ q, live q → q < n) (hne : ∀ q, live q → s.pPptr q = c → s.pOpptr q ≠ c) :
    Enlists (Sys.adoptChildren c n s) live
      ∧ (∀ q, live q → (Sys.adoptChildren c n s).pPptr q
        = if s.pPptr q = c then s.pOpptr q else s.pPptr q)
      ∧ ∀ q, ¬ live q → (Sys.adoptChildren c n s).pPptr q = s.pPptr q := by
  obtain ⟨order, kids, hsh, hord, hcover⟩ := h
  have hmem : ∀ q, live q → (q ∈ kids c ↔ s.pPptr q = c) := by
    intro q hq
    refine ⟨hsh.parent c q, fun hc => ?_⟩
    obtain ⟨a, ha⟩ := (hcover q).mpr hq
    exact hc ▸ hsh.parent a q ha ▸ ha
  have hlive : ∀ q ∈ kids c, live q := fun q hq => (hcover q).mp ⟨c, hq⟩
  have hlen : (kids c).length ≤ n := by
    have hsub : kids c ⊆ List.range n := fun q hq => List.mem_range.mpr (hn q (hlive q hq))
    simpa using (List.subperm_of_subset (hsh.nodup c) hsub).length_le
  have hloop : Loop c s order kids :=
    ⟨hsh.ring, fun a _ => hsh.lists a, ⟨(hsh.lists c).1, none, (hsh.lists c).2⟩, hsh.nodup,
      hsh.parent⟩
  obtain ⟨kids', hsh', hcover', hpp⟩ := hloop.adoptChildren hlen fun q hq =>
    hne q (hlive q hq) (hsh.parent c q hq)
  refine ⟨⟨order, kids', hsh', hord, fun q => (hcover' q).trans (hcover q)⟩, fun q hq => ?_,
    fun q hq => ?_⟩
  · rw [hpp, if_congr (hmem q hq) rfl rfl]
  · rw [hpp, if_neg fun hm => hq (hlive q hm)]

end

end Os234123.Family
