import Os234123.Family.Calls

/-!
Listing the children.

* `Links.childCount_eq`: `sys_get_child_process_count` counts the children;
* `copyPids_seg`: the loop of `sys_get_child_processes` copies their pids, and follows a null pointer if
  it is to copy more;
* `Links.exec`: what forks, attachments and exits of others leave of a process asleep in its
  allocation;
* `walk_iff`: the walk after the allocation is right exactly when there are still enough children.
-/

namespace Os234123.Family

open Linked Machine

section

variable {s s' : Sys} {p q c : Addr} {o : Op} {size : ℕ}

/-! ### The two loops -/

/-- The loop that counts comes to the end of the list. -/
lemma countFrom_seg {a : Option Addr} {x y : Addr} {l : List Addr} {n : ℕ}
    (h : Seg s.pOsptr s.pYsptr a (x :: l) none) (hy : y ∉ l) (hn : l.length ≤ n) :
    s.countFrom y n x = l.length + 1 := by
  induction n generalizing a x l with
  | zero =>
      rw [List.length_eq_zero_iff.mp (Nat.le_zero.mp hn)]
      rfl
  | succ n ih =>
      obtain ⟨-, hnext, hrest⟩ := h
      rw [Option.or_none] at hnext
      rw [Sys.countFrom, hnext]
      cases l with
      | nil => rfl
      | cons z l =>
          have hzy : z ≠ y := fun he => hy (he ▸ List.mem_cons_self)
          have hrec := ih hrest (fun hm => hy (List.mem_cons_of_mem _ hm)) (Nat.le_of_succ_le_succ hn)
          simp only [List.head?_cons, if_neg hzy, hrec, List.length_cons]

/-- The loop that copies `n` pids needs a list of that length. -/
lemma copyPids_seg {a : Option Addr} {l : List Addr} (h : Seg s.pOsptr s.pYsptr a l none) (n : ℕ) :
    s.copyPids n l.head?
      = if n ≤ l.length then some ((l.take n).map fun p => (s.task p).pid) else none := by
  induction l generalizing a n with
  | nil =>
      cases n with
      | zero => rfl
      | succ n => rfl
  | cons x l ih =>
      cases n with
      | zero => rfl
      | succ n =>
          obtain ⟨-, hnext, hrest⟩ := h
          rw [Option.or_none] at hnext
          rw [List.head?_cons, Sys.copyPids, hnext, ih hrest]
          by_cases hn : n ≤ l.length
          · rw [if_pos hn, if_pos (by simpa using hn)]
            rfl
          · rw [if_neg hn, if_neg (by simpa using hn)]
            rfl

/-- Nothing is allocated when nothing is asked for or there is nobody. -/
lemma getChildrenHead_nil {maxLength : ℕ} (h : maxLength = 0 ∨ s.pCptr c = none) :
    s.getChildrenHead c true maxLength = .error (.ok 0) := by
  rw [Sys.getChildrenHead, if_neg (not_not_intro rfl), if_pos h]

namespace Links

/-- **`sys_get_child_process_count`.** -/
lemma childCount_eq (h : Links s) (c : Addr) :
    s.sysGetChildProcessCount c = (s.children c).length := by
  obtain ⟨⟨hhead, hseg⟩, hnd, hmem⟩ := h.children_spec c
  have hlen := h.length_le hnd fun q hq => ((hmem q).mp hq).1
  rw [Sys.sysGetChildProcessCount, hhead]
  cases hl : s.children c with
  | nil => rfl
  | cons x l =>
      rw [hl] at hseg hnd hlen
      refine countFrom_seg hseg (List.nodup_cons.mp hnd).1 ?_
      exact (Nat.le_succ _).trans hlen

/-- Otherwise there is room for as many as there are. -/
lemma getChildrenHead_eq (h : Links s) {maxLength : ℕ}
    (hno : ¬ (maxLength = 0 ∨ s.pCptr c = none)) :
    s.getChildrenHead c true maxLength = .ok (min maxLength (s.children c).length) := by
  have hmin : (if (s.children c).length < maxLength then (s.children c).length else maxLength)
      = min maxLength (s.children c).length := by
    split <;> omega
  rw [Sys.getChildrenHead, if_neg (not_not_intro rfl), if_neg hno, h.childCount_eq, ← hmin]

/-- The array `sys_get_child_processes` allocates. -/
lemma size_eq (h : Links s) {maxLength : ℕ}
    (hhead : s.getChildrenHead c true maxLength = .ok size) :
    size = min maxLength (s.children c).length := by
  by_cases hno : maxLength = 0 ∨ s.pCptr c = none
  · rw [getChildrenHead_nil hno] at hhead
    exact nomatch hhead
  · rw [h.getChildrenHead_eq hno] at hhead
    exact (Except.ok.inj hhead).symm

/-- The walk over the children. -/
lemma getChildrenTail_eq (h : Links s) (c : Addr) (size : ℕ) : s.getChildrenTail c size
    = if size ≤ (s.children c).length
      then some (((s.children c).take size).map fun p => (s.task p).pid) else none := by
  obtain ⟨⟨hhead, hseg⟩, -, -⟩ := h.children_spec c
  rw [Sys.getChildrenTail, hhead, copyPids_seg hseg]

end Links

/-! ### What the others do meanwhile -/

/-- Forks, attachments and exits. -/
def ForksAttachesExits : Op → Prop
  | .fork .. | .attach .. | .exit .. | .exitNotify .. => True
  | _ => False

lemma exitNotify_place (s : Sys) (c : Addr) :
    (s.exitNotify c).place = Function.update s.place c .gone := by
  rw [Sys.exitNotify, Sys.goto, (sameRest_adoptChildren ..).place]
  rfl

/-- A process asleep in its allocation stays there while others fork, attach and exit. -/
lemma Links.exec (h : Links s) (hi : HasInit s) (hp : s.place c = .counted size)
    (ho : ForksAttachesExits o) (hs : Sys.exec o s = some s') :
    (Links s' ∧ HasInit s') ∧ s'.place c = .counted size := by
  have huser : ∀ d, s.InUser d → c ≠ d := fun d hd he => by
    rw [he, hd.2.1] at hp
    exact nomatch hp
  cases o with
  | fork d flags pid =>
      obtain ⟨⟨hd, hpos, hfree⟩, hs⟩ := Option.ite_none_right_eq_some.mp hs
      obtain rfl := Option.some.inj hs
      rcases doFork_cases (h.pids d hd.1) hpos flags with he | he <;> rw [he]
      · exact ⟨⟨h, hi⟩, hp⟩
      · obtain ⟨-, hplace, -⟩ := forkChild_fields s d flags pid
        have hlc : s.Listed c := by
          rcases h.asleep c with hx | hx | hl
          · exact nomatch hp.symm.trans hx
          · exact nomatch hp.symm.trans hx
          · exact hl
        rw [hplace, Function.update_of_ne (h.fresh c (Or.inr hlc)).ne]
        exact ⟨⟨h.forkChild (Or.inr hd.1) hd.active.stays (fun _ => hd.1) hpos fun q hq => (hfree q hq).1,
          hi.forkChild h d flags pid⟩, hp⟩
  | attach d pid =>
      obtain ⟨hd, hs⟩ := Option.ite_none_right_eq_some.mp hs
      obtain ⟨⟨s₁, r⟩, hatt, rfl⟩ := Option.map_eq_some_iff.mp hs
      rcases sysAttachProc_cases hatt with ⟨-, -, rfl⟩ | ⟨t, ht, -, rfl⟩
      · exact ⟨⟨h, hi⟩, hp⟩
      · have hlt := (findTaskByPid_eq_some (attachTarget_ok ht).1).1
        obtain ⟨-, -, -, -, -, -, hplace, -⟩ := relink_fields s d t
        refine ⟨⟨h.relink (h.alive_of_stays (Or.inr hd.1) hd.active.stays).1 hlt, hi.relink d t⟩, ?_⟩
        exact (congrFun hplace c).trans hp
  | exit d code =>
      obtain ⟨⟨hd, hpid⟩, hs⟩ := Option.ite_none_right_eq_some.mp hs
      obtain rfl := Option.some.inj hs
      refine ⟨⟨h.exitBegin hd.1 hd.active.stays code, hi.exitBegin hpid code⟩, ?_⟩
      exact (Function.update_of_ne (huser d hd) ..).trans hp
  | exitNotify d =>
      obtain ⟨⟨hd, hx⟩, hs⟩ := Option.ite_none_right_eq_some.mp hs
      obtain rfl := Option.some.inj hs
      have hex := (h.exiting d (Or.inr hd)).mpr (Or.inl hx)
      have hcd : c ≠ d := fun he => nomatch (he ▸ hp).symm.trans hx
      rw [exitNotify_place, Function.update_of_ne hcd]
      exact ⟨⟨h.exitNotify hi hd hex, hi.exitNotify h hd hex⟩, hp⟩
  | _ => exact ho.elim

/-! ### The walk -/

/-- The walk of `sys_get_child_processes` follows no null pointer, and copies pids of children of the
caller. -/
def WalksChildren (s : Sys) (c : Addr) (size : ℕ) : Prop :=
  ∃ pids, s.getChildrenTail c size = some pids
    ∧ ∀ pid ∈ pids, ∃ q, s.Listed q ∧ s.pPptr q = c ∧ (s.task q).pid = pid

lemma Links.walksChildren_iff (h : Links s) (c : Addr) (size : ℕ) :
    WalksChildren s c size ↔ size ≤ (s.children c).length := by
  rw [WalksChildren, h.getChildrenTail_eq]
  constructor
  · rintro ⟨pids, hpids, -⟩
    by_contra hn
    rw [if_neg hn] at hpids
    exact nomatch hpids
  · intro hn
    refine ⟨_, if_pos hn, fun pid hpid => ?_⟩
    obtain ⟨q, hq, rfl⟩ := List.mem_map.mp hpid
    obtain ⟨hl, hpc⟩ := h.mem_children.mp (List.mem_of_mem_take hq)
    exact ⟨q, hl, hpc, rfl⟩

/-- **The walk after the allocation** is right exactly when the children that were to be copied are
not more than there are now. -/
theorem walk_iff (h : Links s) (hi : HasInit s) (hc : s.InUser c) {maxLength : ℕ}
    (hhead : s.getChildrenHead c true maxLength = .ok size) {ops : List Op}
    (hops : ∀ o ∈ ops, ForksAttachesExits o)
    (hrun : run Sys.exec ops (s.goto c (.counted size)) = some s') :
    s'.place c = .counted size
      ∧ (WalksChildren s' c size ↔ min maxLength (s.children c).length ≤ (s'.children c).length) := by
  have hquiet : Quiet s (s.goto c (.counted size)) :=
    .goto hc.1 hc.active.stays ⟨fun he => (nomatch he), fun he => nomatch he⟩
  have hend : (Links s' ∧ HasInit s') ∧ s'.place c = .counted size :=
    run_induct_along (P := fun s => (Links s ∧ HasInit s) ∧ s.place c = .counted size)
      (fun _ _ _ hs ho he => Links.exec hs.1.1 hs.1.2 hs.2 ho he)
      ⟨⟨h.quiet hquiet, hi.quiet hquiet⟩, Sys.goto_place_self ..⟩ (Along.of_forall hops _) hrun
  refine ⟨hend.2, ?_⟩
  rw [hend.1.1.walksChildren_iff, h.size_eq hhead]

/-- 2 forks 3 and 4. -/
def twoChildren : List Call := [.fork 1 .plain 2, .fork 2 .plain 3, .fork 2 .plain 4]

/-- While 2 sleeps, 3 forks 5, which `init` attaches. -/
theorem walk_untouched : ∃ s s', run Sys.callExec twoChildren Sys.booted = some s
    ∧ run Sys.exec [.fork 3 .plain 5, .attach 1 5] (s.goto 2 (.counted 2)) = some s'
    ∧ WalksChildren s' 2 2 := by
  have hrun : ((run Sys.callExec twoChildren Sys.booted).any fun s =>
      decide (s.InUser 2 ∧ s.getChildrenHead 2 true 5 = .ok 2)
        && (run Sys.exec [.fork 3 .plain 5, .attach 1 5] (s.goto 2 (.counted 2))).any fun s' =>
          decide (min 5 (s.children 2).length ≤ (s'.children 2).length)) = true := by
    decide +kernel
  obtain ⟨s, hs, h⟩ := (Option.any_eq_true _ _).mp hrun
  obtain ⟨hhead, h⟩ := (Bool.and_eq_true _ _).mp h
  obtain ⟨s', hs', hlen⟩ := (Option.any_eq_true _ _).mp h
  obtain ⟨hc, hhead⟩ := of_decide_eq_true hhead
  obtain ⟨hwf, hi⟩ := wf_of_run hs
  refine ⟨s, s', hs, hs', ?_⟩
  refine (walk_iff hwf.toLinks hi hc hhead (fun o ho => ?_) hs').2.mpr (of_decide_eq_true hlen)
  rcases List.mem_pair.mp ho with rfl | rfl <;> trivial

/-- **The walk follows a null pointer**: while 2 sleeps, `init` attaches 3. -/
theorem not_walksChildren : ∃ s c maxLength size ops s', Links s ∧ HasInit s ∧ s.InUser c
    ∧ s.getChildrenHead c true maxLength = .ok size ∧ (∀ o ∈ ops, ForksAttachesExits o)
    ∧ run Sys.exec ops (s.goto c (.counted size)) = some s' ∧ ¬ WalksChildren s' c size := by
  have hrun : ((run Sys.callExec twoChildren Sys.booted).any fun s =>
      decide (s.InUser 2 ∧ s.getChildrenHead 2 true 5 = .ok 2)
        && (run Sys.exec [.attach 1 3] (s.goto 2 (.counted 2))).any fun s' =>
          decide (s'.getChildrenTail 2 2 = none)) = true := by
    decide +kernel
  obtain ⟨s, hs, h⟩ := (Option.any_eq_true _ _).mp hrun
  obtain ⟨hhead, h⟩ := (Bool.and_eq_true _ _).mp h
  obtain ⟨s', hs', hnone⟩ := (Option.any_eq_true _ _).mp h
  obtain ⟨hc, hhead⟩ := of_decide_eq_true hhead
  obtain ⟨hwf, hi⟩ := wf_of_run hs
  refine ⟨s, 2, 5, 2, [.attach 1 3], s', hwf.toLinks, hi, hc, hhead, fun o ho => ?_, hs', ?_⟩
  · rw [List.mem_singleton.mp ho]
    trivial
  · rintro ⟨pids, hpids, -⟩
    exact nomatch (of_decide_eq_true hnone).symm.trans hpids

end

end Os234123.Family
