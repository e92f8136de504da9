import Os234123.Family.Ancestors
import Os234123.Family.Listing

/-!
What a successful `sys_attach_proc` does to the lists of children, and what the other two calls of
`kernel/pattach.c` say about them.

* `ListsChildren s a`: `sys_get_child_process_count` and `sys_get_child_processes` agree on the children
  of `a`; `Links.listsChildren`: they do for everybody;
* `Links.children_relink`: the two macros around the new pointers move a task from its list to the
  head of another one, or of the same one;
* `Moved`, `Wf.moved`: nothing else changes;
* `attach_moves_child`: both together, with the walk up the ancestors.
-/

namespace Os234123.Family

open Linked Machine

section

variable {s s' : Sys} {order : List Addr} {kids : Addr → List Addr} {c t : Addr}

/-! ### Listing without sleeping -/

/-- The children of `a` are linked from the youngest to the oldest, one call counts them, and the other
one writes the pids of the first `maxLength` and returns how many it has written. -/
structure ListsChildren (s : Sys) (a : Addr) : Prop where
  linked : Kids s a (s.children a)
  nodup : (s.children a).Nodup
  mem : ∀ q, q ∈ s.children a ↔ s.Listed q ∧ s.pPptr q = a
  count : s.sysGetChildProcessCount a = (s.children a).length
  written : ∀ maxLength, ∃ pids : List ℤ,
    s.sysGetChildProcesses a true maxLength = some (.ok pids.length, pids)
      ∧ pids.length = min maxLength (s.sysGetChildProcessCount a)
      ∧ pids = ((s.children a).map fun q => (s.task q).pid).take maxLength

/-- **Listing the children** without sleeping. -/
lemma Links.sysGetChildProcesses_eq (h : Links s) (a : Addr) (maxLength : ℕ) :
    s.sysGetChildProcesses a true maxLength
      = some (.ok (min maxLength (s.children a).length : ℕ),
        ((s.children a).map fun q => (s.task q).pid).take maxLength) := by
  rw [Sys.sysGetChildProcesses]
  by_cases hno : maxLength = 0 ∨ s.pCptr a = none
  · rw [getChildrenHead_nil hno]
    rcases hno with rfl | hnone
    · simp
    · have hnil : s.children a = [] := by
        rw [← List.head?_eq_none_iff, ← (h.children_spec a).1.1]
        exact hnone
      simp [hnil]
  · rw [h.getChildrenHead_eq hno]
    have htail := h.getChildrenTail_eq a (min maxLength (s.children a).length)
    rw [if_pos (min_le_right ..), ← List.take_eq_take_min, List.map_take] at htail
    simp only [htail, Option.map_some]

lemma Links.listsChildren (h : Links s) (a : Addr) : ListsChildren s a := by
  obtain ⟨hlinked, hnd, hmem⟩ := h.children_spec a
  refine ⟨hlinked, hnd, hmem, h.childCount_eq a, fun maxLength => ?_⟩
  have hlen : (((s.children a).map fun q => (s.task q).pid).take maxLength).length
      = min maxLength (s.children a).length := by
    rw [List.length_take, List.length_map]
  refine ⟨_, ?_, ?_, rfl⟩
  · rw [hlen]
    exact h.sysGetChildProcesses_eq a maxLength
  · rw [hlen, h.childCount_eq]

/-! ### Moving a child -/

namespace Links

/-- The lists of children after `sys_attach_proc`, past its checks. -/
lemma children_relink (h : Links s) (hc : s.Alive c) (ht : s.Listed t) :
    (s.relink c t).children
      = Function.update (fun a => (s.children a).erase t) c (t :: (s.children c).erase t) := by
  obtain ⟨order, hsh, hord⟩ := h.shape
  have hmoved := hsh.relink ((hord t).mpr ht) (h.mem_children.mpr ⟨ht, rfl⟩) c
  exact funext fun a => ((h.relink hc ht).children_spec a).1.unique (hmoved.lists a)

end Links

/-- `t` has gone from the children of its father to the head of those of `c`: the other children keep
their order, and the other tasks their parents. -/
structure Moved (s : Sys) (c t : Addr) (s' : Sys) : Prop where
  former : t ∈ s.children (s.pOpptr t)
  youngest : s'.children c = t :: (s.children c).erase t
  others : ∀ a, a ≠ c → s'.children a = (s.children a).erase t
  pPptr : s'.pPptr = Function.update s.pPptr t c
  pOpptr : s'.pOpptr = Function.update s.pOpptr t c
  task : s'.task = s.task

lemma Wf.moved (h : Wf s) (hc : s.Alive c) (ht : s.Listed t) : Moved s c t (s.relink c t) := by
  obtain ⟨htask, hpp, hop, -⟩ := relink_fields s c t
  have hkids := h.children_relink hc ht
  refine ⟨?_, ?_, fun a ha => ?_, hpp, hop, htask⟩
  · exact h.mem_children.mpr ⟨ht, (h.untraced t (Or.inr ht)).1.symm⟩
  · rw [hkids, Function.update_self]
  · rw [hkids, Function.update_of_ne ha]

/-! ### The system calls together -/

/-- The call ends, since the walk up the ancestors does. -/
lemma Links.sysAttachProc_isSome (h : Links s) (hi : HasInit s) (hr : Rooted s) (hc : s.Listed c)
    (pid : ℤ) : (s.sysAttachProc c pid).isSome = true := by
  rw [Sys.sysAttachProc, Option.isSome_map, Sys.attachTarget]
  split
  · rfl
  · split
    · rfl
    · rw [Option.isSome_map]
      exact h.walk_isSome hi hr hc pid

/-- **A successful `sys_attach_proc`** returns the pid of the former father, moves the child to the head
of the caller's list and nothing else, and leaves all processes rooted; the other two calls agree with
the lists, before and after. -/
theorem attach_moves_child (h : Wf s) (hi : HasInit s) (hr : Rooted s) (hc : s.InUser c) :
    (∀ a, ListsChildren s a) ∧ ∀ pid, (s.sysAttachProc c pid).isSome = true
      ∧ ∀ s' v, s.sysAttachProc c pid = some (s', .ok v) →
        ∃ t, s.findTaskByPid pid = some t ∧ v = (s.task (s.pOpptr t)).pid ∧ Moved s c t s'
          ∧ (Wf s' ∧ HasInit s' ∧ Rooted s') ∧ (∀ a, ListsChildren s' a)
          ∧ ∀ maxLength, s'.sysGetChildProcesses c true maxLength
            = some (.ok (min maxLength (s'.sysGetChildProcessCount c) : ℕ),
              (pid :: ((s.children c).erase t).map fun q => (s.task q).pid).take maxLength) := by
  refine ⟨h.listsChildren, fun pid => ⟨h.sysAttachProc_isSome hi hr hc.1 pid, fun s' v hatt => ?_⟩⟩
  rcases sysAttachProc_cases hatt with ⟨e, he, -⟩ | ⟨t, ht, hv, rfl⟩
  · exact nomatch he
  obtain ⟨hfind, -, hwalk, -⟩ := attachTarget_ok ht
  obtain ⟨hlt, hpid⟩ := findTaskByPid_eq_some hfind
  have halive := (h.alive_of_stays (Or.inr hc.1) hc.active.stays).1
  have hmoved := h.moved halive hlt
  have hwf := h.relink halive hlt
  have hroot := hr.relink h.toLinks hi hc.1 (hpid ▸ hwalk)
  refine ⟨t, hfind, Except.ok.inj hv, hmoved, ⟨hwf, hi.relink c t, hroot⟩, hwf.listsChildren,
    fun maxLength => ?_⟩
  rw [hwf.sysGetChildProcesses_eq, hwf.childCount_eq, hmoved.task, hmoved.youngest, List.map_cons,
    hpid]

/-- 2 forks 3, 4 and 5, and 4 forks 6. -/
def cousinsRun : List Call :=
  [.fork 1 .plain 2, .fork 2 .plain 3, .fork 2 .plain 4, .fork 2 .plain 5, .fork 4 .plain 6]

/-- 4 attaches its brother 3, and then 3 comes first among its children. -/
theorem attach_moves_child_cousinsRun : ∃ s s', run Sys.callExec cousinsRun Sys.booted = some s
    ∧ s.sysAttachProc 4 3 = some (s', .ok 2) ∧ Rooted s'
    ∧ s'.sysGetChildProcesses 4 true 5 = some (.ok 2, [3, 6]) := by
  have hrun : ((run Sys.callExec cousinsRun Sys.booted).any fun s =>
      decide (s.InUser 4 ∧ s.findTaskByPid 3 = some 3 ∧ s.children 4 = [6] ∧ (s.task 6).pid = 6)
        && (s.sysAttachProc 4 3).any fun x =>
          decide (x.2 = .ok 2 ∧ x.1.sysGetChildProcessCount 4 = 2)) = true := by
    decide +kernel
  obtain ⟨s, hs, h⟩ := (Option.any_eq_true _ _).mp hrun
  obtain ⟨hstart, h⟩ := (Bool.and_eq_true _ _).mp h
  obtain ⟨⟨s', r⟩, hatt, hend⟩ := (Option.any_eq_true _ _).mp h
  obtain ⟨hc, hfind, hkids, hpid⟩ := of_decide_eq_true hstart
  obtain ⟨rfl, hcount⟩ := of_decide_eq_true hend
  obtain ⟨hwf, hi⟩ := wf_of_run hs
  have hr : Rooted s := fun a ha => (rooted_of_run (by decide +kernel) hs a ha).1
  obtain ⟨t, ht, -, -, ⟨-, -, hroot⟩, -, hlist⟩ :=
    ((attach_moves_child hwf hi hr hc).2 3).2 s' 2 hatt
  obtain rfl := Option.some.inj (ht.symm.trans hfind)
  refine ⟨s, s', hs, hatt, hroot, ?_⟩
  rw [hlist 5, hkids, hcount]
  simp [hpid]

end

end Os234123.Family
