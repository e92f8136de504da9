import Os234123.Family.Steps

/-!
The family links when each call is one step.

* `booted_wf`: the first state is in order;
* `callExec_wf`: every call keeps it so;
* `FamilyOk`, `familyOk_of_run`: what that says about the lists, the ring and the parents.
-/

namespace Os234123.Family

open Linked Machine

section

variable {s s' : Sys} {p q c : Addr} {w : WaitArgs}

/-! ### The first state -/

lemma zeroed_wf : Wf Sys.zeroed := by
  have hun : ∀ q, Sys.zeroed.Unreleased q → q = initTask := fun q hq =>
    hq.resolve_right List.not_mem_nil
  have hring : Ring Sys.zeroed.nextTask Sys.zeroed.prevTask initTask [] :=
    ⟨List.nodup_singleton _, seg_nil, rfl, rfl⟩
  have hshape : Shape Sys.zeroed [] fun _ => [] :=
    ⟨hring, fun _ => ⟨rfl, seg_nil⟩, fun _ => List.nodup_nil, fun _ _ hp => nomatch hp⟩
  have hinit : Sys.zeroed.Alive initTask := ⟨Or.inl rfl, fun he => nomatch he⟩
  refine ⟨⟨⟨[], fun _ => [], hshape, fun _ => Iff.rfl, fun q => ?_⟩, List.nodup_nil, fun q hq => ?_,
    ⟨rfl, rfl⟩, fun q _ => ⟨hinit, hinit⟩, fun _ _ => ?_, fun _ _ => ?_, fun _ => Or.inl rfl,
    ⟨fun _ => id, fun _ => id, fun _ _ => rfl, fun _ _ => rfl⟩, fun q hq => (nomatch hq),
    fun q _ hq => nomatch hq⟩, fun _ _ => ⟨rfl, rfl⟩⟩
  · exact iff_of_false (fun ⟨_, hq⟩ => nomatch hq) fun hq => nomatch hq
  · rw [hun q hq]
    exact Nat.zero_lt_one
  · exact iff_of_false (fun he => nomatch he) fun he => nomatch he
  · refine iff_of_false (fun he => nomatch he) ?_
    rintro (he | he) <;> exact nomatch he

lemma booted_wf : Wf Sys.booted :=
  zeroed_wf.forkChild (Or.inl rfl) ⟨fun he => (nomatch he), fun he => nomatch he⟩
    (fun he => absurd he Bool.false_ne_true) Int.one_pos fun _ hq => nomatch hq

lemma booted_hasInit : HasInit Sys.booted := ⟨List.mem_singleton.mpr rfl, rfl, rfl⟩

/-! ### The calls -/

/-- `sys_wait4` in one step is quiet, or reaps a zombie. -/
lemma Wf.waitAtOnce_cases (h : Wf s) (hc : s.InUser c) {ok : Bool}
    (hs : s.waitAtOnce c w ok = some s') :
    Quiet s s' ∨ ∃ p, s.Listed p ∧ (s.task p).state = .zombie
      ∧ ∃ s₁, Quiet s s₁ ∧ Reaps s₁ c p s' := by
  obtain ⟨⟨s₁, r⟩, h₁, h₂⟩ := Option.bind_eq_some_iff.mp hs
  rcases h.sysWait4_cases hc h₁ with ⟨hq, x, hpl, hx⟩ | ⟨p, hp, hz, s₀, hq, -, hreap⟩
  · have hpc : s₁.place c = x := by rw [hpl, Function.update_self]
    simp only [hpc] at h₂
    rcases hx with rfl | rfl | ⟨p, hp, rfl⟩
    · exact Or.inl (Option.some.inj h₂ ▸ hq)
    · exact nomatch h₂
    · obtain ⟨⟨s₂, r₂⟩, hrep, rfl⟩ := Option.map_eq_some_iff.mp h₂
      have hlp := h.mem_waitedFor hp
      have hun := ((h.quiet hq).untraced p (Or.inr ((hq.listed p).mpr hlp))).1
      rcases waitReport_cases (hq.active hc.active) (fun _ => hun) hrep with ⟨hq', -⟩ | ⟨hz, -, hreap⟩
      · exact Or.inl (hq.trans hq')
      · exact Or.inr ⟨p, hlp, of_decide_eq_true hz, s₁, hq, hreap⟩
  · have hpc : s₁.place c = .user := by
      obtain ⟨s₂, -, rfl⟩ := hreap
      exact Function.update_self ..
    simp only [hpc, Option.some.injEq] at h₂
    exact Or.inr ⟨p, h.mem_waitedFor hp, hz, s₀, hq, h₂ ▸ hreap⟩

/-- **Every call keeps the links in order.** -/
theorem callExec_wf (h : Wf s) (hi : HasInit s) {o : Call} (hs : Sys.callExec o s = some s') :
    Wf s' ∧ HasInit s' := by
  cases o with
  | fork c flags pid =>
      obtain ⟨⟨hc, hpos, hfree⟩, hs⟩ := Option.ite_none_right_eq_some.mp hs
      obtain rfl := Option.some.inj hs
      rcases doFork_cases (h.pids c hc.1) hpos flags with he | he <;> rw [he]
      · exact ⟨h, hi⟩
      · exact ⟨h.forkChild (Or.inr hc.1) hc.active.stays (fun _ => hc.1) hpos fun q hq => (hfree q hq).1,
          hi.forkChild h.toLinks c flags pid⟩
  | attach c pid =>
      obtain ⟨hc, hs⟩ := Option.ite_none_right_eq_some.mp hs
      obtain ⟨⟨s₁, r⟩, hatt, rfl⟩ := Option.map_eq_some_iff.mp hs
      rcases sysAttachProc_cases hatt with ⟨-, -, rfl⟩ | ⟨t, ht, -, rfl⟩
      · exact ⟨h, hi⟩
      · have hlt := (findTaskByPid_eq_some (attachTarget_ok ht).1).1
        exact ⟨h.relink (h.alive_of_stays (Or.inr hc.1) hc.active.stays).1 hlt, hi.relink c t⟩
  | exit c code =>
      obtain ⟨⟨hc, hpid⟩, hs⟩ := Option.ite_none_right_eq_some.mp hs
      obtain rfl := Option.some.inj hs
      have h₁ := h.exitBegin hc.1 hc.active.stays code
      have hi₁ := hi.exitBegin hpid code
      have hx := exitBegin_exiting s c code
      exact ⟨h₁.exitNotify hi₁ hc.1 hx, hi₁.exitNotify h₁.toLinks hc.1 hx⟩
  | wait4 c w ok =>
      obtain ⟨hc, hs⟩ := Option.ite_none_right_eq_some.mp hs
      rcases h.waitAtOnce_cases hc hs with hq | ⟨p, hp, hz, s₁, hq, hreap⟩
      · exact ⟨h.quiet hq, hi.quiet hq⟩
      · have hp₁ := (hq.listed p).mpr hp
        have hz₁ := (hq.task p).2.2.2.2.mpr hz
        exact ⟨(h.quiet hq).reaps (hq.active hc.active) hp₁ hz₁ hreap,
          (hi.quiet hq).reaps (h.quiet hq).toLinks (hq.active hc.active) hp₁ hz₁ hreap⟩

theorem wf_of_run {ops : List Call} (h : run Sys.callExec ops Sys.booted = some s) :
    Wf s ∧ HasInit s :=
  run_induct (P := fun s => Wf s ∧ HasInit s) (fun _ _ _ hs he => callExec_wf hs.1 hs.2 he)
    ⟨booted_wf, booted_hasInit⟩ h

/-! ### What it says -/

/-- The family links are well formed: each list of children is linked both ways and holds exactly the
tasks with that parent, the ring through `init_task` holds every task, and no parent is gone. -/
structure FamilyOk (s : Sys) : Prop where
  children : ∀ a, ∃ l, s.pCptr a = l.head? ∧ Seg s.pOsptr s.pYsptr none l none ∧ l.Nodup
    ∧ ∀ q, q ∈ l ↔ s.Unreleased q ∧ q ≠ initTask ∧ s.pPptr q = a
  ring : ∃ order, Ring s.nextTask s.prevTask initTask order
    ∧ ∀ q, q ∈ initTask :: order ↔ s.Unreleased q
  parents : ∀ q, s.Unreleased q → s.place (s.pPptr q) ≠ .gone ∧ s.place (s.pOpptr q) ≠ .gone

lemma Wf.listed_iff (h : Wf s) : s.Listed q ↔ s.Unreleased q ∧ q ≠ initTask := by
  constructor
  · exact fun hq => ⟨Or.inr hq, fun he => h.init_unlisted (he ▸ hq)⟩
  · rintro ⟨hq, hne⟩
    exact hq.resolve_left hne

lemma Wf.familyOk (h : Wf s) : FamilyOk s := by
  refine ⟨fun a => ?_, ?_, fun q hq => ?_⟩
  · obtain ⟨l, ⟨hhead, hseg⟩, hnd, hmem⟩ := h.lists.children a
    refine ⟨l, hhead, hseg, hnd, fun q => ?_⟩
    rw [hmem, h.listed_iff, and_assoc]
  · obtain ⟨order, kids, hsh, hord, -⟩ := h.lists
    refine ⟨order, hsh.ring, fun q => ?_⟩
    rw [List.mem_cons, hord]
    rfl
  · exact ⟨(h.parents q hq).1.2, (h.parents q hq).2.2⟩

/-- **The family links stay well formed**, whatever is forked, attached, exits and is reaped. -/
theorem familyOk_of_run {ops : List Call} (h : run Sys.callExec ops Sys.booted = some s) :
    FamilyOk s := (wf_of_run h).1.familyOk

/-- `init` forks 2 and 4, and 2 forks 3; 4 attaches 3, 2 exits and is reaped, and 4 exits. -/
def movedRun : List Call :=
  [.fork 1 .plain 2, .fork 2 .plain 3, .fork 1 .plain 4, .attach 4 3, .exit 2 0,
    .wait4 1 (.waitpid (-1) true) true, .exit 4 0]

theorem familyOk_movedRun :
    ∃ s, run Sys.callExec movedRun Sys.booted = some s ∧ FamilyOk s := by
  have hrun : (run Sys.callExec movedRun Sys.booted).isSome = true := by decide +kernel
  obtain ⟨s, hs⟩ := Option.isSome_iff_exists.mp hrun
  exact ⟨s, hs, familyOk_of_run hs⟩

/-- `init_task` is its own parent and stands in no list of children. -/
theorem init_task_no_child : ∃ ops s, run Sys.callExec ops Sys.booted = some s
    ∧ ¬ ∃ l, s.pCptr initTask = l.head? ∧ Seg s.pOsptr s.pYsptr none l none ∧ l.Nodup
      ∧ ∀ q, q ∈ l ↔ s.Unreleased q ∧ s.pPptr q = initTask := by
  refine ⟨[], Sys.booted, rfl, ?_⟩
  rintro ⟨l, hhead, hseg, -, hmem⟩
  have hinit : initTask ∈ l := (hmem initTask).mpr ⟨Or.inl rfl, rfl⟩
  obtain ⟨l', ⟨hhead', hseg'⟩, -, hmem'⟩ := booted_wf.lists.children initTask
  have hl : l = l' := hseg.unique hseg' (hhead.symm.trans hhead')
  exact booted_wf.init_unlisted ((hmem' initTask).mp (hl ▸ hinit)).1

end

end Os234123.Family
