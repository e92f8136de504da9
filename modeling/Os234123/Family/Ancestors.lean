import Os234123.Lib.Ascent
import Os234123.Family.Calls

/-!
The walk of `sys_attach_proc` up the ancestors.

* `Rooted`: going up along `p_opptr` from any process comes to `init`;
* `Links.walk_isSome`: then the walk ends, for every caller and every pid;
* `Links.walk_clear`: a walk that does not meet a task shows a way up that avoids it;
* `Rooted.forkChild`, `Rooted.relink`, `Rooted.exitNotify`: forks and attachments keep all processes
  rooted, and so do exits that leave no child to a thread below them (`KeepsRoot`);
* `rooted_of_run` and `walk_forever`: a thread that a child has attached inherits its new father.
-/

namespace Os234123.Family

open Linked Machine Ascent

/-- Going up along `p_opptr` from any process comes to `init`. -/
def Rooted (s : Sys) : Prop := ∀ c, s.Listed c → Reaches s.pOpptr childReaper c

section

variable {s s' : Sys} {p q c t : Addr} {pid : ℤ}

/-! ### The walk -/

/-- A walk that comes to pid 1 in time has a result. -/
lemma ancestorWalk_isSome {n k : ℕ} (hn : n < k) (hc : (s.task (s.pOpptr^[n] c)).pid = 1) :
    (s.ancestorWalk pid k c).isSome = true := by
  induction k generalizing n c with
  | zero => exact absurd hn (Nat.not_lt_zero n)
  | succ k ih =>
      rw [Sys.ancestorWalk]
      split
      · rfl
      · next h1 =>
          split
          · rfl
          · cases n with
            | zero => exact absurd hc h1
            | succ n => exact ih (Nat.lt_of_succ_lt_succ hn) (Function.iterate_succ_apply .. ▸ hc)

namespace Links

/-- `init_task` is not below `init`. -/
lemma listed_of_reaches (h : Links s) (hi : HasInit s) (hc : s.Unreleased c)
    (hr : Reaches s.pOpptr childReaper c) : s.Listed c := by
  refine hc.resolve_left fun he => ?_
  have hne : childReaper ≠ initTask := fun hci => h.init_unlisted (hci ▸ hi.listed)
  refine Reaches.not_closed (S := fun x => x = initTask) (fun x hx => ?_) hne he hr
  rw [hx]
  exact h.root.2

lemma pid_eq_one_iff (h : Links s) (hi : HasInit s) (hc : s.Listed c) :
    (s.task c).pid = 1 ↔ c = childReaper := by
  constructor
  · exact fun he => h.inj c childReaper hc hi.listed (he.trans hi.pid.symm)
  · rintro rfl
    exact hi.pid

/-- **The walk ends.** -/
lemma walk_isSome (h : Links s) (hi : HasInit s) (hr : Rooted s) (hc : s.Listed c) (pid : ℤ) :
    (s.ancestorWalk pid s.fresh c).isSome = true := by
  classical
  set nodes := (Finset.range s.fresh).filter fun x => s.Unreleased x with hnodes
  have hmem : ∀ x, s.Unreleased x → x ∈ nodes := fun x hx =>
    Finset.mem_filter.mpr ⟨Finset.mem_range.mpr (h.fresh x hx), hx⟩
  have hclosed : ∀ x ∈ nodes, s.pOpptr x ∈ nodes := fun x hx =>
    hmem _ (h.parents x (Finset.mem_filter.mp hx).2).2.1
  obtain ⟨n, hn, hend, -⟩ := (hr c hc).exists_iterate hclosed (hmem c (Or.inr hc))
  have hcard : nodes.card ≤ s.fresh := by
    simpa using Finset.card_filter_le (Finset.range s.fresh) fun x => s.Unreleased x
  exact ancestorWalk_isSome (hn.trans_le hcard) (hend ▸ hi.pid)

/-- **A walk that does not meet the task `t`** shows a way up that avoids it. -/
lemma walk_clear (h : Links s) (hi : HasInit s) (hc : s.Listed c)
    (hr : Reaches s.pOpptr childReaper c) {n : ℕ}
    (hw : s.ancestorWalk (s.task t).pid n c = some false) :
    Clear s.pOpptr childReaper (fun x => x = t) c := by
  induction hr generalizing n with
  | here => exact .here
  | @step a hr ih =>
      by_cases ha : a = childReaper
      · exact ha ▸ .here
      cases n with
      | zero => exact nomatch hw
      | succ n =>
          rw [Sys.ancestorWalk, if_neg fun he => ha ((h.pid_eq_one_iff hi hc).mp he)] at hw
          split at hw
          · exact nomatch hw
          · next hpid =>
              have hup := h.listed_of_reaches hi (h.parents a (Or.inr hc)).2.1 hr
              exact .step (fun he => hpid (he ▸ rfl)) (ih hup hw)

end Links

/-! ### What keeps the processes rooted -/

namespace Rooted

/-- A child of a rooted process is rooted; `init` has no rooted parent. -/
lemma forkChild (hr : Rooted s) (h : Links s) (hc : s.Listed c)
    {flags : CloneFlags} (hf : c = childReaper → flags.cloneParent = false) (pid : ℤ) :
    Rooted (s.forkChild c flags pid) := by
  obtain ⟨-, -, hhash, -, -, hop, -⟩ := forkChild_fields s c flags pid
  have hold : ∀ a, s.Unreleased a → Reaches s.pOpptr childReaper a →
      Reaches (s.forkChild c flags pid).pOpptr childReaper a := fun a ha hra =>
    hra.congr_on (S := s.Unreleased) ha (fun x hx => (h.parents x hx).2.1) fun x hx => by
      rw [hop, Function.update_of_ne (h.fresh x hx).ne]
  intro a ha
  rw [Sys.Listed, hhash] at ha
  rcases List.mem_cons.mp ha with rfl | ha
  · refine .step ?_
    rw [hop, Function.update_self, ← hop]
    split
    · next hparent =>
        -- the parent of the process that forks is on its way up
        cases hr c hc with
        | here => exact absurd hparent (by rw [hf rfl]; exact Bool.false_ne_true)
        | step hup => exact hold _ (h.parents c (Or.inr hc)).2.1 hup
    · exact hold c (Or.inr hc) (hr c hc)
  · exact hold a (Or.inr ha) (hr a ha)

/-- The task that is attached was not above its new parent. -/
lemma relink (hr : Rooted s) (h : Links s) (hi : HasInit s) (hc : s.Listed c)
    {n : ℕ} (hw : s.ancestorWalk (s.task t).pid n c = some false) : Rooted (s.relink c t) := by
  obtain ⟨-, -, hop, -, -, hhash, -⟩ := relink_fields s c t
  have hclear := h.walk_clear hi hc (hr c hc) hw
  have hparent : Reaches (s.relink c t).pOpptr childReaper c :=
    hclear.unaffected fun x hx => by rw [hop, Function.update_of_ne hx]
  intro a ha
  rw [Sys.Listed, hhash] at ha
  refine (hr a ha).redirect fun x hx => ?_
  have hxt : x = t := by
    by_contra hne
    rw [hop, Function.update_of_ne hne] at hx
    exact hx rfl
  rw [hxt, hop, Function.update_self, ← hop]
  exact hparent

/-- The new parent of the orphans is not below the process that exits, unless it is one of them. -/
lemma exitNotify (hr : Rooted s) (h : Links s) (hi : HasInit s) (hc : s.Listed c)
    (hx : (s.task c).exiting = true)
    (hreaper : s.reaperOf c = childReaper ∨ s.pOpptr (s.reaperOf c) = c
      ∨ s.ancestorWalk (s.task c).pid s.fresh (s.reaperOf c) = some false) :
    Rooted (s.exitNotify c) := by
  have he := h.exited hi hc hx
  have hkept : ∀ x, s.pOpptr x ≠ c → (s.exitNotify c).pOpptr x = s.pOpptr x := fun x hne => by
    rw [he.pOpptr, if_neg fun ho => hne ho.2]
  have hl := (h.reaperOf_alive hi hc hx).1
  have hup : Reaches (s.exitNotify c).pOpptr childReaper (s.reaperOf c) := by
    rcases hreaper with hre | hre | hre
    · rw [hre]
      exact .here
    · refine .step ?_
      rw [he.pOpptr (s.reaperOf c), if_pos ⟨hl, hre⟩, Sys.newParent, if_pos rfl]
      exact .here
    · have hclear := h.walk_clear hi hl (hr _ hl) hre
      exact (hclear.of_parent (h.childReaper_alive hi hx).2).unaffected hkept
  intro a ha
  rw [Sys.Listed, he.pidhash] at ha
  refine (hr a ha).redirect fun x hne => ?_
  have ho : s.Listed x ∧ s.pOpptr x = c := by
    by_contra hno
    exact hne (by rw [he.pOpptr, if_neg hno])
  rw [he.pOpptr x, if_pos ho, Sys.newParent]
  split
  · exact .here
  · exact hup

lemma quiet (hr : Rooted s) (hq : Quiet s s') : Rooted s' := by
  intro a ha
  rw [hq.same]
  exact hr a ((hq.listed a).mp ha)

lemma reaps (hr : Rooted s) (hreap : Reaps s c p s') : Rooted s' := by
  obtain ⟨-, -, hop, -, hhash, -⟩ := reaps_fields hreap
  intro a ha
  rw [Sys.Listed, hhash] at ha
  rw [hop]
  exact hr a (List.mem_of_mem_erase ha)

end Rooted

/-! ### Every run -/

/-- Entering `do_exit` does not change the walk. -/
lemma ancestorWalk_congr (hop : s'.pOpptr = s.pOpptr) (hpid : ∀ q, (s'.task q).pid = (s.task q).pid)
    (pid : ℤ) (n : ℕ) (c : Addr) : s'.ancestorWalk pid n c = s.ancestorWalk pid n c := by
  induction n generalizing c with
  | zero => rfl
  | succ n ih => rw [Sys.ancestorWalk, Sys.ancestorWalk, hpid, hop, ih]

lemma exitBegin_pid (s : Sys) (c : Addr) (code : ℤ) (q : Addr) :
    ((s.exitBegin c code).task q).pid = (s.task q).pid := by
  by_cases hq : q = c
  · simp [Sys.exitBegin, Sys.goto, Sys.modTask, hq]
  · simp [Sys.exitBegin, Sys.goto, Sys.modTask, hq]

/-- Nor the reaper, which is another thread. -/
lemma Links.reaperOf_exitBegin (h : Links s) (hc : s.Listed c) (code : ℤ) :
    (s.exitBegin c code).reaperOf c = s.reaperOf c := by
  have hthreads : around (s.exitBegin c code).nextThread c (s.exitBegin c code).fresh c
      = around s.nextThread c s.fresh c := rfl
  rw [Sys.reaperOf, Sys.reaperOf, hthreads]
  congr 1
  refine List.find?_congr fun x hx => ?_
  have hxc := (h.threads.mem_around hc hx).2
  simp [Sys.exitBegin, Sys.goto, Sys.modTask, Function.update_of_ne hxc]

/-- `init` forks no child of its own parent, and a process leaves its children to `init`, to a thread it
has forked itself, or to one that is not below it. -/
def KeepsRoot (s : Sys) : Call → Prop
  | .fork c flags _ => c = childReaper → flags.cloneParent = false
  | .exit c _ => s.reaperOf c = childReaper ∨ s.pOpptr (s.reaperOf c) = c
      ∨ s.ancestorWalk (s.task c).pid s.fresh (s.reaperOf c) = some false
  | _ => True

instance (s : Sys) (o : Call) : Decidable (KeepsRoot s o) := by
  unfold KeepsRoot
  induction o using Call.casesOn <;> infer_instance

/-- **Every call keeps the processes rooted.** -/
lemma Rooted.callExec (hr : Rooted s) (h : Wf s) (hi : HasInit s) {o : Call} (ho : KeepsRoot s o)
    (hs : Sys.callExec o s = some s') : Rooted s' := by
  cases o with
  | fork c flags pid =>
      obtain ⟨⟨hc, hpos, -⟩, hs⟩ := Option.ite_none_right_eq_some.mp hs
      obtain rfl := Option.some.inj hs
      rcases doFork_cases (h.pids c hc.1) hpos flags with he | he <;> rw [he]
      · exact hr
      · exact hr.forkChild h.toLinks hc.1 ho pid
  | attach c pid =>
      obtain ⟨hc, hs⟩ := Option.ite_none_right_eq_some.mp hs
      obtain ⟨⟨s₁, r⟩, hatt, rfl⟩ := Option.map_eq_some_iff.mp hs
      rcases sysAttachProc_cases hatt with ⟨-, -, rfl⟩ | ⟨t, ht, -, rfl⟩
      · exact hr
      · obtain ⟨hfind, -, hwalk, -⟩ := attachTarget_ok ht
        exact hr.relink h.toLinks hi hc.1 ((findTaskByPid_eq_some hfind).2 ▸ hwalk)
  | exit c code =>
      obtain ⟨⟨hc, hpid⟩, hs⟩ := Option.ite_none_right_eq_some.mp hs
      obtain rfl := Option.some.inj hs
      have hr₁ : Rooted (s.exitBegin c code) := hr
      refine hr₁.exitNotify (h.exitBegin hc.1 hc.active.stays code).toLinks
        (hi.exitBegin hpid code) hc.1 (exitBegin_exiting s c code) ?_
      have hop : (s.exitBegin c code).pOpptr = s.pOpptr := rfl
      rw [h.reaperOf_exitBegin hc.1, ancestorWalk_congr hop (exitBegin_pid s c code), exitBegin_pid]
      exact ho
  | wait4 c w ok =>
      obtain ⟨hc, hs⟩ := Option.ite_none_right_eq_some.mp hs
      rcases h.waitAtOnce_cases hc hs with hq | ⟨p, -, -, s₁, hq, hreap⟩
      · exact hr.quiet hq
      · exact (hr.quiet hq).reaps hreap

lemma booted_rooted : Rooted Sys.booted := fun _ hc =>
  List.mem_singleton.mp hc ▸ .here

/-- **Every process is below `init`, and every walk up the ancestors ends**, as long as exits and forks
keep to `KeepsRoot`. -/
theorem rooted_of_run {ops : List Call} (hok : Along Sys.callExec KeepsRoot ops Sys.booted)
    (h : run Sys.callExec ops Sys.booted = some s) (c : Addr) (hc : s.Listed c) :
    Reaches s.pOpptr childReaper c ∧ ∀ pid, (s.ancestorWalk pid s.fresh c).isSome = true := by
  have hall : (Wf s ∧ HasInit s) ∧ Rooted s :=
    run_induct_along (P := fun s => (Wf s ∧ HasInit s) ∧ Rooted s)
      (fun _ _ _ hs ho he => ⟨callExec_wf hs.1.1 hs.1.2 he, hs.2.callExec hs.1.1 hs.1.2 ho he⟩)
      ⟨⟨booted_wf, booted_hasInit⟩, booted_rooted⟩ hok h
  exact ⟨hall.2 c hc, hall.1.1.walk_isSome hall.1.2 hall.2 hc⟩

/-- 2 forks the thread 3 and the child 4, which attaches 3's sibling 5; 2 exits, and 3 inherits 4. -/
def rootedRun : List Call :=
  [.fork 1 .plain 2, .fork 2 { CloneFlags.plain with cloneThread := true } 3, .fork 2 .plain 4,
    .fork 2 .plain 5, .attach 4 5, .exit 2 0]

theorem rooted_rootedRun : ∃ s, run Sys.callExec rootedRun Sys.booted = some s
    ∧ s.pOpptr 5 = 4 ∧ s.pOpptr 4 = 3
    ∧ Reaches s.pOpptr childReaper 5 ∧ ∀ pid, (s.ancestorWalk pid s.fresh 5).isSome = true := by
  have hrun : ((run Sys.callExec rootedRun Sys.booted).any fun s =>
      decide (s.Listed 5 ∧ s.pOpptr 5 = 4 ∧ s.pOpptr 4 = 3)) = true := by
    decide +kernel
  obtain ⟨s, hs, h⟩ := (Option.any_eq_true _ _).mp hrun
  obtain ⟨hl, h54, h43⟩ := of_decide_eq_true h
  exact ⟨s, hs, h54, h43, rooted_of_run (by decide +kernel) hs 5 hl⟩

/-- 4 attaches 3, the thread of its father 2; 2 exits, and 3 inherits 4. -/
def circleRun : List Call :=
  [.fork 1 .plain 2, .fork 2 { CloneFlags.plain with cloneThread := true } 3, .fork 2 .plain 4,
    .attach 4 3, .exit 2 0]

/-- **The walk goes round for ever.** -/
theorem walk_forever : ∃ ops s c pid, run Sys.callExec ops Sys.booted = some s ∧ s.InUser c
    ∧ s.findTaskByPid pid ≠ none ∧ ¬ Reaches s.pOpptr childReaper c
    ∧ ∀ n, s.ancestorWalk pid n c = none := by
  have hrun : ((run Sys.callExec circleRun Sys.booted).any fun s =>
      decide (s.InUser 4 ∧ s.findTaskByPid 2 ≠ none ∧ s.pOpptr 4 = 3 ∧ s.pOpptr 3 = 4
        ∧ (s.task 4).pid = 4 ∧ (s.task 3).pid = 3)) = true := by
    decide +kernel
  obtain ⟨s, hs, h⟩ := (Option.any_eq_true _ _).mp hrun
  obtain ⟨hc, hfind, h43, h34, hp4, hp3⟩ := of_decide_eq_true h
  refine ⟨circleRun, s, 4, 2, hs, hc, hfind, ?_, fun n => ?_⟩
  · refine Reaches.not_closed (S := fun x => x = 3 ∨ x = 4) ?_ (by decide) (Or.inr rfl)
    rintro x (rfl | rfl)
    · exact Or.inr h34
    · exact Or.inl h43
  · have hboth : ∀ n, s.ancestorWalk 2 n 4 = none ∧ s.ancestorWalk 2 n 3 = none := by
      intro n
      induction n with
      | zero => exact ⟨rfl, rfl⟩
      | succ n ih =>
          rw [Sys.ancestorWalk, Sys.ancestorWalk, hp4, hp3, h43, h34, ih.1, ih.2]
          exact ⟨rfl, rfl⟩
    exact (hboth n).1

end

end Os234123.Family
