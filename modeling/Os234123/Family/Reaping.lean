import Os234123.Family.Calls
import Os234123.Family.Effects

/-!
Who reaps a task, when `sys_wait4` may sleep between choosing a zombie and releasing it.

* `Held`: a zombie that was selected is still there, and still a child of the process that selected
  it; `Undisturbed`: no attachment takes such a zombie away;
* `Effect.held`: then every step keeps `Held`;
* `ReapedOnce`, `reapedOnce_of_run`: every task is released at most once, by its parent, and at
  most one call reports it to the end;
* `not_reapedOnce`: the selected zombie that is attached to another process is released twice.
-/

namespace Os234123.Family

open Linked Machine

/-! ### Single-threaded processes -/

/-- Nobody forks a thread. -/
def SingleThreaded (_ : Sys) : Op → Prop
  | .fork _ flags _ => flags.cloneThread = false
  | _ => True

instance (s : Sys) (o : Op) : Decidable (SingleThreaded s o) := by
  unfold SingleThreaded
  induction o using Op.casesOn <;> infer_instance

namespace Sys

/-- A process asleep in `sys_wait4` has selected the zombie. -/
def Selected (s : Sys) (p : Addr) : Prop := ∃ x ∈ s.pidhash, (s.place x).selected = some p

instance (s : Sys) (p : Addr) : Decidable (s.Selected p) := inferInstanceAs (Decidable (∃ _ ∈ _, _))

/-- The tasks that were passed to `release_task`, the last one first. -/
def released (s : Sys) : List Addr :=
  s.log.filterMap fun
    | .released _ p _ _ => some p
    | _ => none

/-- The zombies a call of `sys_wait4` reported to the end, the last report first.  The second report of
the same zombie returns 0, the pid `release_task` has left it. -/
def returned (s : Sys) : List Addr :=
  s.log.filterMap fun
    | .returned _ p => some p
    | _ => none

end Sys

/-- No attachment takes a zombie that a process asleep in `sys_wait4` has selected. -/
def Undisturbed (s : Sys) : Op → Prop
  | .attach c pid => ∀ t ∈ s.attaches c pid, ¬ s.Selected t
  | _ => True

instance (s : Sys) (o : Op) : Decidable (Undisturbed s o) := by
  unfold Undisturbed
  induction o using Op.casesOn <;> infer_instance

section

variable {s s' : Sys} {p q c : Addr} {o : Op}

/-! ### Selected zombies -/

/-- Nobody shares a thread group, and a selected zombie is a child of the process that selected it. -/
structure Held (s : Sys) : Prop where
  single : ∀ q, s.Listed q → s.threadNext q = q
  held : ∀ x p, (s.place x).selected = some p →
    s.Listed p ∧ (s.task p).state = .zombie ∧ s.pPptr p = x

/-- A single process looks at its own children only. -/
lemma Held.parent_of_waitedFor (hh : Held s) (h : Wf s) (hc : s.Listed c) {w : WaitArgs}
    (hp : p ∈ s.waitedFor c w) : s.pPptr p = c := by
  have halone : s.threads c = [c] := by
    have hnext : s.nextThread c = c := hh.single c hc
    rw [Sys.threads]
    cases s.fresh with
    | zero => rfl
    | succ n => rw [around, if_pos hnext]
  rw [Sys.waitedFor, halone, ite_self, List.flatMap_singleton] at hp
  exact (h.mem_children.mp hp).2

/-- The child that is reaped is one of the process that reaps it. -/
lemma Held.parent_of_reap (hh : Held s) (h : Wf s) (hc : s.Listed c)
    (hsel : (∃ w, p ∈ s.waitedFor c w) ∧ (s.place c).selected = none
      ∨ (s.place c).selected = some p) : s.pPptr p = c := by
  rcases hsel with ⟨⟨w, hp⟩, -⟩ | hp
  · exact hh.parent_of_waitedFor h hc hp
  · exact (hh.held c p hp).2.2

/-- The process asleep with a selected zombie is hashed. -/
lemma Wf.listed_of_selected (h : Wf s) (hsel : (s.place c).selected = some p) : s.Listed c := by
  rcases h.asleep c with he | he | hl
  · exact nomatch he ▸ hsel
  · exact nomatch he ▸ hsel
  · exact hl

/-! ### Every step keeps them -/

lemma forkChild_threadNext {flags : CloneFlags} (hf : flags.cloneThread = false) (pid : ℤ) :
    (s.forkChild c flags pid).threadNext = Function.update s.threadNext s.fresh s.fresh := by
  simp only [Sys.forkChild, Sys.linkChild, hf, Bool.false_eq_true, if_false]
  rfl

lemma forkChild_listed (s : Sys) (c : Addr) (flags : CloneFlags) (pid : ℤ) (q : Addr) :
    (s.forkChild c flags pid).Listed q ↔ q = s.fresh ∨ s.Listed q := by
  obtain ⟨-, -, hhash, -⟩ := forkChild_fields s c flags pid
  rw [Sys.Listed, hhash, List.mem_cons]
  rfl

/-- A single thread is its own neighbour both ways. -/
lemma Held.threadPrev (hh : Held s) (h : Wf s) (hp : s.Listed p) : s.threadPrev p = p :=
  (hh.single _ (h.threads.prev_mem p hp)).symm.trans (h.threads.next_prev p hp)

/-- **Every step keeps the groups single.** -/
lemma Effect.single (he : Effect s o s') (h : Wf s) (hi : HasInit s) (hh : Held s)
    (hs : SingleThreaded s o) (q : Addr) (hq : s'.Listed q) : s'.threadNext q = q := by
  cases he with
  | quiet hqu _ =>
      rw [hqu.same]
      exact hh.single q ((hqu.listed q).mp hq)
  | fork hc hpid =>
      rw [forkChild_threadNext hs]
      by_cases hqf : q = s.fresh
      · rw [hqf, Function.update_self]
      · rw [Function.update_of_ne hqf]
        exact hh.single q (((forkChild_listed ..).mp hq).resolve_left hqf)
  | attach hc ht =>
      obtain ⟨-, -, -, htn, -, hhash, -⟩ := relink_fields s _ _
      rw [htn]
      rw [Sys.Listed, hhash] at hq
      exact hh.single q hq
  | exit hc hpid => exact hh.single q hq
  | exitNotify hc hx =>
      have hex := h.exited hi hc ((h.exiting _ (Or.inr hc)).mpr (Or.inl hx))
      rw [hex.threadNext]
      rw [Sys.Listed, hex.pidhash] at hq
      exact hh.single q hq
  | @reap o c p s₁ _ hc hp hz hsel hqu hpl hr =>
      obtain ⟨-, -, -, htn, hhash, -⟩ := reaps_fields hr
      have hself := hh.threadPrev h hp
      have hnext : s₁.threadNext = s.threadNext ∧ s₁.threadPrev = s.threadPrev
          ∧ s₁.pidhash = s.pidhash := by
        rw [hqu.same]
        exact ⟨rfl, rfl, rfl⟩
      rw [htn, hnext.1, hnext.2.1, hself, hh.single p hp, Function.update_eq_self_iff.mpr]
      · rw [Sys.Listed, hhash, hnext.2.2] at hq
        exact hh.single q (List.mem_of_mem_erase hq)
      · exact (hh.single p hp).symm

/-- **A selected zombie stays where it is**, if no attachment takes it. -/
lemma Effect.held (he : Effect s o s') (h : Wf s) (hi : HasInit s) (hh : Held s)
    (hs : SingleThreaded s o) (hu : Undisturbed s o) : Held s' := by
  refine ⟨he.single h hi hh hs, fun x p hsel => ?_⟩
  cases he with
  | quiet hqu hnew =>
      have hstate := (hqu.task p).2.2.2.2
      have hpp : s'.pPptr = s.pPptr := by rw [hqu.same]
      rw [hqu.listed, hstate, hpp]
      rcases hnew x p hsel with hold | ⟨⟨w, hp⟩, hz⟩
      · exact hh.held x p hold
      · have hx := (hqu.listed x).mp ((h.quiet hqu).listed_of_selected hsel)
        exact ⟨h.mem_waitedFor hp, hz, hh.parent_of_waitedFor h hx hp⟩
  | @fork c flags pid hc hpid =>
      obtain ⟨htask, hplace, -, -, -, -, hpp⟩ := forkChild_fields s c flags pid
      have hx : x ≠ s.fresh := fun hx => by
        rw [hplace, hx, Function.update_self] at hsel
        exact Option.some_ne_none p hsel.symm
      rw [hplace, Function.update_of_ne hx] at hsel
      obtain ⟨hl, hz, hpx⟩ := hh.held x p hsel
      have hp : p ≠ s.fresh := (h.fresh p (Or.inr hl)).ne
      rw [forkChild_listed, htask, hpp, Function.update_of_ne hp, Function.update_of_ne hp]
      exact ⟨Or.inr hl, hz, hpx⟩
  | @attach c t pid hc ht =>
      obtain ⟨htask, hpp, -, -, -, hhash, hplace, -⟩ := relink_fields s c t
      rw [hplace] at hsel
      obtain ⟨hl, hz, hpx⟩ := hh.held x p hsel
      have hx := h.listed_of_selected hsel
      have hpt : p ≠ t := fun he => hu t (attaches_eq_some.mpr ht) ⟨x, hx, he ▸ hsel⟩
      rw [Sys.Listed, hhash, htask, hpp, Function.update_of_ne hpt]
      exact ⟨hl, hz, hpx⟩
  | @exit c code hc hpid =>
      have hx : x ≠ c := fun hx => by
        rw [hx, show (s.exitBegin c code).place c = .exiting from Function.update_self ..] at hsel
        exact Option.some_ne_none p hsel.symm
      rw [show (s.exitBegin c code).place x = s.place x from Function.update_of_ne hx ..] at hsel
      obtain ⟨hl, hz, hpx⟩ := hh.held x p hsel
      have hpc : p ≠ c := fun he => hc.active.state (he ▸ hz)
      refine ⟨hl, ?_, hpx⟩
      rwa [show (s.exitBegin c code).task p = s.task p from Function.update_of_ne hpc ..]
  | @exitNotify c hc hx =>
      have hex := h.exited hi hc ((h.exiting _ (Or.inr hc)).mpr (Or.inl hx))
      have hxc : x ≠ c := fun hxc => by
        rw [hex.place, hxc, Function.update_self] at hsel
        exact Option.some_ne_none p hsel.symm
      rw [hex.place, Function.update_of_ne hxc] at hsel
      obtain ⟨hl, hz, hpx⟩ := hh.held x p hsel
      refine ⟨?_, ?_, ?_⟩
      · rwa [Sys.Listed, hex.pidhash]
      · rw [(hex.task p).2.2.2.2.1, hz, ite_self]
      · rw [hex.pPptr, hpx, if_neg fun ho => hxc ho.2]
  | @reap o c r s₁ _ hc hr hrz hrsel hqu hpl hreap =>
      obtain ⟨hne, hpp, -, -, hhash, hplace, -, -, -, hstate⟩ := reaps_fields hreap
      have hxc : x ≠ c := fun hxc => by
        rw [hplace, hxc, Function.update_self] at hsel
        exact Option.some_ne_none p hsel.symm
      rw [hplace, Function.update_of_ne hxc, hpl] at hsel
      obtain ⟨hl, hz, hpx⟩ := hh.held x p hsel
      have hpr : p ≠ r := fun he =>
        hxc (hpx.symm.trans (he ▸ hh.parent_of_reap h hc.listed hrsel))
      have hpc : p ≠ c := fun he => hc.state (he ▸ hz)
      refine ⟨?_, ?_, ?_⟩
      · rw [Sys.Listed, hhash]
        exact (List.mem_erase_of_ne hpr).mpr ((hqu.listed p).mpr hl)
      · rw [hstate p hpc]
        exact (hqu.task p).2.2.2.2.mpr hz
      · rw [hpp, hqu.same]
        exact hpx

/-! ### The history -/

/-- What a step adds to the history: nothing, a fork, or the reaping of a child by its parent. -/
lemma Effect.log_cases (he : Effect s o s') (h : Wf s) (hi : HasInit s) (hh : Held s) :
    ((s'.log = s.log ∨ ∃ c, s'.log = .forked c s.fresh :: s.log) ∧ s.fresh ≤ s'.fresh
        ∧ ∀ q, s'.Listed q → q = s.fresh ∨ s.Listed q)
      ∨ ∃ c p, s.Listed p ∧ s.pPptr p = c
        ∧ ∃ first, (first = true → (s.task p).firstTimeSlice = true)
          ∧ s'.log = .released c p c first :: .returned c p :: s.log
          ∧ s'.pidhash = s.pidhash.erase p ∧ s'.fresh = s.fresh := by
  cases he with
  | quiet hqu _ =>
      have hlog : s'.log = s.log ∧ s'.fresh = s.fresh := by
        rw [hqu.same]
        exact ⟨rfl, rfl⟩
      exact Or.inl ⟨Or.inl hlog.1, hlog.2.ge, fun q hq => Or.inr ((hqu.listed q).mp hq)⟩
  | @fork c flags pid hc hpid =>
      obtain ⟨-, -, -, hfresh, hlog, -⟩ := forkChild_fields s c flags pid
      exact Or.inl ⟨Or.inr ⟨c, hlog⟩, hfresh ▸ Nat.le_succ _, fun q => (forkChild_listed ..).mp⟩
  | @attach c t pid hc ht =>
      obtain ⟨-, -, -, -, -, hhash, -, hfresh, hlog⟩ := relink_fields s c t
      refine Or.inl ⟨Or.inl hlog, hfresh.ge, fun q hq => Or.inr ?_⟩
      rwa [Sys.Listed, hhash] at hq
  | exit hc hpid => exact Or.inl ⟨Or.inl rfl, le_rfl, fun q => Or.inr⟩
  | @exitNotify c hc hx =>
      have hex := h.exited hi hc ((h.exiting _ (Or.inr hc)).mpr (Or.inl hx))
      refine Or.inl ⟨Or.inl hex.log, hex.fresh.ge, fun q hq => Or.inr ?_⟩
      rwa [Sys.Listed, hex.pidhash] at hq
  | @reap o c p s₁ _ hc hp hz hsel hqu hpl hr =>
      obtain ⟨-, -, -, -, hhash, -, hfresh, hlog, -⟩ := reaps_fields hr
      have hpc := hh.parent_of_reap h hc.listed hsel
      have hsame : s₁.pPptr = s.pPptr ∧ s₁.pidhash = s.pidhash ∧ s₁.fresh = s.fresh
          ∧ s₁.log = s.log := by
        rw [hqu.same]
        exact ⟨rfl, rfl, rfl, rfl⟩
      rw [hsame.1, hpc, hsame.2.2.2] at hlog
      exact Or.inr ⟨c, p, hp, hpc, _, (hqu.task p).2.2.2.1, hlog, hsame.2.1 ▸ hhash,
        hsame.2.2.1 ▸ hfresh⟩

/-- Every task is passed to `release_task` at most once, by a process that is its `p_pptr` at that
moment, and at most one call of `sys_wait4` reports it to the end. -/
structure ReapedOnce (s : Sys) : Prop where
  released : s.released.Nodup
  returned : s.returned.Nodup
  parent : ∀ c p parent first, .released c p parent first ∈ s.log → parent = c

/-- So far every task was reaped once at most, and those that were are gone. -/
structure Accounted (s : Sys) : Prop where
  once : ReapedOnce s
  gone : ∀ p, p ∈ s.released ∨ p ∈ s.returned → p < s.fresh ∧ ¬ s.Listed p

lemma Accounted.step (ha : Accounted s) (he : Effect s o s') (h : Wf s) (hi : HasInit s)
    (hh : Held s) : Accounted s' := by
  obtain ⟨⟨hrel, hret, hpar⟩, hgone⟩ := ha
  rcases he.log_cases h hi hh with ⟨hlog, hfresh, hlisted⟩ | ⟨c, p, hp, -, first, -, hlog, hhash, hfresh⟩
  · have hsame : s'.released = s.released ∧ s'.returned = s.returned
        ∧ ∀ c p parent first, .released c p parent first ∈ s'.log →
          .released c p parent first ∈ s.log := by
      rcases hlog with hlog | ⟨c, hlog⟩ <;> simp [Sys.released, Sys.returned, hlog]
    rw [← hsame.1] at hrel
    rw [← hsame.2.1] at hret
    refine ⟨⟨hrel, hret, fun c p parent first hm => hpar c p parent first (hsame.2.2 _ _ _ _ hm)⟩, ?_⟩
    rw [hsame.1, hsame.2.1]
    intro q hq
    obtain ⟨hlt, hno⟩ := hgone q hq
    exact ⟨hlt.trans_le hfresh, fun hl => (hlisted q hl).elim hlt.ne hno⟩
  · have hnew : p ∉ s.released ∧ p ∉ s.returned :=
      ⟨fun hm => (hgone p (Or.inl hm)).2 hp, fun hm => (hgone p (Or.inr hm)).2 hp⟩
    have hr : s'.released = p :: s.released ∧ s'.returned = p :: s.returned := by
      simp [Sys.released, Sys.returned, hlog]
    refine ⟨⟨?_, ?_, ?_⟩, fun q hq => ?_⟩
    · rw [hr.1]
      exact List.nodup_cons.mpr ⟨hnew.1, hrel⟩
    · rw [hr.2]
      exact List.nodup_cons.mpr ⟨hnew.2, hret⟩
    · rw [hlog]
      intro d q parent first' hm
      simp only [List.mem_cons, Event.released.injEq, reduceCtorEq, false_or] at hm
      rcases hm with ⟨rfl, -, rfl, -⟩ | hm
      · rfl
      · exact hpar d q parent first' hm
    · rw [hr.1, hr.2, List.mem_cons, List.mem_cons] at hq
      have hq : q = p ∨ q ∈ s.released ∨ q ∈ s.returned := by tauto
      rw [hfresh, Sys.Listed, hhash, h.nodup.mem_erase_iff]
      rcases hq with rfl | hq
      · exact ⟨h.fresh q (Or.inr hp), fun hm => hm.1 rfl⟩
      · exact ⟨(hgone q hq).1, fun hm => (hgone q hq).2 hm.2⟩

/-- Everything that holds as long as selected zombies are left alone. -/
structure Orderly (s : Sys) : Prop where
  wf : Wf s
  init : HasInit s
  held : Held s
  accounted : Accounted s

lemma Orderly.effect (ho : Orderly s) (hs : Sys.exec o s = some s') : Effect s o s' :=
  exec_effect ho.wf (fun c _ _ p hp =>
    have hsel := ho.held.held c p hp
    ⟨hsel.1, hsel.2.1⟩) hs

lemma Orderly.step (ho : Orderly s) (hsingle : SingleThreaded s o) (hu : Undisturbed s o)
    (hs : Sys.exec o s = some s') : Orderly s' := by
  obtain ⟨hwf, hinit, hheld, hacc⟩ := ho
  have he := Orderly.effect ⟨hwf, hinit, hheld, hacc⟩ hs
  obtain ⟨hwf', hinit'⟩ := he.wf hwf hinit
  exact ⟨hwf', hinit', he.held hwf hinit hheld hsingle hu, hacc.step he hwf hinit hheld⟩

lemma booted_orderly : Orderly Sys.booted := by
  have hplace : ∀ q, Sys.booted.place q = .user := fun q => by
    obtain ⟨-, hplace, -⟩ := forkChild_fields Sys.zeroed initTask
      ⟨false, false, false, false, false, false, 0⟩ 1
    rw [Sys.booted, hplace]
    by_cases hq : q = Sys.zeroed.fresh
    · rw [hq, Function.update_self]
    · rw [Function.update_of_ne hq]
      rfl
  refine ⟨booted_wf, booted_hasInit, ⟨fun q hq => ?_, fun x p hsel => ?_⟩,
    ⟨⟨List.nodup_nil, List.nodup_nil, fun c p parent first hm => ?_⟩, fun p hp => ?_⟩⟩
  · rw [Sys.booted, forkChild_threadNext rfl]
    by_cases hq : q = Sys.zeroed.fresh
    · rw [hq, Function.update_self]
    · rw [Function.update_of_ne hq]
      rfl
  · exact nomatch hplace x ▸ hsel
  · rcases List.mem_singleton.mp hm with hm
    exact nomatch hm
  · exact absurd hp (by simp [Sys.released, Sys.returned, Sys.booted, Sys.forkChild, Sys.record,
      Sys.goto, Sys.hashPid, Sys.setLinks, Sys.linkChild, Sys.initThread, Sys.zeroed])

/-- **Every task is reaped at most once**, by its parent, if no attachment takes a zombie that a process
asleep in `sys_wait4` has selected. -/
theorem reapedOnce_of_run {ops : List Op} (hsingle : Along Sys.exec SingleThreaded ops Sys.booted)
    (hok : Along Sys.exec Undisturbed ops Sys.booted)
    (h : run Sys.exec ops Sys.booted = some s) : ReapedOnce s :=
  (run_induct_along (fun _ _ _ ho hc hs => ho.step hc.1 hc.2 hs) booted_orderly (hsingle.and hok)
    h).accounted.once

/-- 2 forks 3 and 4, and 3 exits; 2 has selected 3 and sleeps when `init` attaches 4. -/
def keptRun : List Op :=
  [.fork 1 .plain 2, .fork 2 .plain 3, .fork 2 .plain 4, .exit 3 0, .exitNotify 3,
    .wait4 2 (.waitpid 0 true), .attach 1 4,
    .report 2 true]

theorem reapedOnce_keptRun : ∃ s, run Sys.exec keptRun Sys.booted = some s ∧ s.released = [3]
    ∧ ReapedOnce s := by
  have hrun : ((run Sys.exec keptRun Sys.booted).any fun s => decide (s.released = [3])) = true := by
    decide +kernel
  obtain ⟨s, hs, h⟩ := (Option.any_eq_true _ _).mp hrun
  exact ⟨s, hs, of_decide_eq_true h,
    reapedOnce_of_run (by decide +kernel) (by decide +kernel) hs⟩

/-- 2 waits for its process group, has selected the zombie 3 and sleeps; `init` attaches and reaps 3,
and 2 comes back. -/
def twiceRun : List Op :=
  [.fork 1 .plain 2, .fork 2 .plain 3, .exit 3 0, .exitNotify 3,
    .wait4 2 (.waitpid 0 true), .attach 1 3,
    .wait4 1 (.waitpid (-1) false), .report 2 true]

/-- **A task is released twice.** -/
theorem not_reapedOnce : ∃ ops s, Along Sys.exec SingleThreaded ops Sys.booted
    ∧ run Sys.exec ops Sys.booted = some s ∧ ¬ ReapedOnce s := by
  have hrun : ((run Sys.exec twiceRun Sys.booted).any fun s =>
      decide (s.released = [3, 3])) = true := by
    decide +kernel
  obtain ⟨s, hs, h⟩ := (Option.any_eq_true _ _).mp hrun
  refine ⟨twiceRun, s, by decide +kernel, hs, fun hr => ?_⟩
  have hnodup := hr.released
  rw [of_decide_eq_true h] at hnodup
  exact absurd hnodup (by decide)

end

end Os234123.Family
