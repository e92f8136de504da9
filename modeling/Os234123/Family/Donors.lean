import Os234123.Family.Reaping

/-!
Who gets the rest of a first time slice.

A child that is released in its first time slice returns what is left of it to the process that
releases it.

* `Donated`: a task in its first time slice is a child of the process that forked it;
* `LeavesFirst`: no attachment takes such a task from its parent;
* `PaidBack`, `paidBack_of_run`: then whoever releases a task in its first time slice has forked it;
* `not_paidBack`: an attached child that exits at once pays its slice to the process that took it.
-/

namespace Os234123.Family

open Linked Machine

/-- Nobody forks a thread, or a child of its parent. -/
def PlainForks (_ : Sys) : Op → Prop
  | .fork _ flags _ => flags.cloneThread = false ∧ flags.cloneParent = false
  | _ => True

instance (s : Sys) (o : Op) : Decidable (PlainForks s o) := by
  unfold PlainForks
  induction o using Op.casesOn <;> infer_instance

/-- No attachment takes a task in its first time slice from its parent. -/
def LeavesFirst (s : Sys) : Op → Prop
  | .attach c pid => ∀ t ∈ s.attaches c pid, (s.task t).firstTimeSlice = true → s.pOpptr t = c
  | _ => True

instance (s : Sys) (o : Op) : Decidable (LeavesFirst s o) := by
  unfold LeavesFirst
  induction o using Op.casesOn <;> infer_instance

section

variable {s s' : Sys} {p q c : Addr} {o : Op}

/-- A task in its first time slice is a child of the process that forked it. -/
def Donated (s : Sys) : Prop :=
  ∀ p, s.Listed p → (s.task p).firstTimeSlice = true → .forked (s.pOpptr p) p ∈ s.log

/-- Whoever released a task in its first time slice has forked it. -/
def PaidBack (s : Sys) : Prop :=
  ∀ c p parent, .released c p parent true ∈ s.log → .forked c p ∈ s.log

/-- A step forgets nothing. -/
lemma Effect.log_mono (he : Effect s o s') (h : Wf s) (hi : HasInit s) (hh : Held s) :
    ∀ e ∈ s.log, e ∈ s'.log := by
  intro e hm
  rcases he.log_cases h hi hh with ⟨hlog | ⟨c, hlog⟩, -⟩ | ⟨c, p, -, -, first, -, hlog, -⟩ <;>
    rw [hlog]
  · exact hm
  · exact List.mem_cons_of_mem _ hm
  · exact List.mem_cons_of_mem _ (List.mem_cons_of_mem _ hm)

/-- **A step keeps the donors**: a fork makes one, an orphan has none, and the attachments leave them
alone. -/
lemma Effect.donated (he : Effect s o s') (h : Wf s) (hi : HasInit s) (hh : Held s)
    (hd : Donated s) (hf : PlainForks s o) (hl : LeavesFirst s o) : Donated s' := by
  have hmono := he.log_mono h hi hh
  intro p hp hfirst
  cases he with
  | quiet hqu _ =>
      have hop : s'.pOpptr = s.pOpptr := by rw [hqu.same]
      rw [hop]
      exact hmono _ (hd p ((hqu.listed p).mp hp) ((hqu.task p).2.2.2.1 hfirst))
  | @fork c flags pid hc hpid =>
      obtain ⟨htask, -, -, -, hlog, hop, -⟩ := forkChild_fields s c flags pid
      rw [hop]
      by_cases hpf : p = s.fresh
      · rw [hpf, Function.update_self, hf.2, hlog]
        exact List.mem_cons_self
      · rw [htask, Function.update_of_ne hpf] at hfirst
        rw [Function.update_of_ne hpf]
        exact hmono _ (hd p (((forkChild_listed ..).mp hp).resolve_left hpf) hfirst)
  | @attach c t pid hc ht =>
      obtain ⟨htask, -, hop, -, -, hhash, -⟩ := relink_fields s c t
      rw [Sys.Listed, hhash] at hp
      rw [htask] at hfirst
      have hold := hmono _ (hd p hp hfirst)
      rw [hop]
      by_cases hpt : p = t
      · rw [hpt] at hfirst hold ⊢
        rw [Function.update_self]
        rwa [hl t (attaches_eq_some.mpr ht) hfirst] at hold
      · rwa [Function.update_of_ne hpt]
  | @exit c code hc hpid =>
      have hrec : ((s.exitBegin c code).task p).firstTimeSlice = (s.task p).firstTimeSlice := by
        by_cases hpc : p = c
        · simp [Sys.exitBegin, Sys.goto, Sys.modTask, hpc]
        · simp [Sys.exitBegin, Sys.goto, Sys.modTask, hpc]
      exact hmono _ (hd p hp (hrec ▸ hfirst))
  | @exitNotify c hc hx =>
      have hex := h.exited hi hc ((h.exiting _ (Or.inr hc)).mpr (Or.inl hx))
      rw [Sys.Listed, hex.pidhash] at hp
      rw [(hex.task p).2.2.2.2.2] at hfirst
      rw [hex.pOpptr]
      split at hfirst
      · exact absurd hfirst Bool.false_ne_true
      · next hno =>
          rw [if_neg hno]
          exact hmono _ (hd p hp hfirst)
  | @reap o c r s₁ _ hc hr hz hsel hqu hpl hreap =>
      obtain ⟨-, -, hop, -, hhash, -, -, -, hslice, -⟩ := reaps_fields hreap
      have hsame : s₁.pOpptr = s.pOpptr := by rw [hqu.same]
      rw [Sys.Listed, hhash] at hp
      rw [hslice] at hfirst
      rw [hop, hsame]
      exact hmono _ (hd p ((hqu.listed p).mp (List.mem_of_mem_erase hp))
        ((hqu.task p).2.2.2.1 hfirst))

/-- A step releases a task in its first time slice only to its donor. -/
lemma Effect.paidBack (he : Effect s o s') (h : Wf s) (hi : HasInit s) (hh : Held s)
    (hd : Donated s) (hr : PaidBack s) : PaidBack s' := by
  have hmono := he.log_mono h hi hh
  intro d q parent hm
  rcases he.log_cases h hi hh with ⟨hlog | ⟨c, hlog⟩, -⟩ | ⟨c, p, hp, hpc, first, hf, hlog, -⟩
  · exact hmono _ (hr d q parent (hlog ▸ hm))
  · rw [hlog] at hm
    exact hmono _ (hr d q parent (by simpa using hm))
  · rw [hlog] at hm
    simp only [List.mem_cons, Event.released.injEq, reduceCtorEq, false_or] at hm
    rcases hm with ⟨rfl, rfl, -, hfirst⟩ | hm
    · have hop := (h.untraced q (Or.inr hp)).1.trans hpc
      exact hmono _ (hop ▸ hd q hp (hf hfirst.symm))
    · exact hmono _ (hr d q parent hm)

/-- **A first time slice goes back to its donor**, if no attachment takes a task in its first time slice
from its parent, or a zombie that a process asleep in `sys_wait4` has selected. -/
theorem paidBack_of_run {ops : List Op} (hf : Along Sys.exec PlainForks ops Sys.booted)
    (hl : Along Sys.exec LeavesFirst ops Sys.booted)
    (hu : Along Sys.exec Undisturbed ops Sys.booted)
    (h : run Sys.exec ops Sys.booted = some s) : PaidBack s := by
  have hstep : ∀ s o s', Orderly s ∧ Donated s ∧ PaidBack s →
      (PlainForks s o ∧ LeavesFirst s o) ∧ Undisturbed s o → Sys.exec o s = some s' →
      Orderly s' ∧ Donated s' ∧ PaidBack s' := by
    rintro s o s' ⟨ho, hd, hr⟩ ⟨⟨hf, hl⟩, hu⟩ hs
    have he := ho.effect hs
    have hsingle : SingleThreaded s o := by
      cases o with
      | fork c flags pid => exact hf.1
      | _ => trivial
    exact ⟨ho.step hsingle hu hs, he.donated ho.wf ho.init ho.held hd hf hl,
      he.paidBack ho.wf ho.init ho.held hd hr⟩
  have hbooted : Donated Sys.booted ∧ PaidBack Sys.booted := by
    have hlog : Sys.booted.log = [.forked initTask childReaper] := rfl
    refine ⟨fun p hp _ => ?_, fun c p parent hm => ?_⟩
    · obtain rfl : p = childReaper := List.mem_singleton.mp hp
      exact List.mem_singleton.mpr rfl
    · rw [hlog, List.mem_singleton] at hm
      exact nomatch hm
  exact (run_induct_along hstep ⟨booted_orderly, hbooted⟩ ((hf.and hl).and hu) h).2.2

/-- 2 forks 3, whose slice runs out, and 4, which exits at once; `init` attaches 3, and 2 reaps 4. -/
def donatedRun : List Op :=
  [.fork 1 .plain 2, .fork 2 .plain 3, .fork 2 .plain 4, .expire 3, .attach 1 3, .exit 4 0,
    .exitNotify 4, .wait4 2 (.waitpid (-1) true),
    .report 2 true]

theorem paidBack_donatedRun : ∃ s, run Sys.exec donatedRun Sys.booted = some s
    ∧ .released 2 4 2 true ∈ s.log ∧ PaidBack s := by
  have hrun : ((run Sys.exec donatedRun Sys.booted).any fun s =>
      decide (.released 2 4 2 true ∈ s.log)) = true := by
    decide +kernel
  obtain ⟨s, hs, h⟩ := (Option.any_eq_true _ _).mp hrun
  exact ⟨s, hs, of_decide_eq_true h,
    paidBack_of_run (by decide +kernel) (by decide +kernel) (by decide +kernel) hs⟩

/-- 2 forks 3, which `init` attaches and reaps within its first time slice. -/
def takenRun : List Op :=
  [.fork 1 .plain 2, .fork 2 .plain 3, .attach 1 3, .exit 3 0, .exitNotify 3,
    .wait4 1 (.waitpid (-1) false)]

/-- **A first time slice goes to a process that gave none.** -/
theorem not_paidBack : ∃ ops s, Along Sys.exec PlainForks ops Sys.booted
    ∧ Along Sys.exec Undisturbed ops Sys.booted ∧ run Sys.exec ops Sys.booted = some s
    ∧ ¬ PaidBack s := by
  have hrun : ((run Sys.exec takenRun Sys.booted).any fun s =>
      decide (.released 1 3 1 true ∈ s.log ∧ .forked 1 3 ∉ s.log)) = true := by
    decide +kernel
  obtain ⟨s, hs, h⟩ := (Option.any_eq_true _ _).mp hrun
  obtain ⟨hrel, hfork⟩ := of_decide_eq_true h
  exact ⟨takenRun, s, by decide +kernel, by decide +kernel, hs, fun hr => hfork (hr 1 3 1 hrel)⟩

end

end Os234123.Family
