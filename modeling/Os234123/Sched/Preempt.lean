import Os234123.Sched.Priorities

/-!
Does a task that is woken preempt the running one?

* `Outranks`: the order in which `schedule` prefers tasks, the idle task last;
* `WakePreempts`: if the task that was woken outranks the running one, a reschedule is due;
* `Overlooked`: the pairs of tasks on which the comparison of priorities misses this;
* `wakePreempts_iff`: it is missed on no other.
-/

namespace Os234123.Sched

open Machine

/-! ### The order of the classes -/

namespace Sys

variable (s : Sys) (p q : Tid)

/-- The place of the class of a task, the smaller the sooner `schedule` takes it. -/
def classPlace : ℕ :=
  if p = s.idle then 4
  else match (s.task p).policy with
    | .fifo => 0
    | .rr => 0
    | .short => if (s.task p).isShort = 1 then 1 else 3
    | .other => 2

/-- `schedule` would take `p` before `q`: its class is better, or the classes are equal and its
priority is. -/
def Outranks : Prop := s.classPlace p < s.classPlace q
  ∨ s.classPlace p = s.classPlace q ∧ (s.task p).prio < (s.task q).prio

instance : Decidable (s.Outranks p q) := inferInstanceAs (Decidable (_ ∨ _))

end Sys

/-- If waking `p` puts it on the runqueue and it then outranks the running task, a reschedule is
due. -/
def WakePreempts (M : Arch) (s : Sys) (p : Tid) : Prop :=
  let s' := s.tryToWakeUp M p
  (s.task p).array = none → s'.Outranks p s'.curr → (s'.task s'.curr).needResched = true

/-- No reschedule is due yet, and either `p` is a regular SHORT task and the running one is an
ordinary task of a priority at least as good, or the running one is overdue and `p` is a regular
SHORT or ordinary task that gets the last priority. -/
def Overlooked (M : Arch) (s : Sys) (p : Tid) : Prop :=
  (s.task s.curr).needResched = false
    ∧ ((s.task p).IsRegular ∧ s.curr ≠ s.idle ∧ (s.task s.curr).policy = .other
          ∧ (s.task s.curr).prio ≤ (s.task p).prio
      ∨ ((s.task p).IsRegular ∨ (s.task p).policy = .other) ∧ (s.task s.curr).IsOverdue
          ∧ (bonusOf M s.jiffies (s.task p)).prio = maxPrio - 1)

instance (M : Arch) (s : Sys) (p : Tid) : Decidable (Overlooked M s p) :=
  inferInstanceAs (Decidable (_ ∧ _))

/-! ### What waking does -/

section

variable {M : Arch} {s : Sys} {p : Tid}

/-- The two records that count, once a task has been put on the runqueue. -/
lemma tryToWakeUp_off (hp : p ≠ s.curr) (ha : (s.task p).array = none) :
    let s' := s.tryToWakeUp M p
    let k := (bonusOf M s.jiffies (s.task p)).prio
    s'.curr = s.curr ∧ s'.idle = s.idle ∧ SameCore (s.task p) (s'.task p) ∧ (s'.task p).prio = k
      ∧ SameCore (s.task s.curr) (s'.task s.curr)
      ∧ (s'.task s.curr).prio = (s.task s.curr).prio
      ∧ ((s'.task s.curr).needResched = true
        ↔ (s.task s.curr).needResched = true ∨ k < (s.task s.curr).prio) := by
  intro s' k
  -- the counter of sleeping tasks does not matter
  obtain ⟨n, hs'⟩ : ∃ n, s' = (if ((({ s with nrUninterruptible := n } : Sys).activateTask M p).task
        p).prio < ((({ s with nrUninterruptible := n } : Sys).activateTask M p).task s.curr).prio
      then (({ s with nrUninterruptible := n } : Sys).activateTask M p).reschedTask s.curr
      else ({ s with nrUninterruptible := n } : Sys).activateTask M p).modTask p
        fun t => { t with state := .running } := by
    simp only [s', Sys.tryToWakeUp, ha]
    by_cases hst : (s.task p).state = .uninterruptible
    · exact ⟨s.nrUninterruptible - 1, by simp only [if_pos hst]; rfl⟩
    · exact ⟨s.nrUninterruptible, by simp only [if_neg hst]; rfl⟩
  have hself : (({ s with nrUninterruptible := n } : Sys).activateTask M p).task p
      = { bonusOf M s.jiffies (s.task p) with array := some (homeOf s.active (s.task p)) } := by
    rw [Sys.activateTask_task, Function.update_self]
  have hcurr : (({ s with nrUninterruptible := n } : Sys).activateTask M p).task s.curr
      = s.task s.curr := by
    rw [Sys.activateTask_task, Function.update_of_ne hp.symm]
  rw [hself, hcurr] at hs'
  have hcore : SameCore (s.task p) ((({ s with nrUninterruptible := n } : Sys).activateTask M p).task
      p) := activateTask_core M _ p
  rw [hself] at hcore
  by_cases hlt : k < (s.task s.curr).prio
  · rw [if_pos hlt] at hs'
    have hp' : s'.task p = { bonusOf M s.jiffies (s.task p) with
        array := some (homeOf s.active (s.task p)), state := .running } := by
      rw [hs', Sys.modTask_task_self, Sys.reschedTask, Sys.modTask_task_of_ne _ _ _ hp, hself]
    have hc' : s'.task s.curr = { s.task s.curr with needResched := true } := by
      rw [hs', Sys.modTask_task_of_ne _ _ _ hp.symm, Sys.reschedTask, Sys.modTask_task_self, hcurr]
    refine ⟨by rw [hs']; rfl, by rw [hs']; rfl, hp' ▸ ⟨hcore.1, hcore.2, hcore.3, hcore.4⟩, by rw [hp'],
      hc' ▸ ⟨rfl, rfl, rfl, rfl⟩, by rw [hc'], by rw [hc']; simp [hlt]⟩
  · rw [if_neg hlt] at hs'
    have hp' : s'.task p = { bonusOf M s.jiffies (s.task p) with
        array := some (homeOf s.active (s.task p)), state := .running } := by
      rw [hs', Sys.modTask_task_self, hself]
    have hc' : s'.task s.curr = s.task s.curr := by
      rw [hs', Sys.modTask_task_of_ne _ _ _ hp.symm, hcurr]
    refine ⟨by rw [hs']; rfl, by rw [hs']; rfl, hp' ▸ ⟨hcore.1, hcore.2, hcore.3, hcore.4⟩, by rw [hp'],
      hc' ▸ SameCore.refl _, by rw [hc'], by rw [hc']; simp [hlt]⟩

/-- The priorities of a class. -/
lemma RqInv.classPlace_prio (h : RqInv s) {q : Tid} (hq : s.Known q) :
    (s.classPlace q = 0 ∧ (s.task q).prio < maxRtPrio)
      ∨ (s.classPlace q = 1 ∧ (s.task q).IsRegular)
      ∨ (s.classPlace q = 2 ∧ q ≠ s.idle ∧ (s.task q).policy = .other)
      ∨ (s.classPlace q = 3 ∧ (s.task q).IsOverdue ∧ (s.task q).prio = maxPrio - 1)
      ∨ (s.classPlace q = 4 ∧ (s.task q).prio = maxPrio) := by
  rw [Sys.classPlace]
  by_cases hi : q = s.idle
  · rw [if_pos hi]
    exact Or.inr (Or.inr (Or.inr (Or.inr ⟨rfl, hi ▸ h.idle.prio⟩)))
  have ht := h.tasks q (hq.resolve_right hi)
  rw [if_neg hi]
  cases hp : (s.task q).policy with
  | fifo => exact Or.inl ⟨rfl, (ht.rt (Or.inl hp)).1⟩
  | rr => exact Or.inl ⟨rfl, (ht.rt (Or.inr hp)).1⟩
  | other => exact Or.inr (Or.inr (Or.inl ⟨rfl, hi, rfl⟩))
  | short =>
      dsimp only
      split_ifs with h1
      · exact Or.inr (Or.inl ⟨rfl, hp, h1⟩)
      · have ho : (s.task q).IsOverdue := ⟨hp, ht.isShort_eq_neg_one hp h1⟩
        exact Or.inr (Or.inr (Or.inr (Or.inl ⟨rfl, ho, ht.overdue ho⟩)))

/-- A wake-up is missed when the woken task is of a better class and its priority is not. -/
lemma wakePreempts_iff_prio (h : Inv s) (hp : s.IsTask p) (ha : (s.task p).array = none) :
    WakePreempts M s p ↔ ¬ ((s.task s.curr).needResched = false
      ∧ s.classPlace p < s.classPlace s.curr
      ∧ (s.task s.curr).prio ≤ (bonusOf M s.jiffies (s.task p)).prio) := by
  have hpc : p ≠ s.curr := fun he => h.curr (he ▸ hp.2) (he ▸ ha)
  obtain ⟨hcurr, hidle, hp1, hp2, hc1, hc2, hnr⟩ := tryToWakeUp_off (M := M) hpc ha
  have hplace : ∀ q, SameCore (s.task q) ((s.tryToWakeUp M p).task q) →
      (s.tryToWakeUp M p).classPlace q = s.classPlace q := fun q hq => by
    rw [Sys.classPlace, Sys.classPlace, hidle, hq.policy, hq.isShort]
  simp only [WakePreempts, Sys.Outranks, ha, true_imp_iff]
  rw [hcurr, hplace p hp1, hplace s.curr hc1, hp2, hc2, hnr, ← Bool.not_eq_true]
  constructor
  · rintro himp ⟨hno, hlt, hle⟩
    rcases himp (Or.inl hlt) with hyes | hprio
    · exact hno hyes
    · omega
  · rintro hno (hlt | ⟨-, hprio⟩)
    · by_contra hnone
      rw [not_or] at hnone
      exact hno ⟨hnone.1, hlt, not_lt.mp hnone.2⟩
    · exact Or.inr hprio

/-- The pairs of tasks on which class and priority disagree. -/
lemma disagree_iff (h : Inv s) (hp : s.IsTask p) :
    (s.classPlace p < s.classPlace s.curr
        ∧ (s.task s.curr).prio ≤ (bonusOf M s.jiffies (s.task p)).prio)
      ↔ ((s.task p).IsRegular ∧ s.curr ≠ s.idle ∧ (s.task s.curr).policy = .other
          ∧ (s.task s.curr).prio ≤ (s.task p).prio
        ∨ ((s.task p).IsRegular ∨ (s.task p).policy = .other) ∧ (s.task s.curr).IsOverdue
          ∧ (bonusOf M s.jiffies (s.task p)).prio = maxPrio - 1) := by
  have hpi : s.classPlace p ≠ 4 := by
    rw [Sys.classPlace, if_neg hp.2]
    cases (s.task p).policy <;> dsimp only
    case short => split_ifs <;> decide
    all_goals decide
  have hpt := h.toRqInv.classPlace_prio (Or.inl hp)
  have hct := h.toRqInv.classPlace_prio h.known_curr
  have hk : (bonusOf M s.jiffies (s.task p)).prio < maxPrio := (h.tasks p hp).bonus.prio_lt
  have hcr : s.classPlace s.curr ≠ 0 → maxRtPrio ≤ (s.task s.curr).prio := fun hne => by
    rcases h.known_curr with hc | hc
    · have ht := h.tasks _ hc
      by_contra hlt
      rw [Sys.classPlace, if_neg hc.2] at hne
      rcases ht.isRt_iff.mp (not_le.mp hlt) with hf | hf <;> simp [hf] at hne
    · rw [hc, h.idle.prio]
      decide
  have hrt : (s.task p).prio < maxRtPrio →
      (bonusOf M s.jiffies (s.task p)).prio = (s.task p).prio := fun hlt => by
    rw [Sys.bonusOf_of_class M _ _ (Or.inl hlt)]
  have hreg : (s.task p).policy = .short →
      (bonusOf M s.jiffies (s.task p)).prio = (s.task p).prio := fun hs => by
    rw [Sys.bonusOf_of_class M _ _ (Or.inr hs)]
  constructor
  · rintro ⟨hlt, hle⟩
    rcases hct with ⟨hc, -⟩ | ⟨hc, -⟩ | ⟨hc, hci, hco⟩ | ⟨hc, hco, hcp⟩ | ⟨hc, hcp⟩
    · omega
    · -- only a real-time task outranks a regular one, and the priorities say so
      rcases hpt with ⟨-, hpr⟩ | hpt
      · have := hrt hpr
        have := hcr (by omega)
        omega
      · omega
    · rcases hpt with ⟨-, hpr⟩ | ⟨-, hpr⟩ | hpt
      · have := hrt hpr
        have := hcr (by omega)
        omega
      · exact Or.inl ⟨hpr, hci, hco, hreg hpr.1 ▸ hle⟩
      · omega
    · rcases hpt with ⟨-, hpr⟩ | ⟨-, hpr⟩ | ⟨-, -, hpr⟩ | hpt
      · have := hrt hpr
        have := hcr (by omega)
        omega
      · exact Or.inr ⟨Or.inl hpr, hco, by omega⟩
      · exact Or.inr ⟨Or.inr hpr, hco, by omega⟩
      · omega
    · omega
  · rintro (⟨hpr, hci, hco, hle⟩ | ⟨hpr, hco, hkp⟩)
    · refine ⟨?_, hreg hpr.1 ▸ hle⟩
      simp [Sys.classPlace, hp.2, hci, hco, hpr.1, hpr.2]
    · have hci : s.curr ≠ s.idle := fun hi => by
        have := hco.1
        simp [hi, h.idle.policy] at this
      have hcp : (s.task s.curr).prio = maxPrio - 1 :=
        (h.tasks _ (h.known_curr.resolve_right hci)).overdue hco
      refine ⟨?_, by omega⟩
      rcases hpr with hpr | hpr
      · simp [Sys.classPlace, hp.2, hci, hco.1, hco.2, hpr.1, hpr.2]
      · simp [Sys.classPlace, hp.2, hci, hco.1, hco.2, hpr]

/-- **When waking preempts as `schedule` would choose**: unless the pair of tasks is
overlooked. -/
theorem wakePreempts_iff {ops : List Op} (hrun : run (Sys.exec M) ops (Sys.booted M) = some s)
    (hp : s.IsTask p) (ha : (s.task p).array = none) :
    WakePreempts M s p ↔ ¬ Overlooked M s p := by
  have h := reach_inv hrun
  rw [wakePreempts_iff_prio h hp ha, Overlooked, disagree_iff h hp]

end

/-- A process turns SHORT and goes to sleep, and its child runs with the nice value `n`. -/
def sleeperRun (n : ℤ) : List Op :=
  [.fork ⟨false, false⟩ 1, .schedule, .fork ⟨false, false⟩ 2,
    .setscheduler 0 5 (.readable ⟨0, 100⟩), .nice 2 n, .setState .interruptible, .schedule,
    .schedule]

theorem wakePreempts_sleeperRun : ∃ s,
    run (Sys.exec .hz100) (sleeperRun 10) (Sys.booted .hz100) = some s
      ∧ WakePreempts .hz100 s 1 := by
  have hrun : ((run (Sys.exec .hz100) (sleeperRun 10) (Sys.booted .hz100)).any fun s =>
      decide (s.IsTask 1 ∧ (s.task 1).array = none ∧ ¬ Overlooked .hz100 s 1)) = true := by
    decide +kernel
  obtain ⟨s, hs, hok⟩ := (Option.any_eq_true _ _).mp hrun
  obtain ⟨hp, ha, hno⟩ := of_decide_eq_true hok
  exact ⟨s, hs, (wakePreempts_iff hs hp ha).mpr hno⟩

/-- With the nice value -10 the child keeps the processor when the SHORT process wakes up. -/
theorem not_wakePreempts : ¬ ∀ (M : Arch) (ops : List Op) (s : Sys) (p : Tid),
    run (Sys.exec M) ops (Sys.booted M) = some s → s.IsTask p → WakePreempts M s p := by
  intro hall
  have hrun : ((run (Sys.exec .hz100) (sleeperRun (-10)) (Sys.booted .hz100)).any fun s =>
      decide (s.IsTask 1 ∧ (s.task 1).array = none
        ∧ (s.tryToWakeUp .hz100 1).Outranks 1 (s.tryToWakeUp .hz100 1).curr
        ∧ ((s.tryToWakeUp .hz100 1).task (s.tryToWakeUp .hz100 1).curr).needResched = false))
        = true := by
    decide +kernel
  obtain ⟨s, hs, hbad⟩ := (Option.any_eq_true _ _).mp hrun
  obtain ⟨hp, ha, hrank, hno⟩ := of_decide_eq_true hbad
  have := hall .hz100 (sleeperRun (-10)) s 1 hs hp ha hrank
  simp [hno] at this

end Os234123.Sched
