import Os234123.Sched.Records

/-!
The priority of a task and its class.

* `PrioOk`: a regular SHORT task runs at its static priority, a real-time one at the priority of
  its `rt_priority`;
* `PrioOk.change`: no operation breaks this;
* `ClassPrio`, `reach_classPrio`: every task has the priority its class prescribes, in every
  reachable state.
-/

namespace Os234123.Sched

open Machine

/-! ### One record -/

/-- The priority of a regular SHORT or real-time task is the one its other fields give. -/
structure PrioOk (t : Task) : Prop where
  regular : t.IsRegular → t.prio = t.staticPrio
  rt : t.policy = .fifo ∨ t.policy = .rr → t.prio + t.rtPriority = maxUserRtPrio - 1
  static : maxRtPrio ≤ t.staticPrio

namespace PrioOk

variable {M : Arch} {active expired : ArrayId} {t t' : Task}

/-- A real-time task is one by its priority too. -/
lemma isRt (h : PrioOk t) (hp : t.policy = .fifo ∨ t.policy = .rr) : t.IsRt := by
  have := h.rt hp
  simp only [Task.IsRt, maxUserRtPrio, maxRtPrio] at *
  omega

/-- An ordinary task owes nothing but its static priority. -/
lemma of_other (hp : t.policy = .other) (hs : maxRtPrio ≤ t.staticPrio) : PrioOk t :=
  ⟨fun hr => absurd (hp.symm.trans hr.1) (by decide), fun hr => by simp [hp] at hr, hs⟩

/-- A task that is neither SHORT nor real-time is an ordinary one. -/
lemma other_of_not (h : PrioOk t) (hp : t.policy ≠ .short) (hrt : ¬ t.IsRt) : t.policy = .other := by
  have hn : ¬ (t.policy = .fifo ∨ t.policy = .rr) := fun hr => hrt (h.isRt hr)
  cases hpol : t.policy <;> simp_all

lemma mild (h : PrioOk t) (hm : Mild t t') : PrioOk t' := by
  rcases hm.prio with heq | ⟨hp, hrt, -⟩
  · refine ⟨fun hr => ?_, fun hr => ?_, hm.staticPrio ▸ h.static⟩
    · rw [heq, hm.staticPrio]
      exact h.regular ⟨hm.policy ▸ hr.1, hm.isShort ▸ hr.2⟩
    · rw [heq, hm.rtPriority]
      exact h.rt (hm.policy ▸ hr)
  · exact of_other (hm.policy.trans (h.other_of_not hp hrt)) (hm.staticPrio ▸ h.static)

lemma tick (h : PrioOk t) (ht : TickOf M active expired t t') : PrioOk t' := by
  cases ht with
  | spend avg hne => exact ⟨h.regular, h.rt, h.static⟩
  | refillRr _ hp => exact ⟨h.regular, h.rt, h.static⟩
  | refillOther avg a _ hp _ => exact of_other hp h.static
  | turnOverdue avg _ hp =>
      refine ⟨fun hr => absurd hr.2 (by simp [Sys.turnOverdue]), fun hr => ?_, h.static⟩
      have hs : t.policy = .short := hp.1
      simp [Sys.turnOverdue, hs] at hr
  | turnOther avg _ hp => exact of_other rfl h.static

lemma halve (h : PrioOk t) : PrioOk (Sys.halve t) := by
  simp only [Sys.halve]
  split_ifs
  · exact h
  · exact ⟨h.regular, h.rt, h.static⟩

lemma share (h : PrioOk t) (hs : ShareOf M active expired t t') : PrioOk t' := by
  have hh := h.halve
  cases hs with
  | halved _ => exact hh
  | spared b _ => exact ⟨hh.regular, hh.rt, hh.static⟩
  | charged _ ht =>
      exact tick (t := { Sys.halve t with timeSlice := 1 }) ⟨hh.regular, hh.rt, hh.static⟩ ht

/-- A child gets its priority from its parent. -/
lemma newborn {s : Sys} (h : PrioOk (s.task s.curr)) (flags : ForkFlags) :
    PrioOk (newborn s flags) := by
  have hpol : (Sched.newborn s flags).policy = (s.task s.curr).policy :=
    inherit_policy (s.task s.curr) (Sys.childOf (s.task s.curr)) s.jiffies
  have hprio : (Sched.newborn s flags).prio = (s.task s.curr).prio := by
    simp only [Sched.newborn, Sys.inherit, Sys.childOf]
    split_ifs <;> rfl
  have hst : (Sched.newborn s flags).staticPrio = (s.task s.curr).staticPrio := by
    simp only [Sched.newborn, Sys.inherit, Sys.childOf]
    split_ifs <;> rfl
  have hrt : (Sched.newborn s flags).rtPriority = (s.task s.curr).rtPriority := by
    simp only [Sched.newborn, Sys.inherit, Sys.childOf]
    split_ifs <;> rfl
  refine ⟨fun hr => ?_, fun hr => ?_, hst ▸ h.static⟩
  · have hp : (s.task s.curr).policy = .short := hpol.symm.trans hr.1
    have h1 := hr.2
    simp only [Sched.newborn, Sys.inherit, hp, ne_eq, not_true_eq_false, false_and, if_false] at h1
    rw [hprio, hst]
    exact h.regular ⟨hp, h1⟩
  · rw [hprio, hrt]
    exact h.rt (hpol ▸ hr)

lemma reniced (h : PrioOk t) {n : ℤ} (hn : ¬ n < -20 ∧ ¬ 19 < n) : PrioOk (reniced n t) := by
  have hb := (niceToPrio_bounds hn.1 hn.2).1
  rw [Sched.reniced]
  split_ifs with hrt
  · refine ⟨fun hr => ?_, h.rt, hb⟩
    have := h.regular hr
    have hst := h.static
    simp only [Task.IsRt] at hrt
    omega
  · have hnrt : ¬ (t.policy = .fifo ∨ t.policy = .rr) := fun hr => hrt (h.isRt hr)
    simp only [Sys.renice]
    split_ifs with ho
    · refine ⟨fun hr => ?_, fun hr => absurd hr hnrt, hb⟩
      have h1 : t.isShort = -1 := ho.2
      have h2 : t.isShort = 1 := hr.2
      omega
    · exact ⟨fun _ => rfl, fun hr => absurd hr hnrt, hb⟩

/-- `setscheduler` computes the priority from the new parameters. -/
lemma newParams (h : PrioOk t) {pol : Policy} {lp : SchedParam}
    (hp : ¬ Sys.BadPriority pol lp) : PrioOk (Sys.newParams M t pol lp) := by
  by_cases hs : pol = .short
  · subst hs
    rw [newParams_short, shortParams_eq]
    exact ⟨fun _ => rfl, fun hr => by simp at hr, h.static⟩
  rw [newParams_of_ne M t hs]
  by_cases ho : pol = .other
  · exact of_other ho h.static
  · refine ⟨fun hr => absurd hr.1 hs, fun _ => ?_, h.static⟩
    have hle : lp.schedPriority ≤ (maxUserRtPrio : ℤ) - 1 := by
      simp only [Sys.BadPriority, hs, ne_eq, not_false_eq_true, true_and, not_or, not_lt] at hp
      exact hp.2.1
    simp only [if_neg ho, maxUserRtPrio] at hle ⊢
    omega

/-- **No operation breaks the priority of a task.** -/
lemma change {s : Sys} {o : Op} {p : Tid} (h : PrioOk (s.task p)) (hc : Change M s p o t') :
    PrioOk t' := by
  cases hc with
  | mild _ hm => exact h.mild hm
  | tick _ ht => exact h.tick ht
  | share _ hs hm => exact (h.share hs).mild hm
  | nice hn hm => exact (h.reniced hn).mild hm
  | change _ _ hacc hm => exact (h.newParams hacc.priority).mild hm
  | orphan _ _ hm => exact mild (t := orphaned _ _) ⟨h.regular, h.rt, h.static⟩ hm
  | credit _ _ _ hm => exact mild (t := credited _ _ _) ⟨h.regular, h.rt, h.static⟩ hm

end PrioOk

/-! ### Every task -/

/-- Every task the system knows has the priority of its class. -/
def PriosOk (s : Sys) : Prop := ∀ p, s.Known p → PrioOk (s.task p)

lemma booted_priosOk (M : Arch) : PriosOk (Sys.booted M) := by
  rintro p (hp | hp)
  · have := hp.1
    simp [booted_live] at this
  · rw [booted_idle] at hp
    rw [hp, booted_idle_task]
    exact PrioOk.of_other rfl (show maxRtPrio ≤ maxPrio - 20 by decide)

lemma PriosOk.step {M : Arch} {s s' : Sys} {o : Op} (h : Inv s) (hp : PriosOk s)
    (hs : s.exec M o = some s') : PriosOk s' := by
  intro p hk
  rcases (exec_step h hs).known_or_child hk with hk₁ | hnew
  · exact (hp p hk₁).change (exec_change h hs hk₁)
  · cases o with
    | fork flags c =>
        obtain rfl : c = p := Option.some.inj hnew
        exact ((hp _ h.known_curr).newborn flags).mild (exec_born h hs)
    | _ => simp [Op.child] at hnew

/-- Every task has the priority its class prescribes, and stands where that class may. -/
structure ClassPrio (s : Sys) : Prop where
  regular : ∀ p, s.IsTask p → (s.task p).IsRegular → (s.task p).prio = (s.task p).staticPrio
  overdue : ∀ p, s.IsTask p → (s.task p).IsOverdue → (s.task p).prio = maxPrio - 1
    ∧ ((s.task p).array ≠ none → p ∈ (s.arr .overdue).queue (maxPrio - 1))
  overdueQueues : ∀ k, k ≠ maxPrio - 1 → (s.arr .overdue).queue k = []
  realTime : ∀ p, s.IsTask p → (s.task p).policy = .fifo ∨ (s.task p).policy = .rr →
    ((s.task p).prio : ℤ) = (maxUserRtPrio : ℤ) - 1 - (s.task p).rtPriority
      ∧ (s.task p).prio < maxRtPrio ∧ (s.task p).array ≠ some s.expired
      ∧ ∀ k, p ∉ (s.arr s.expired).queue k
  other : ∀ p, s.IsTask p → (s.task p).policy = .other →
    maxRtPrio ≤ (s.task p).prio ∧ (s.task p).prio < maxPrio
  static : ∀ p, s.Known p →
    maxRtPrio ≤ (s.task p).staticPrio ∧ (s.task p).staticPrio ≤ maxPrio - 1

/-- A task in the overdue array is an overdue SHORT task. -/
lemma RqInv.isOverdue (h : RqInv s) {p : Tid} (ha : (s.task p).array = some .overdue) :
    (s.task p).IsOverdue := by
  have hm := (h.tasks p (h.isTask_of_array ha)).markers
  rw [ClassMarkers, ha] at hm
  rcases hm with ⟨-, -, hc⟩ | ⟨hp, hs, -⟩ | ⟨-, -, hc⟩
  · simp at hc
  · exact ⟨hp, hs⟩
  · rcases h.ends with ⟨h1, h2⟩ | ⟨h1, h2⟩ <;> simp [h1, h2] at hc

/-- An overdue SHORT task that is queued stands in the overdue array. -/
lemma RqInv.overdue_array (h : RqInv s) {p : Tid} (hp : s.IsTask p) (ho : (s.task p).IsOverdue)
    (ha : (s.task p).array ≠ none) : (s.task p).array = some .overdue := by
  rcases (h.tasks p hp).markers with ⟨-, h1, -⟩ | ⟨-, -, hc⟩ | ⟨h1, -⟩
  · have := ho.2
    omega
  · exact hc.resolve_left ha
  · exact absurd ho.1 h1

/-- A task in the array of the regular SHORT tasks is one. -/
lemma RqInv.isRegular (h : RqInv s) {p : Tid} (ha : (s.task p).array = some .shortActive) :
    (s.task p).IsRegular := by
  obtain ⟨h1, -, h2, -⟩ := h.ordinary
  rcases (h.tasks p (h.isTask_of_array ha)).markers with ⟨hp, hs, -⟩ | ⟨-, -, hc⟩ | ⟨-, -, hc⟩
  · exact ⟨hp, hs⟩
  · simp [ha] at hc
  · simp [ha, h1.symm, h2.symm] at hc

/-- A regular SHORT task that is queued stands in the array of the regular ones. -/
lemma RqInv.regular_array (h : RqInv s) {p : Tid} {a : ArrayId} (ha : (s.task p).array = some a)
    (hr : (s.task p).IsRegular) : (s.task p).array = some .shortActive := by
  rcases (h.tasks p (h.isTask_of_array ha)).markers with ⟨-, -, h2⟩ | ⟨-, h2, -⟩ | ⟨h2, -⟩
  · exact h2.resolve_left (by simp [ha])
  · rw [hr.2] at h2
    exact absurd h2 (by decide)
  · exact absurd hr.1 h2

lemma PriosOk.classPrio {s : Sys} (h : Inv s) (hp : PriosOk s) : ClassPrio s where
  regular := fun p ht hr => (hp p (Or.inl ht)).regular hr
  overdue := fun p ht ho => by
    have hprio := (h.tasks p ht).overdue ho
    refine ⟨hprio, fun ha => h.toRqInv.mem_queue_iff.mpr ⟨?_, hprio⟩⟩
    exact h.toRqInv.overdue_array ht ho ha
  overdueQueues := fun k hk => by
    by_contra hne
    obtain ⟨p, hmem⟩ := List.exists_mem_of_ne_nil _ hne
    obtain ⟨ha, hprio⟩ := h.toRqInv.mem_queue_iff.mp hmem
    have ht := h.toRqInv.isTask_of_array ha
    exact hk (hprio ▸ (h.tasks p ht).overdue (h.toRqInv.isOverdue ha))
  realTime := fun p ht hr => by
    obtain ⟨hlt, hne⟩ := (h.tasks p ht).rt hr
    have hsum := (hp p (Or.inl ht)).rt hr
    refine ⟨?_, hlt, hne, fun k hmem => hne (h.toRqInv.mem_queue_iff.mp hmem).1⟩
    simp only [maxUserRtPrio] at hsum ⊢
    omega
  other := fun p ht ho => (h.tasks p ht).usual (Or.inl ho)
  static := fun p hk => by
    obtain ⟨h1, h2⟩ := (h.toRqInv.classOk hk).static
    exact ⟨h1, by omega⟩

/-- **The priority of every task follows from its class** in every reachable state. -/
theorem reach_classPrio {M : Arch} {ops : List Op} {s : Sys}
    (h : run (Sys.exec M) ops (Sys.booted M) = some s) : ClassPrio s := by
  have hboth : Inv s ∧ PriosOk s :=
    run_induct (P := fun s => Inv s ∧ PriosOk s)
      (fun _ _ _ hi hs => ⟨(exec_step hi.1 hs).inv, hi.2.step hi.1 hs⟩)
      ⟨booted_inv M, booted_priosOk M⟩ h
  exact hboth.2.classPrio hboth.1

/-- A run with a round-robin task, a regular SHORT one with a new nice value, and an overdue
one. -/
def fourClassesRun : List Op :=
  [.fork ⟨false, false⟩ 1, .schedule, .fork ⟨false, false⟩ 2, .fork ⟨false, false⟩ 3,
    .setscheduler 2 2 (.readable ⟨40, 0⟩), .setscheduler 3 5 (.readable ⟨0, 100⟩), .nice 3 7,
    .setscheduler 0 5 (.readable ⟨0, 10⟩), .tick]

theorem classPrio_fourClassesRun : ∃ s,
    run (Sys.exec .hz100) fourClassesRun (Sys.booted .hz100) = some s ∧ ClassPrio s := by
  obtain ⟨s, hs⟩ := Option.isSome_iff_exists.mp (by decide +kernel :
    (run (Sys.exec .hz100) fourClassesRun (Sys.booted .hz100)).isSome = true)
  exact ⟨s, hs, reach_classPrio hs⟩

end Os234123.Sched
