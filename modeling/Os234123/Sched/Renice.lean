import Os234123.Sched.Preempt
import Os234123.Sched.ForkQueues

/-!
Does a new nice value preempt the running task?

* `Leads`: the order in which `schedule` prefers tasks, the OTHER tasks of the active array before
  those of the expired one, and the idle task last;
* `Inv.prefers_of_leads`: `schedule` does prefer them so;
* `NicePreempts`: if the call makes the task lead the running one, a reschedule is due;
* `Unnoticed`: the calls on which the comparison of the static priorities misses this;
* `nicePreempts_iff`: it is missed on no other.
-/

namespace Os234123.Sched

open Machine

/-! ### The order of the queued tasks -/

namespace Sys

variable (s : Sys) (p q : Tid)

/-- The place of a task in the order of `schedule`, the smaller the sooner. -/
def rankPlace : ℕ := if p = s.idle then 5 else (s.rankOf p).place

/-- `schedule` prefers `p` to `q`: its class is better, or the classes are equal and its priority
is. -/
def Leads : Prop := s.rankPlace p < s.rankPlace q
  ∨ s.rankPlace p = s.rankPlace q ∧ (s.task p).prio < (s.task q).prio

instance : Decidable (s.Leads p q) := inferInstanceAs (Decidable (_ ∨ _))

end Sys

section

variable {M : Arch} {s s' : Sys} {p q : Tid}

/-- The fields the place of a task depends on. -/
lemma Sys.rankPlace_congr (hidle : s'.idle = s.idle) (hact : s'.active = s.active)
    (hpol : (s'.task q).policy = (s.task q).policy)
    (hshort : (s'.task q).isShort = (s.task q).isShort)
    (harr : (s'.task q).array = (s.task q).array) : s'.rankPlace q = s.rankPlace q := by
  rw [rankPlace, rankPlace, rankOf, rankOf, hidle, hact, hpol, hshort, harr]

/-- The place of a task, class by class. -/
lemma RqInv.rankPlace_cases (h : RqInv s) (hq : s.Known q) :
    (s.rankPlace q = 0 ∧ ((s.task q).policy = .fifo ∨ (s.task q).policy = .rr))
      ∨ (s.rankPlace q = 1 ∧ (s.task q).IsRegular)
      ∨ (s.rankPlace q = 2 ∧ q ≠ s.idle ∧ (s.task q).policy = .other
          ∧ (s.task q).array = some s.active)
      ∨ (s.rankPlace q = 3 ∧ q ≠ s.idle ∧ (s.task q).policy = .other
          ∧ (s.task q).array ≠ some s.active)
      ∨ (s.rankPlace q = 4 ∧ (s.task q).IsOverdue)
      ∨ (s.rankPlace q = 5 ∧ q = s.idle) := by
  by_cases hi : q = s.idle
  · simp [Sys.rankPlace, hi]
  have ht := h.tasks q (hq.resolve_right hi)
  rw [Sys.rankPlace, if_neg hi, Sys.rankOf]
  cases hp : (s.task q).policy with
  | fifo => exact Or.inl ⟨rfl, Or.inl rfl⟩
  | rr => exact Or.inl ⟨rfl, Or.inr rfl⟩
  | other =>
      by_cases ha : (s.task q).array = some s.active
      · simp [ha, hi, Rank.place]
      · simp [ha, hi, Rank.place]
  | short =>
      by_cases h1 : (s.task q).isShort = 1
      · simp [h1, Rank.place, Task.IsRegular, hp]
      · have h2 := ht.isShort_eq_neg_one hp h1
        simp [h2, Rank.place, Task.IsOverdue, hp]

/-- The idle task leads nobody, and everybody else has a place before it. -/
lemma Sys.rankPlace_lt (hq : q ≠ s.idle) : s.rankPlace q < 5 := by
  rw [rankPlace, if_neg hq]
  cases s.rankOf q <;> decide

/-- **`schedule` prefers a task that leads**: as long as it can run, the other is not taken. -/
theorem Inv.prefers_of_leads (h : Inv s) (hlead : s.schedulePrev.Leads p q) : Prefers M s p q := by
  intro hp s' hs hq
  obtain ⟨a, hch⟩ := h.schedule_choice hp hs
  rw [hq] at hch
  have hpi : s.schedulePrev.rankPlace p = (s.schedulePrev.rankOf p).place := if_neg hp.1.2
  have hqi : s.schedulePrev.rankPlace q = (s.schedulePrev.rankOf q).place := if_neg hch.runnable.1.2
  rw [Sys.Leads, hpi, hqi] at hlead
  rcases hch.best p hp with hlt | ⟨heq, hle⟩
  · omega
  · rw [heq] at hlead
    omega

end

/-! ### A new nice value -/

/-- If the new nice value makes `p` lead the running task, a reschedule is due. -/
def NicePreempts (s : Sys) (p : Tid) (n : ℤ) : Prop :=
  let s' := s.setUserNice p n
  ¬ s.Leads p s.curr → s'.Leads p s'.curr → (s'.task s'.curr).needResched = true

/-- No reschedule is due yet, `p` and the running task are OTHER tasks of one array, and the new
static priority of `p` is worse than its old one, but better than the priority of the running task,
which `p` itself does not run at. -/
def Unnoticed (s : Sys) (p : Tid) (n : ℤ) : Prop :=
  (s.task s.curr).needResched = false
    ∧ (s.curr ≠ s.idle ∧ (s.task s.curr).policy = .other ∧ (s.task p).policy = .other
      ∧ (s.task p).array = (s.task s.curr).array)
    ∧ (n ≤ 19 ∧ (s.task p).staticPrio < niceToPrio n)
    ∧ niceToPrio n < (s.task s.curr).prio ∧ (s.task s.curr).prio ≤ (s.task p).prio

instance (s : Sys) (p : Tid) (n : ℤ) : Decidable (Unnoticed s p n) :=
  inferInstanceAs (Decidable (_ ∧ _))

section

variable {M : Arch} {s : Sys} {p : Tid} {n : ℤ}

/-- A static priority that gets worse is a valid new nice value. -/
lemma niceToPrio_valid (hst : maxRtPrio ≤ (s.task p).staticPrio) (hn : n ≤ 19)
    (hlt : (s.task p).staticPrio < niceToPrio n) :
    ¬ ((s.task p).nice = n ∨ n < -20 ∨ 19 < n) := by
  simp only [Task.nice, prioToNice, niceToPrio, maxRtPrio] at *
  omega

/-- A new valid nice value is a new static priority. -/
lemma staticPrio_ne_niceToPrio {t : Task} (hn : ¬ (t.nice = n ∨ n < -20 ∨ 19 < n)) :
    t.staticPrio ≠ niceToPrio n := by
  intro he
  obtain ⟨hnice, hvalid⟩ := not_or.mp hn
  refine hnice ?_
  simp only [Task.nice, prioToNice, he, niceToPrio, maxRtPrio]
  omega

/-- A task that is not overdue runs at its new static priority, an overdue one as before. -/
lemma renice_prio {t : Task} (n : ℤ) (ho : ¬ t.IsOverdue) :
    (Sys.renice n t).prio = niceToPrio n := by
  have ho' : ¬ Task.IsOverdue { t with staticPrio := niceToPrio n } := ho
  simp only [Sys.renice, if_pos ho']

lemma renice_prio_of_overdue {t : Task} (n : ℤ) (ho : t.IsOverdue) :
    (Sys.renice n t).prio = t.prio := by
  have ho' : Task.IsOverdue { t with staticPrio := niceToPrio n } := ho
  simp only [Sys.renice, if_neg (not_not.mpr ho')]

/-- The order of a real-time task does not depend on its nice value. -/
lemma leads_setUserNice_of_isRt (hn : ¬ ((s.task p).nice = n ∨ n < -20 ∨ 19 < n))
    (hrt : (s.task p).IsRt) (hpc : p ≠ s.curr)
    (hlead : (s.setUserNice p n).Leads p (s.setUserNice p n).curr) : s.Leads p s.curr := by
  have heq : s.setUserNice p n = s.modTask p fun t => { t with staticPrio := niceToPrio n } := by
    rw [Sys.setUserNice, if_neg hn, if_pos hrt]
  rw [heq, Sys.modTask_curr] at hlead
  simpa only [Sys.Leads, Sys.rankPlace, Sys.rankOf, Sys.modTask_idle, Sys.modTask_active,
    Sys.modTask_task_self, Sys.modTask_task_of_ne _ _ _ hpc.symm] using hlead

/-- The two records that count, once a queued task has got a new nice value. -/
lemma setUserNice_queued {a : ArrayId} (ha : (s.task p).array = some a) (hpc : p ≠ s.curr)
    (hn : ¬ ((s.task p).nice = n ∨ n < -20 ∨ 19 < n)) (hrt : ¬ (s.task p).IsRt) :
    let s' := s.setUserNice p n
    (s'.curr = s.curr ∧ s'.idle = s.idle ∧ s'.active = s.active)
      ∧ s'.task p = Sys.renice n (s.task p)
      ∧ s'.task s.curr = { s.task s.curr with
          needResched := (s.task s.curr).needResched
            || decide (niceToPrio n < (s.task p).staticPrio) } := by
  intro s'
  set s₁ := ((s.dequeueTask p a).modTask p (Sys.renice n)).enqueueTask p a with hs₁
  have hself : s₁.task p = Sys.renice n (s.task p) := by
    have harr : (Sys.renice n (s.task p)).array = some a := renice_array.trans ha
    rw [hs₁, Sys.enqueueTask, Sys.enqueueAs_task, Function.update_self, Sys.modTask_task_self,
      Sys.dequeueTask_task, ← harr]
  have hcurr : s₁.task s.curr = s.task s.curr := by
    rw [hs₁, Sys.enqueueTask, Sys.enqueueAs_task, Function.update_of_ne hpc.symm,
      Sys.modTask_task_of_ne _ _ _ hpc.symm, Sys.dequeueTask_task]
  have hframe : s₁.curr = s.curr ∧ s₁.idle = s.idle ∧ s₁.active = s.active := by
    simp [hs₁, Sys.enqueueTask]
  have heq : s' = if niceToPrio n < (s.task p).staticPrio ∨ p = s₁.curr then s₁.reschedTask s₁.curr
      else s₁ := by
    simp only [s', Sys.setUserNice, if_neg hn, if_neg hrt, ha, hs₁]
  rw [hframe.1] at heq
  by_cases hlt : niceToPrio n < (s.task p).staticPrio
  · rw [heq, if_pos (Or.inl hlt)]
    refine ⟨hframe, ?_, ?_⟩
    · rw [Sys.reschedTask, Sys.modTask_task_of_ne _ _ _ hpc, hself]
    · rw [Sys.reschedTask, Sys.modTask_task_self, hcurr]
      simp [hlt]
  · rw [heq, if_neg (by simp [hlt, hpc])]
    exact ⟨hframe, hself, by rw [hcurr]; simp [hlt]⟩

/-- The place of a task does not depend on its nice value. -/
lemma rankPlace_setUserNice {a : ArrayId} (ha : (s.task p).array = some a) (hpc : p ≠ s.curr)
    (hn : ¬ ((s.task p).nice = n ∨ n < -20 ∨ 19 < n)) (hrt : ¬ (s.task p).IsRt) :
    (s.setUserNice p n).rankPlace p = s.rankPlace p
      ∧ (s.setUserNice p n).rankPlace s.curr = s.rankPlace s.curr := by
  obtain ⟨⟨-, hidle, hact⟩, hp, hc⟩ := setUserNice_queued ha hpc hn hrt
  have hkeep : (Sys.renice n (s.task p)).policy = (s.task p).policy
      ∧ (Sys.renice n (s.task p)).isShort = (s.task p).isShort := by
    simp only [Sys.renice]
    split_ifs <;> exact ⟨rfl, rfl⟩
  refine ⟨Sys.rankPlace_congr hidle hact ?_ ?_ ?_, Sys.rankPlace_congr hidle hact ?_ ?_ ?_⟩
  · rw [hp, hkeep.1]
  · rw [hp, hkeep.2]
  · rw [hp, renice_array]
  all_goals rw [hc]

/-- Two tasks of one place that are not real-time. -/
lemma RqInv.same_place (h : RqInv s) (hp : (s.task p).array ≠ none) {q : Tid} (hq : s.Known q)
    (hqa : q ≠ s.idle → (s.task q).array ≠ none) (hrt : ¬ (s.task p).IsRt)
    (heq : s.rankPlace p = s.rankPlace q) :
    (s.task p).IsRegular
      ∨ (s.task p).IsOverdue
      ∨ q ≠ s.idle ∧ (s.task q).policy = .other ∧ (s.task p).policy = .other
        ∧ (s.task p).array = (s.task q).array := by
  have hpt := h.queued p hp
  -- an OTHER task that is queued elsewhere than in the active array is in the expired one
  have hexp : ∀ x, s.IsTask x → (s.task x).array ≠ none → (s.task x).policy = .other →
      (s.task x).array ≠ some s.active → (s.task x).array = some s.expired := by
    intro x hx hxa hxo hne
    rcases (h.tasks x hx).markers with ⟨h1, -⟩ | ⟨h1, -⟩ | ⟨-, -, h1⟩
    · simp [hxo] at h1
    · simp [hxo] at h1
    · exact (h1.resolve_left hxa).resolve_left hne
  have hlt := Sys.rankPlace_lt hpt.2
  rcases h.rankPlace_cases (Or.inl hpt) with
    ⟨-, h1⟩ | ⟨-, h1⟩ | ⟨hpl, -, hpo, hpa⟩ | ⟨hpl, -, hpo, hpa⟩ | ⟨-, h1⟩ | ⟨-, h1⟩
  · exact absurd ((h.tasks p hpt).isRt_iff.mpr h1) hrt
  · exact Or.inl h1
  · rcases h.rankPlace_cases hq with
      ⟨hc, -⟩ | ⟨hc, -⟩ | ⟨-, hqi, hqo, hqq⟩ | ⟨hc, -⟩ | ⟨hc, -⟩ | ⟨hc, -⟩
    case inr.inr.inl => exact Or.inr (Or.inr ⟨hqi, hqo, hpo, hpa.trans hqq.symm⟩)
    all_goals omega
  · rcases h.rankPlace_cases hq with
      ⟨hc, -⟩ | ⟨hc, -⟩ | ⟨hc, -⟩ | ⟨-, hqi, hqo, hqq⟩ | ⟨hc, -⟩ | ⟨hc, -⟩
    case inr.inr.inr.inl =>
      have h1 := hexp p hpt hp hpo hpa
      have h2 := hexp q (hq.resolve_right hqi) (hqa hqi) hqo hqq
      exact Or.inr (Or.inr ⟨hqi, hqo, hpo, h1.trans h2.symm⟩)
    all_goals omega
  · exact Or.inr (Or.inl h1)
  · exact absurd h1 hpt.2

/-- A new nice value is missed when it takes `p` past the running task of its own class while its
static priority gets worse. -/
lemma nicePreempts_iff_prio {a : ArrayId} (ha : (s.task p).array = some a) (hpc : p ≠ s.curr)
    (hn : ¬ ((s.task p).nice = n ∨ n < -20 ∨ 19 < n)) (hrt : ¬ (s.task p).IsRt) :
    NicePreempts s p n ↔ ¬ ((s.task s.curr).needResched = false
      ∧ s.rankPlace p = s.rankPlace s.curr ∧ (s.task p).staticPrio ≤ niceToPrio n
      ∧ (Sys.renice n (s.task p)).prio < (s.task s.curr).prio
      ∧ (s.task s.curr).prio ≤ (s.task p).prio) := by
  obtain ⟨⟨hcurr, -, -⟩, hp, hc⟩ := setUserNice_queued ha hpc hn hrt
  obtain ⟨hplace, hplace'⟩ := rankPlace_setUserNice ha hpc hn hrt
  simp only [NicePreempts, Sys.Leads]
  rw [hcurr, hplace, hplace', hp, hc]
  simp only [Bool.or_eq_true, decide_eq_true_eq]
  constructor
  · rintro himp ⟨hno, heq, hst, hlt, hle⟩
    rcases himp (by omega) (Or.inr ⟨heq, hlt⟩) with hyes | hless
    · exact Bool.false_ne_true (hno.symm.trans hyes)
    · omega
  · intro hno hnot hlead
    by_contra hnone
    rw [not_or, Bool.not_eq_true] at hnone
    refine hno ⟨hnone.1, ?_, ?_, ?_, ?_⟩ <;> omega

/-- **When a new nice value preempts as `schedule` would choose**: unless the call goes
unnoticed. -/
theorem nicePreempts_iff {ops : List Op} (hrun : run (Sys.exec M) ops (Sys.booted M) = some s)
    (hp : (s.task p).array ≠ none) (hpc : p ≠ s.curr) :
    NicePreempts s p n ↔ ¬ Unnoticed s p n := by
  have h := reach_inv hrun
  obtain ⟨a, ha⟩ := Option.ne_none_iff_exists'.mp hp
  have ht := h.tasks p (h.queued p hp)
  by_cases hn : (s.task p).nice = n ∨ n < -20 ∨ 19 < n
  · -- the call does nothing
    have heq : s.setUserNice p n = s := by rw [Sys.setUserNice, if_pos hn]
    refine iff_of_true (fun hno hyes => absurd (heq ▸ hyes) hno) ?_
    rintro ⟨-, -, ⟨h19, hlt⟩, -⟩
    exact niceToPrio_valid ht.static.1 h19 hlt hn
  by_cases hrt : (s.task p).IsRt
  · -- a real-time task keeps its priority
    refine iff_of_true (fun hno hyes => absurd (leads_setUserNice_of_isRt hn hrt hpc hyes) hno) ?_
    rintro ⟨-, ⟨-, -, hother, -⟩, -⟩
    rcases ht.isRt_iff.mp hrt with hpol | hpol <;> simp [hother] at hpol
  rw [nicePreempts_iff_prio ha hpc hn hrt, Unnoticed]
  refine not_congr (and_congr_right fun _ => ?_)
  constructor
  · rintro ⟨heq, hst, hlt, hle⟩
    rcases h.toRqInv.same_place hp h.known_curr h.curr hrt heq with hr | hov | hother
    · -- a regular SHORT task runs at its static priority
      have hpr := (reach_classPrio hrun).regular p (h.queued p hp) hr
      rw [renice_prio n hr.not_overdue] at hlt
      omega
    · rw [renice_prio_of_overdue n hov] at hlt
      omega
    · have hov : ¬ (s.task p).IsOverdue := fun ho =>
        absurd (hother.2.2.1.symm.trans ho.1) (by decide)
      rw [renice_prio n hov] at hlt
      have hnew := staticPrio_ne_niceToPrio hn
      exact ⟨hother, ⟨by omega, by omega⟩, hlt, hle⟩
  · rintro ⟨⟨hci, hco, hpo, harr⟩, ⟨-, hst⟩, hlt, hle⟩
    have hov : ¬ (s.task p).IsOverdue := fun ho => absurd (hpo.symm.trans ho.1) (by decide)
    refine ⟨?_, hst.le, by rwa [renice_prio n hov], hle⟩
    rw [Sys.rankPlace, Sys.rankPlace, if_neg hci, if_neg (h.queued p hp).2, Sys.rankOf, Sys.rankOf,
      hco, hpo, harr]

end

/-- Two processes of the same priority, which is worse than their static one. -/
def twoProcessesRun : List Op :=
  [.fork ⟨false, false⟩ 1, .schedule, .fork ⟨false, false⟩ 2, .schedule]

theorem nicePreempts_twoProcessesRun : ∃ s,
    run (Sys.exec .hz100) twoProcessesRun (Sys.booted .hz100) = some s ∧ s.curr = 1
      ∧ NicePreempts s 2 (-5) := by
  have hrun : ((run (Sys.exec .hz100) twoProcessesRun (Sys.booted .hz100)).any fun s =>
      decide ((s.task 2).array ≠ none ∧ s.curr = 1 ∧ ¬ Unnoticed s 2 (-5))) = true := by
    decide +kernel
  obtain ⟨s, hs, hok⟩ := (Option.any_eq_true _ _).mp hrun
  obtain ⟨hq, hc, hno⟩ := of_decide_eq_true hok
  exact ⟨s, hs, hc, (nicePreempts_iff hs hq (by rw [hc]; decide)).mpr hno⟩

/-- The nice value 1 lifts the second process over the first, which keeps the processor. -/
theorem not_nicePreempts : ¬ ∀ (M : Arch) (ops : List Op) (s : Sys) (p : Tid) (n : ℤ),
    run (Sys.exec M) ops (Sys.booted M) = some s → (s.task p).array ≠ none → p ≠ s.curr →
      NicePreempts s p n := by
  intro hall
  have hrun : ((run (Sys.exec .hz100) twoProcessesRun (Sys.booted .hz100)).any fun s =>
      decide ((s.task 2).array ≠ none ∧ 2 ≠ s.curr ∧ ¬ s.Leads 2 s.curr
        ∧ (s.setUserNice 2 1).Leads 2 (s.setUserNice 2 1).curr
        ∧ ((s.setUserNice 2 1).task (s.setUserNice 2 1).curr).needResched = false)) = true := by
    decide +kernel
  obtain ⟨s, hs, hbad⟩ := (Option.any_eq_true _ _).mp hrun
  obtain ⟨hq, hc, hnot, hlead, hno⟩ := of_decide_eq_true hbad
  have := hall .hz100 twoProcessesRun s 2 1 hs hq hc hnot hlead
  exact Bool.false_ne_true (hno.symm.trans this)

end Os234123.Sched
