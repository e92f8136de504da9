import Os234123.Sched.Guards
import Os234123.Sched.Renice

/-!
Does a change of parameters preempt the running task?

* `grantedPrio`: the priority `setscheduler` gives a queued task;
* `applyParams_granted`: the place and the priority such a task ends up with;
* `SetPreempts`: if the task then leads the running one, a reschedule is due;
* `Unannounced`: the calls that ask for none;
* `setPreempts_iff`: they are the ones without a reschedule.
-/

namespace Os234123.Sched

open Machine

/-! ### What a queued task is granted -/

/-- The priority a queued task `t` gets at time `j`: the one of its parameters if it is to be
real-time, else its static one, which for an OTHER task is corrected by its sleep. -/
def grantedPrio (M : Arch) (j : ℕ) (t : Task) (pol : Policy) (lp : SchedParam) : ℕ :=
  match pol with
  | .fifo => maxUserRtPrio - 1 - lp.schedPriority.toNat
  | .rr => maxUserRtPrio - 1 - lp.schedPriority.toNat
  | .short => t.staticPrio
  | .other => (bonusOf M j { t with policy := .other, prio := t.staticPrio }).prio

/-- The place of the class of a task that has just been given the policy. -/
def Policy.place : Policy → ℕ
  | .fifo => 0
  | .rr => 0
  | .short => 1
  | .other => 2

section

variable {M : Arch} {s : Sys} {p : Tid} {pol : Policy} {lp : SchedParam}

/-- A change of parameters, meanwhile off the queue. -/
lemma changeParams_off (M : Arch) (pol : Policy) (lp : SchedParam) (hpc : p ≠ s.curr) :
    let s' := s.changeParams M p pol lp
    (s'.curr = s.curr ∧ s'.idle = s.idle ∧ s'.active = s.active ∧ s'.jiffies = s.jiffies)
      ∧ s'.task p = Sys.newParams M (s.task p) pol lp
      ∧ s'.task s.curr = { s.task s.curr with
          needResched := (s.task s.curr).needResched
            || decide (pol = .short ∧ (s.task p).policy ≠ .short) } := by
  intro s'
  by_cases hnew : pol = .short ∧ (s.task p).policy ≠ .short
  · have heq : s' = (s.reschedTask s.curr).modTask p fun t => Sys.newParams M t pol lp := by
      simp only [s', Sys.changeParams, if_pos hnew]
    rw [heq]
    refine ⟨⟨rfl, rfl, rfl, rfl⟩, ?_, ?_⟩
    · rw [Sys.modTask_task_self, Sys.reschedTask, Sys.modTask_task_of_ne _ _ _ hpc]
    · rw [Sys.modTask_task_of_ne _ _ _ hpc.symm, Sys.reschedTask, Sys.modTask_task_self]
      simp [hnew]
  · have heq : s' = s.modTask p fun t => Sys.newParams M t pol lp := by
      simp only [s', Sys.changeParams, if_neg hnew]
    rw [heq]
    refine ⟨⟨rfl, rfl, rfl, rfl⟩, Sys.modTask_task_self .., ?_⟩
    rw [Sys.modTask_task_of_ne _ _ _ hpc.symm]
    simp [hnew]

/-- The two records that count, once the parameters of a queued task have changed. -/
lemma applyParams_queued (M : Arch) (pol : Policy) (lp : SchedParam) {a : ArrayId}
    (ha : (s.task p).array = some a) (hpc : p ≠ s.curr) :
    let s' := s.applyParams M p pol lp
    let u := Sys.newParams M { s.task p with array := none } pol lp
    (s'.curr = s.curr ∧ s'.idle = s.idle ∧ s'.active = s.active)
      ∧ s'.task p = { bonusOf M s.jiffies u with array := some (homeOf s.active u) }
      ∧ s'.task s.curr = { s.task s.curr with
          needResched := (s.task s.curr).needResched
            || decide (pol = .short ∧ (s.task p).policy ≠ .short) } := by
  intro s' u
  set s₁ := s.deactivateTask p with hs₁
  have hf := s.deactivateTask_frame p
  have hcurr₁ : s₁.curr = s.curr := s.deactivateTask_curr p
  have hself₁ : s₁.task p = { s.task p with array := none } := deactivateTask_self s p
  have hother₁ : s₁.task s.curr = s.task s.curr := hf.task _ hpc.symm
  obtain ⟨⟨hc, hi, hac, hj⟩, hself₂, hother₂⟩ :=
    changeParams_off (s := s₁) M pol lp (hcurr₁ ▸ hpc)
  rw [hcurr₁] at hc hother₂
  rw [hself₁] at hself₂ hother₂
  rw [hother₁] at hother₂
  have heq : s' = (s₁.changeParams M p pol lp).activateTask M p := by
    simp only [s', Sys.applyParams, ha, hs₁]
  rw [heq]
  refine ⟨⟨hc, hi.trans hf.idle, hac.trans hf.active⟩, ?_, ?_⟩
  · rw [Sys.activateTask_task, Function.update_self, hself₂, hac, hj, hf.active,
      Sys.deactivateTask_jiffies]
  · rw [Sys.activateTask_task, Function.update_of_ne hpc.symm, hother₂]

/-- The priority of an activated task. -/
lemma bonusOf_prio (M : Arch) (j : ℕ) (t : Task) : (bonusOf M j t).prio
    = if ¬ t.IsRt ∧ j - t.sleepTimestamp ≠ 0 ∧ t.policy ≠ .short
      then Task.effectivePrio M
        { t with sleepAvg := min (t.sleepAvg + (j - t.sleepTimestamp)) M.maxSleepAvg }
      else t.prio := by
  simp only [bonusOf]
  split_ifs <;> rfl

/-- The fields the priority of an activated task depends on. -/
lemma bonusOf_prio_congr (M : Arch) (j : ℕ) {t t' : Task} (hprio : t'.prio = t.prio)
    (hstatic : t'.staticPrio = t.staticPrio) (hpol : t'.policy = t.policy)
    (havg : t'.sleepAvg = t.sleepAvg) (hstamp : t'.sleepTimestamp = t.sleepTimestamp) :
    (bonusOf M j t').prio = (bonusOf M j t).prio := by
  rw [bonusOf_prio, bonusOf_prio]
  simp only [Task.IsRt, Task.effectivePrio, hprio, hstatic, hpol, havg, hstamp]

/-- The record that `setscheduler` puts back into a queue: its policy, its marker and its
priority. -/
lemma newParams_granted {t : Task} (j : ℕ) (lp : SchedParam)
    (hshort : t.policy = .short → pol = .short ∧ t.isShort = 1) :
    let u := bonusOf M j (Sys.newParams M { t with array := none } pol lp)
    u.policy = pol ∧ (pol = .short → u.isShort = 1) ∧ u.prio = grantedPrio M j t pol lp := by
  intro u
  have hrt : pol = .fifo ∨ pol = .rr →
      u = Sys.newParams M { t with array := none } pol lp := fun hpol => by
    refine Sys.bonusOf_of_class M j _ (Or.inl ?_)
    have hne : pol ≠ .short ∧ pol ≠ .other := by rcases hpol with rfl | rfl <;> decide
    rw [newParams_of_ne M _ hne.1, Task.IsRt]
    simp only [if_neg hne.2, maxUserRtPrio, maxRtPrio]
    omega
  cases pol with
  | fifo =>
      rw [hrt (Or.inl rfl), newParams_of_ne M _ (by decide)]
      exact ⟨rfl, fun he => absurd he (by decide), rfl⟩
  | rr =>
      rw [hrt (Or.inr rfl), newParams_of_ne M _ (by decide)]
      exact ⟨rfl, fun he => absurd he (by decide), rfl⟩
  | short =>
      have hu : u = Sys.newParams M { t with array := none } .short lp := by
        refine Sys.bonusOf_of_class M j _ (Or.inr ?_)
        rw [newParams_short]
      rw [hu, newParams_short, shortParams_eq]
      refine ⟨rfl, fun _ => ?_, rfl⟩
      by_cases hs : t.policy = .short
      · simp [hs, (hshort hs).2]
      · simp [hs]
  | other =>
      have hne : t.policy ≠ .short := fun hs => absurd (hshort hs).1 (by decide)
      have hu : u = bonusOf M j (Sys.newParams M { t with array := none } .other lp) := rfl
      rw [newParams_of_ne M _ (by decide)] at hu
      refine ⟨by rw [hu, Sys.bonusOf_policy], fun he => absurd he (by decide), ?_⟩
      rw [hu]
      exact bonusOf_prio_congr M j (by simp) rfl rfl rfl rfl

/-- **Place and priority of a queued task whose parameters change.** -/
lemma applyParams_granted (M : Arch) (lp : SchedParam) {a : ArrayId} (hp : s.IsTask p)
    (ha : (s.task p).array = some a) (hpc : p ≠ s.curr)
    (hshort : (s.task p).policy = .short → pol = .short ∧ (s.task p).isShort = 1) :
    let s' := s.applyParams M p pol lp
    s'.rankPlace p = pol.place ∧ (s'.task p).prio = grantedPrio M s.jiffies (s.task p) pol lp
      ∧ s'.rankPlace s.curr = s.rankPlace s.curr := by
  intro s'
  obtain ⟨⟨-, hidle, hact⟩, hself, hcurr⟩ := applyParams_queued M pol lp ha hpc
  obtain ⟨hpol, h1, hprio⟩ := newParams_granted (M := M) (t := s.task p) s.jiffies lp hshort
  set u := Sys.newParams M { s.task p with array := none } pol lp with hu
  have hself' : s'.task p = { bonusOf M s.jiffies u with array := some (homeOf s.active u) } := hself
  have hup : u.policy = pol := by rw [← hpol, Sys.bonusOf_policy]
  have hu1 : pol = .short → u.isShort = 1 := fun he => by
    rw [← h1 he, Sys.bonusOf_isShort]
  refine ⟨?_, by rw [hself', hprio], Sys.rankPlace_congr hidle hact ?_ ?_ ?_⟩
  · rw [Sys.rankPlace, show s'.idle = s.idle from hidle, if_neg hp.2, Sys.rankOf, hself']
    dsimp only
    rw [hpol, show s'.active = s.active from hact, homeOf, hup]
    cases pol with
    | short => simp [hu1 rfl, Policy.place, Rank.place]
    | other => simp [Policy.place, Rank.place]
    | _ => rfl
  all_goals rw [hcurr]

end

/-! ### The call -/

/-- If the task that gets new parameters then leads the running one, a reschedule is due. -/
def SetPreempts (M : Arch) (s : Sys) (pid policy : ℤ) (lp : SchedParam) (p : Tid) : Prop :=
  let s' := (s.setscheduler M pid policy (.readable lp)).1
  s'.Leads p s'.curr → (s'.task s'.curr).needResched = true

/-- No reschedule is due yet, and one of the calls that ask for none:
* `p` gets a real-time priority better than the priority of the running task;
* `p` stays a regular SHORT task, and the running one is OTHER or overdue, or regular SHORT of a
  worse priority;
* `p` becomes or stays OTHER, and the running one is overdue, or OTHER of a worse priority or
  outside the active array. -/
def Unannounced (M : Arch) (s : Sys) (p : Tid) (policy : ℤ) (lp : SchedParam) : Prop :=
  let c := s.task s.curr
  c.needResched = false ∧ match requestedPolicy (s.task p) policy with
    | some .fifo => maxUserRtPrio - 1 - lp.schedPriority.toNat < c.prio
    | some .rr => maxUserRtPrio - 1 - lp.schedPriority.toNat < c.prio
    | some .short => (s.task p).policy = .short
        ∧ (c.policy = .other ∨ c.IsOverdue ∨ c.IsRegular ∧ (s.task p).staticPrio < c.prio)
    | some .other => c.IsOverdue ∨ c.policy = .other
        ∧ (c.array ≠ some s.active ∨ grantedPrio M s.jiffies (s.task p) .other lp < c.prio)
    | none => False

instance (M : Arch) (s : Sys) (p : Tid) (policy : ℤ) (lp : SchedParam) :
    Decidable (Unannounced M s p policy lp) := by
  unfold Unannounced
  split <;> infer_instance

section

variable {M : Arch} {s : Sys} {p : Tid} {pid policy : ℤ} {pol : Policy} {lp : SchedParam}

/-- A call that succeeds makes the change. -/
lemma setscheduler_changed (hf : Found s pid p)
    (hok : (s.setscheduler M pid policy (.readable lp)).2 = none) : ∃ pol sp,
      requestedPolicy (s.task p) policy = some pol ∧ ¬ s.BadShort (s.task p) pol
        ∧ (s.setscheduler M pid policy (.readable lp)).1
          = ({ s with superpriv := sp } : Sys).applyParams M p pol lp := by
  rw [setscheduler_found hf] at hok ⊢
  cases hpol : requestedPolicy (s.task p) policy with
  | none => simp [hpol] at hok
  | some pol =>
      rw [hpol] at hok
      dsimp only at hok ⊢
      have hout := s.setschedulerTask_outcome M p pol lp
      generalize s.setschedulerTask M p pol lp = x at hok hout ⊢
      cases hout with
      | refused sp e => simp at hok
      | changed sp hacc => exact ⟨pol, sp, rfl, hacc.short, rfl⟩

/-- A call is missed when the task then leads the running one and does not turn SHORT. -/
lemma setPreempts_iff_place {sp : Tid → Bool} {a : ArrayId} (hp : s.IsTask p)
    (ha : (s.task p).array = some a) (hpc : p ≠ s.curr)
    (hshort : (s.task p).policy = .short → pol = .short ∧ (s.task p).isShort = 1)
    (hs' : (s.setscheduler M pid policy (.readable lp)).1
      = ({ s with superpriv := sp } : Sys).applyParams M p pol lp) :
    SetPreempts M s pid policy lp p ↔ ¬ ((s.task s.curr).needResched = false
      ∧ (pol = .short → (s.task p).policy = .short)
      ∧ (pol.place < s.rankPlace s.curr ∨ pol.place = s.rankPlace s.curr
        ∧ grantedPrio M s.jiffies (s.task p) pol lp < (s.task s.curr).prio)) := by
  obtain ⟨⟨hcurr, -, -⟩, -, hc⟩ :=
    applyParams_queued (s := { s with superpriv := sp }) M pol lp ha hpc
  obtain ⟨hplace, hprio, hplace'⟩ :=
    applyParams_granted (s := { s with superpriv := sp }) M lp hp ha hpc hshort
  simp only [SetPreempts, Sys.Leads]
  rw [hs', hcurr]
  dsimp only at hplace hprio hplace' hc ⊢
  rw [hplace, hprio, hc]
  have hsame : ({ s with superpriv := sp } : Sys).rankPlace s.curr = s.rankPlace s.curr := rfl
  rw [hplace', hsame]
  simp only [Bool.or_eq_true, decide_eq_true_eq]
  constructor
  · rintro himp ⟨hno, hstay, hlead⟩
    rcases himp hlead with hyes | ⟨hpol, hne⟩
    · exact Bool.false_ne_true (hno.symm.trans hyes)
    · exact hne (hstay hpol)
  · intro hno hlead
    by_contra hnone
    rw [not_or, Bool.not_eq_true, not_and, not_not] at hnone
    exact hno ⟨hnone.1, hnone.2, hlead⟩

/-- A real-time priority leads the running task exactly when it is better than its priority. -/
lemma RqInv.realTime_leads (h : RqInv s) (hk : s.Known s.curr) {k : ℕ} (hlt : k < maxRtPrio) :
    (0 < s.rankPlace s.curr ∨ 0 = s.rankPlace s.curr ∧ k < (s.task s.curr).prio)
      ↔ k < (s.task s.curr).prio := by
  by_cases hrt : (s.task s.curr).IsRt
  · have hc : s.curr ≠ s.idle := fun hi => by
      rw [hi, Task.IsRt, h.idle.prio] at hrt
      exact absurd hrt (by decide)
    have h0 : s.rankPlace s.curr = 0 := by
      rw [Sys.rankPlace, if_neg hc, Sys.rankOf]
      rcases (h.tasks _ (hk.resolve_right hc)).isRt_iff.mp hrt with hp | hp <;> rw [hp] <;> rfl
    simp [h0]
  · have hle : maxRtPrio ≤ (s.task s.curr).prio := not_lt.mp hrt
    refine iff_of_true (Or.inl ?_) (lt_of_lt_of_le hlt hle)
    rcases h.rankPlace_cases hk with ⟨-, hp⟩ | hc
    · by_cases hi : s.curr = s.idle
      · simp [Sys.rankPlace, hi]
      · exact absurd ((h.tasks _ (hk.resolve_right hi)).isRt_iff.mpr hp) hrt
    · omega

/-- **When a change of parameters preempts as `schedule` would choose**: unless the call is
unannounced. -/
theorem setPreempts_iff {ops : List Op} (hrun : run (Sys.exec M) ops (Sys.booted M) = some s)
    (hin : s.InProcess) (hf : Found s pid p) (hp : (s.task p).array ≠ none) (hpc : p ≠ s.curr)
    (hok : (s.setscheduler M pid policy (.readable lp)).2 = none) :
    SetPreempts M s pid policy lp p ↔ ¬ Unannounced M s p policy lp := by
  have h := reach_inv hrun
  have hpt := h.queued p hp
  obtain ⟨a, ha⟩ := Option.ne_none_iff_exists'.mp hp
  obtain ⟨pol, sp, hpol, hbad, hs'⟩ := setscheduler_changed hf hok
  have hshort := regular_of_not_badShort (h.tasks p hpt) hbad
  rw [setPreempts_iff_place hpt ha hpc hshort hs', Unannounced, hpol]
  refine not_congr (and_congr_right fun _ => ?_)
  -- the rest is a comparison of the new class with that of the running task
  have hcases := h.toRqInv.rankPlace_cases h.known_curr
  have hrt : maxUserRtPrio - 1 - lp.schedPriority.toNat < maxRtPrio := by
    simp only [maxUserRtPrio, maxRtPrio]
    omega
  cases pol with
  | fifo =>
      rw [← h.toRqInv.realTime_leads h.known_curr hrt]
      exact and_iff_right fun he => absurd he (by decide)
  | rr =>
      rw [← h.toRqInv.realTime_leads h.known_curr hrt]
      exact and_iff_right fun he => absurd he (by decide)
  | short =>
      refine and_congr ⟨fun hstay => hstay rfl, fun hstay _ => hstay⟩ ?_
      rcases hcases with
        ⟨hc, hq | hq⟩ | ⟨hc, hq, h1⟩ | ⟨hc, -, hq, -⟩ | ⟨hc, -, hq, -⟩ | ⟨hc, hq, h1⟩ | ⟨-, hi⟩
      case inr.inr.inr.inr.inr => exact absurd hi hin.1
      all_goals simp [Policy.place, grantedPrio, Task.IsOverdue, Task.IsRegular, *]
  | other =>
      refine (and_iff_right fun he => absurd he (by decide)).trans ?_
      rcases hcases with
        ⟨hc, hq | hq⟩ | ⟨hc, hq, h1⟩ | ⟨hc, -, hq, ha'⟩ | ⟨hc, -, hq, ha'⟩ | ⟨hc, hq, h1⟩ | ⟨-, hi⟩
      case inr.inr.inr.inr.inr => exact absurd hi hin.1
      all_goals simp [Policy.place, Task.IsOverdue, *]

end

/-- The running process makes the other one SHORT. -/
theorem setPreempts_twoProcessesRun : ∃ s,
    run (Sys.exec .hz100) twoProcessesRun (Sys.booted .hz100) = some s
      ∧ SetPreempts .hz100 s 2 5 ⟨0, 100⟩ 2 := by
  have hrun : ((run (Sys.exec .hz100) twoProcessesRun (Sys.booted .hz100)).any fun s =>
      decide (s.InProcess ∧ s.findProcessByPid 2 = some 2 ∧ (s.task 2).array ≠ none ∧ 2 ≠ s.curr
        ∧ (s.setscheduler .hz100 2 5 (.readable ⟨0, 100⟩)).2 = none
        ∧ ¬ Unannounced .hz100 s 2 5 ⟨0, 100⟩)) = true := by
    decide +kernel
  obtain ⟨s, hs, hall⟩ := (Option.any_eq_true _ _).mp hrun
  obtain ⟨hin, hfind, hq, hc, hok, hno⟩ := of_decide_eq_true hall
  exact ⟨s, hs, (setPreempts_iff hs hin ⟨by decide, hfind⟩ hq hc hok).mpr hno⟩

/-- The running process makes the other one real-time, and keeps the processor. -/
theorem not_setPreempts : ¬ ∀ (M : Arch) (ops : List Op) (s : Sys) (pid policy : ℤ)
    (lp : SchedParam) (p : Tid), run (Sys.exec M) ops (Sys.booted M) = some s → s.InProcess →
      Found s pid p → (s.task p).array ≠ none → p ≠ s.curr →
      (s.setscheduler M pid policy (.readable lp)).2 = none → SetPreempts M s pid policy lp p := by
  intro hall
  have hrun : ((run (Sys.exec .hz100) twoProcessesRun (Sys.booted .hz100)).any fun s =>
      let s' := (s.setscheduler .hz100 2 1 (.readable ⟨50, 0⟩)).1
      decide (s.InProcess ∧ s.findProcessByPid 2 = some 2 ∧ (s.task 2).array ≠ none ∧ 2 ≠ s.curr
        ∧ (s.setscheduler .hz100 2 1 (.readable ⟨50, 0⟩)).2 = none
        ∧ s'.Leads 2 s'.curr ∧ (s'.task s'.curr).needResched = false)) = true := by
    decide +kernel
  obtain ⟨s, hs, hbad⟩ := (Option.any_eq_true _ _).mp hrun
  obtain ⟨hin, hfind, hq, hc, hok, hlead, hno⟩ := of_decide_eq_true hbad
  have := hall .hz100 twoProcessesRun s 2 1 ⟨50, 0⟩ 2 hs hin ⟨by decide, hfind⟩ hq hc hok hlead
  exact Bool.false_ne_true (hno.symm.trans this)

end Os234123.Sched
