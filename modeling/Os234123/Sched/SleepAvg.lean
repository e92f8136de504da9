import Os234123.Sched.Durable

/-!
The sleep average of a task and what it does to its priority.

* `reach_avgOk`: the sleep average stays within `MAX_SLEEP_AVG`;
* `Task.effectivePrio_near`: the bonus of `effective_prio` is five at most, either way;
* `NearNice`: an ordinary task is no further from its static priority;
* `reach_nearNice`: so it is in every state reached without a yield of an ordinary task;
* `keepsCpu_of_run`: a task that is nicer by ten or more does not preempt another when it wakes up.
-/

namespace Os234123.Sched

open Machine

/-! ### The sleep average -/

/-- Every sleep average is at most `MAX_SLEEP_AVG`. -/
def AvgOk (M : Arch) (s : Sys) : Prop := Each (fun t => t.sleepAvg ≤ M.maxSleepAvg) s

lemma newParams_sleepAvg (M : Arch) (t : Task) (pol : Policy) (lp : SchedParam) :
    (Sys.newParams M t pol lp).sleepAvg = t.sleepAvg := by
  simp only [Sys.newParams, Sys.shortParams]
  split_ifs <;> rfl

lemma renice_sleepAvg (n : ℤ) (t : Task) : (Sys.renice n t).sleepAvg = t.sleepAvg := by
  simp only [Sys.renice]
  split_ifs <;> rfl

lemma durable_avg (M : Arch) : Durable M fun t => t.sleepAvg ≤ M.maxSleepAvg where
  congr := fun h hs => hs.sleepAvg.trans_le h
  le := id
  avg := fun hn _ => hn
  effective := id
  short := fun _ h => h
  other := id
  nice := fun {t n} _ h => by
    split_ifs
    · exact h
    · exact (renice_sleepAvg n t).trans_le h
  params := fun {t pol lp} h => (newParams_sleepAvg M t pol lp).trans_le h

/-- **The sleep averages stay in range.** -/
theorem reach_avgOk {M : Arch} {ops : List Op} {s : Sys}
    (h : run (Sys.exec M) ops (Sys.booted M) = some s) : AvgOk M s :=
  each_of_run (durable_avg M) (Nat.zero_le _) (Nat.zero_le _) (Or.inl fun _ _ ht => ht) h

/-! ### The bonus -/

/-- The most the bonus moves a priority. -/
def maxBonus : ℕ := maxUserPrio * prioBonusRatio / 100 / 2

/-- **The bonus is five at most**, either way. -/
lemma Task.effectivePrio_near (M : Arch) {t : Task} (h : t.sleepAvg ≤ M.maxSleepAvg)
    (hst : maxRtPrio ≤ t.staticPrio ∧ t.staticPrio < maxPrio) :
    t.staticPrio ≤ t.effectivePrio M + maxBonus ∧ t.effectivePrio M ≤ t.staticPrio + maxBonus := by
  have hscaled : maxUserPrio * prioBonusRatio * t.sleepAvg / M.maxSleepAvg
      ≤ maxUserPrio * prioBonusRatio := by
    refine Nat.div_le_of_le_mul ?_
    rw [Nat.mul_comm M.maxSleepAvg]
    exact Nat.mul_le_mul_left _ h
  have hbonus := Nat.div_le_div_right (c := 100) hscaled
  simp only [Task.effectivePrio]
  generalize maxUserPrio * prioBonusRatio * t.sleepAvg / M.maxSleepAvg / 100 = b at hbonus ⊢
  simp only [maxBonus, maxUserPrio, prioBonusRatio, maxRtPrio, maxPrio] at *
  split_ifs <;> omega

/-- An ordinary task is no more than the bonus away from its static priority. -/
structure NearNice (M : Arch) (t : Task) : Prop where
  avg : t.sleepAvg ≤ M.maxSleepAvg
  near : t.policy = .other → maxRtPrio ≤ t.staticPrio ∧ t.staticPrio < maxPrio → t.prio < maxPrio →
    t.staticPrio ≤ t.prio + maxBonus ∧ t.prio ≤ t.staticPrio + maxBonus

lemma durable_nearNice (M : Arch) : Durable M (NearNice M) where
  congr := fun {t t'} h hs => by
    refine ⟨hs.sleepAvg.trans_le h.avg, ?_⟩
    rw [hs.policy, hs.prio, hs.staticPrio]
    exact h.near
  le := NearNice.avg
  avg := fun hn h => ⟨hn, h.near⟩
  effective := fun h => ⟨h.avg, fun _ hst _ => Task.effectivePrio_near M h.avg hst⟩
  short := fun hp h => ⟨h.avg, fun ho => absurd (ho.symm.trans hp) (by decide)⟩
  other := fun h => ⟨h.avg, fun _ hst _ => Task.effectivePrio_near M h.avg hst⟩
  nice := fun {t n} hp h => by
    split_ifs with hrt
    · exact ⟨h.avg, fun ho => absurd hrt (hp.resolve_left (not_not.mpr ho))⟩
    · refine ⟨(renice_sleepAvg n t).trans_le h.avg, fun ho _ _ => ?_⟩
      have hnot : ¬ t.IsOverdue := fun hov => by
        simp only [Sys.renice] at ho
        split_ifs at ho <;> exact absurd (ho.symm.trans hov.1) (by decide)
      have hnot' : ¬ Task.IsOverdue { t with staticPrio := niceToPrio n } := hnot
      simp only [Sys.renice, if_pos hnot']
      omega
  params := fun {t pol lp} h => by
    refine ⟨(newParams_sleepAvg M t pol lp).trans_le h.avg, fun ho _ _ => ?_⟩
    by_cases hp : pol = .short
    · subst hp
      rw [newParams_short] at ho
      exact absurd (show Policy.short = .other from ho) (by decide)
    · rw [newParams_of_ne M t hp] at ho ⊢
      obtain rfl : pol = .other := ho
      dsimp only
      rw [if_pos rfl]
      omega

/-- **Ordinary tasks stay near their nice values**, in every state reached without a yield of one. -/
theorem reach_nearNice {M : Arch} {ops : List Op} {s : Sys}
    (hno : Along (Sys.exec M) NoYield ops (Sys.booted M))
    (h : run (Sys.exec M) ops (Sys.booted M) = some s) : Each (NearNice M) s :=
  each_of_run (durable_nearNice M)
    ⟨Nat.zero_le _, fun _ _ _ => ⟨Nat.le_add_right _ _, Nat.le_add_right _ _⟩⟩
    ⟨Nat.zero_le _, fun _ _ hlt => absurd hlt (lt_irrefl _)⟩ (Or.inr hno) h

section

variable {M : Arch} {s : Sys} {p q : Tid}

/-- A task on the way to its queue runs no better than another that is less nice by twice the bonus,
whatever bonus it gets. -/
lemma prio_le_of_nice {t u : Task} {active expired active' expired' : ArrayId} (ht : NearNice M t)
    (hu : NearNice M u) (htok : TaskOk active expired t) (huok : TaskOk active' expired' u)
    (hto : t.policy = .other) (huo : u.policy = .other) (hnice : u.nice + 2 * maxBonus ≤ t.nice)
    (j : ℕ) : u.prio ≤ (bonusOf M j t).prio := by
  have hb := (durable_nearNice M).bonusOf j ht
  have hlt : (bonusOf M j t).prio < maxPrio := by
    simp only [bonusOf]
    split_ifs
    · exact (Task.effectivePrio_bounds M _).2
    · exact (htok.usual (Or.inl hto)).2
  have h1 := hb.near (by rw [Sys.bonusOf_policy, hto]) (by rw [Sys.bonusOf_staticPrio]; exact htok.static) hlt
  have h2 := hu.near huo huok.static (huok.usual (Or.inl huo)).2
  rw [Sys.bonusOf_staticPrio] at h1
  simp only [Task.nice, prioToNice] at hnice
  omega

/-- **Nice tasks do not preempt**: in every state reached without a yield of an ordinary task, waking
an ordinary task does not ask for a reschedule of a running one that is less nice by ten or more, however
long the first has slept and the second has run.  So nice +19 interactive tasks do not preempt nice 0
CPU hogs, nor nice 0 tasks those of nice -20. -/
theorem keepsCpu_of_run {ops : List Op} (hno : Along (Sys.exec M) NoYield ops (Sys.booted M))
    (h : run (Sys.exec M) ops (Sys.booted M) = some s) (hp : s.IsTask p) (hc : s.curr ≠ s.idle)
    (hpo : (s.task p).policy = .other) (hco : (s.task s.curr).policy = .other)
    (hnice : (s.task s.curr).nice + 10 ≤ (s.task p).nice) :
    ((s.tryToWakeUp M p).task s.curr).needResched = (s.task s.curr).needResched := by
  have hi := reach_inv h
  have hn := reach_nearNice hno h
  have hcp : s.curr ≠ p := fun he => by
    rw [he] at hnice
    omega
  have hbonus : 2 * (maxBonus : ℤ) = 10 := by decide
  have hprio : (s.task s.curr).prio ≤ (bonusOf M s.jiffies (s.task p)).prio :=
    prio_le_of_nice (hn p) (hn s.curr) (hi.tasks p hp)
      (hi.tasks _ (hi.queued _ (hi.curr hc))) hpo hco (by rw [hbonus]; exact hnice) s.jiffies
  -- the comparison comes when the task has its bonus and is queued
  have hact : ∀ n, (({ s with nrUninterruptible := n } : Sys).activateTask M p).task s.curr
      = s.task s.curr := fun n => by
    rw [Sys.activateTask_task, Function.update_of_ne hcp]
  have hnot : ∀ n, ¬ ((({ s with nrUninterruptible := n } : Sys).activateTask M p).task p).prio
      < ((({ s with nrUninterruptible := n } : Sys).activateTask M p).task
        (({ s with nrUninterruptible := n } : Sys).activateTask M p).curr).prio := fun n => by
    rw [Sys.activateTask_curr, hact n, Sys.activateTask_task, Function.update_self]
    exact not_lt.mpr hprio
  have hstate : ∀ s₁ : Sys, (s₁.modTask p fun t => { t with state := .running }).task s.curr
      = s₁.task s.curr := fun s₁ => Sys.modTask_task_of_ne s₁ p _ hcp
  simp only [Sys.tryToWakeUp]
  cases ha : (s.task p).array with
  | some a => rw [hstate]
  | none =>
      dsimp only
      split_ifs with hu hlt hlt
      · exact absurd hlt (hnot _)
      · rw [hstate, hact]
      · exact absurd hlt (hnot s.nrUninterruptible)
      · rw [hstate]
        exact congrArg Task.needResched (hact s.nrUninterruptible)

end

/-- A task of nice 19 sleeps for ten jiffies while one of nice 0 runs. -/
def niceSleeperRun : List Op :=
  [.fork ⟨false, false⟩ 1, .schedule, .fork ⟨false, false⟩ 2, .setState .interruptible, .schedule,
    .setState .interruptible, .schedule, .wake 1, .schedule, .nice 2 19] ++ List.replicate 10 .elapse

/-- When it wakes up, the other one goes on. -/
theorem keepsCpu_niceSleeperRun : ∃ s,
    run (Sys.exec .hz100) niceSleeperRun (Sys.booted .hz100) = some s ∧ (s.task 2).array = none
      ∧ ((s.tryToWakeUp .hz100 2).task s.curr).needResched = (s.task s.curr).needResched := by
  have hrun : ((run (Sys.exec .hz100) niceSleeperRun (Sys.booted .hz100)).any fun s =>
      decide ((s.task 2).array = none ∧ s.IsTask 2 ∧ s.curr ≠ s.idle ∧ (s.task 2).policy = .other
        ∧ (s.task s.curr).policy = .other ∧ (s.task s.curr).nice + 10 ≤ (s.task 2).nice)) = true := by
    decide +kernel
  obtain ⟨s, hs, hdec⟩ := (Option.any_eq_true _ _).mp hrun
  obtain ⟨ha, hp, hc, hpo, hco, hnice⟩ := of_decide_eq_true hdec
  exact ⟨s, hs, ha, keepsCpu_of_run (by decide +kernel) hs hp hc hpo hco hnice⟩

end Os234123.Sched
