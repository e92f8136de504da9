import Os234123.Sched.Boot

/-!
Properties of records about the priority and the sleep average that the scheduler keeps.

* `Durable`: what a property has to survive, one write of the scheduler after the other;
* `Each`: every record has the property;
* `Each.exec`: every operation keeps it so, yields of ordinary tasks apart;
* `each_of_run`: so it is along a run.
-/

namespace Os234123.Sched

open Machine

/-- Two records that agree in what the effective priority is computed from, and in the priority. -/
structure SamePrio (t t' : Task) : Prop where
  policy : t'.policy = t.policy
  prio : t'.prio = t.prio
  staticPrio : t'.staticPrio = t.staticPrio
  sleepAvg : t'.sleepAvg = t.sleepAvg

/-- The property survives what the scheduler writes into a record. -/
structure Durable (M : Arch) (P : Task → Prop) : Prop where
  congr : ∀ {t t'}, P t → SamePrio t t' → P t'
  le : ∀ {t}, P t → t.sleepAvg ≤ M.maxSleepAvg
  avg : ∀ {t n}, n ≤ M.maxSleepAvg → P t → P { t with sleepAvg := n }
  effective : ∀ {t}, P t → P { t with prio := t.effectivePrio M }
  short : ∀ {t k}, t.policy = .short → P t → P { t with prio := k }
  other : ∀ {t}, P t → P { t with policy := .other, prio := t.effectivePrio M }
  nice : ∀ {t n}, t.policy ≠ .other ∨ ¬ t.IsRt → P t → P (if t.IsRt
    then { t with staticPrio := niceToPrio n } else Sys.renice n t)
  params : ∀ {t pol lp}, P t → P (Sys.newParams M t pol lp)

/-- Every record has the property. -/
def Each (P : Task → Prop) (s : Sys) : Prop := ∀ p, P (s.task p)

/-- The running task does not yield as an ordinary task. -/
def NoYield (s : Sys) : Op → Prop
  | .yield => (s.task s.curr).policy ≠ .other
  | _ => True

instance (s : Sys) (o : Op) : Decidable (NoYield s o) := by
  unfold NoYield
  induction o using Op.casesOn <;> infer_instance

namespace Durable

variable {M : Arch} {P : Task → Prop} {t t' : Task}

/-- The bonus of a task that has slept. -/
lemma bonusOf (hd : Durable M P) (j : ℕ) (h : P t) : P (bonusOf M j t) := by
  simp only [Sched.bonusOf]
  split_ifs
  · exact hd.effective (hd.avg (min_le_right _ _) h)
  · exact h

/-- The end of the slice of an ordinary task. -/
lemma refillOther (hd : Durable M P) (a : Option ArrayId) (h : P t) :
    P { Sys.refillOther M t with array := a } :=
  hd.congr (hd.effective h) ⟨rfl, rfl, rfl, rfl⟩

lemma turnOverdue (hd : Durable M P) (a : Option ArrayId) (hp : t.policy = .short) (h : P t) :
    P { Sys.turnOverdue M t with array := a } :=
  hd.congr (hd.short (k := maxPrio - 1) hp h) ⟨rfl, rfl, rfl, rfl⟩

lemma turnOther (hd : Durable M P) (a : Option ArrayId) (h : P t) :
    P { Sys.turnOther M t with array := a } :=
  hd.congr (hd.other h) ⟨rfl, rfl, rfl, rfl⟩

lemma halve (hd : Durable M P) (h : P t) : P (Sys.halve t) := by
  simp only [Sys.halve]
  split_ifs
  · exact h
  · exact hd.congr h ⟨rfl, rfl, rfl, rfl⟩

/-- A new child. -/
lemma inherit (hd : Durable M P) (j : ℕ) (h : P t) : P (Sys.inherit t (Sys.childOf t) j) := by
  simp only [Sys.inherit]
  split_ifs <;> exact hd.congr h ⟨rfl, rfl, rfl, rfl⟩

end Durable

namespace Each

variable {M : Arch} {P : Task → Prop} {s s' : Sys} {p : Tid}

lemma of_task (h : Each P s) (ht : s'.task = s.task) : Each P s' := fun p => ht ▸ h p

lemma update (h : Each P s) {t : Task} (ht : s'.task = Function.update s.task p t) (hp : P t) :
    Each P s' := by
  intro q
  rw [ht]
  by_cases hq : q = p
  · rw [hq, Function.update_self]
    exact hp
  · rw [Function.update_of_ne hq]
    exact h q

lemma modTask (h : Each P s) {f : Task → Task} (hf : P (f (s.task p))) : Each P (s.modTask p f) :=
  h.update rfl hf

/-- A write to the fields the property does not read. -/
lemma modOther (hd : Durable M P) (h : Each P s) {f : Task → Task}
    (hf : SamePrio (s.task p) (f (s.task p))) : Each P (s.modTask p f) :=
  h.modTask (hd.congr (h p) hf)

lemma dequeue (h : Each P s) {a : ArrayId} : Each P (s.dequeueTask p a) := h.of_task (by simp)

lemma enqueueAs (hd : Durable M P) (h : Each P s) {a : ArrayId} {l : List Tid} :
    Each P (s.enqueueAs p a l) :=
  h.update (Sys.enqueueAs_task s p a l) (hd.congr (h p) ⟨rfl, rfl, rfl, rfl⟩)

lemma activate (hd : Durable M P) (h : Each P s) : Each P (s.activateTask M p) :=
  h.update (Sys.activateTask_task M s p)
    (hd.congr (hd.bonusOf s.jiffies (h p)) ⟨rfl, rfl, rfl, rfl⟩)

lemma deactivate (hd : Durable M P) (h : Each P s) : Each P (s.deactivateTask p) :=
  h.update (Sys.deactivateTask_task s p) (hd.congr (h p) ⟨rfl, rfl, rfl, rfl⟩)

lemma resched (hd : Durable M P) (h : Each P s) : Each P (s.reschedTask p) :=
  modOther hd h ⟨rfl, rfl, rfl, rfl⟩

lemma tryToWakeUp (hd : Durable M P) (h : Each P s) : Each P (s.tryToWakeUp M p) := by
  have hend : ∀ {s₁ : Sys}, Each P s₁ → Each P (s₁.modTask p fun t => { t with state := .running }) :=
    fun h₁ => modOther hd h₁ ⟨rfl, rfl, rfl, rfl⟩
  simp only [Sys.tryToWakeUp]
  cases ha : (s.task p).array with
  | some a => exact hend h
  | none =>
      have hoff : ∀ n, Each P (({ s with nrUninterruptible := n } : Sys).activateTask M p) :=
        fun n => activate hd (s := { s with nrUninterruptible := n }) h
      dsimp only
      split_ifs
      · exact hend (resched hd (hoff _))
      · exact hend (hoff _)
      · exact hend (resched hd (hoff s.nrUninterruptible))
      · exact hend (hoff s.nrUninterruptible)

/-! ### The tick -/

lemma tickRt (hd : Durable M P) (h : Each P s) : Each P (s.tickRt M p) := by
  simp only [Sys.tickRt]
  have h₁ : Each P (s.modTask p fun t => { t with timeSlice := usub t.timeSlice 1 }) :=
    modOther hd h ⟨rfl, rfl, rfl, rfl⟩
  split_ifs
  · exact enqueueAs hd (dequeue (modOther hd h₁ (f := Sys.refillRr M) ⟨rfl, rfl, rfl, rfl⟩))
  · exact h₁
  · exact h

lemma tickSlice (hd : Durable M P) (h : Each P s) : Each P (s.tickSlice M p) := by
  have h₁ : Each P (s.modTask p fun t =>
      { t with sleepAvg := t.sleepAvg - 1, timeSlice := usub t.timeSlice 1 }) := by
    have havg := hd.avg ((Nat.sub_le _ 1).trans (hd.le (h p))) (h p)
    exact h.modTask (hd.congr havg ⟨rfl, rfl, rfl, rfl⟩)
  simp only [Sys.tickSlice]
  split_ifs with h0 hp
  · obtain ⟨b, -, hb⟩ := Sys.expireOther_task (M := M) (p := p)
      (s := s.modTask p fun t =>
        { t with sleepAvg := t.sleepAvg - 1, timeSlice := usub t.timeSlice 1 })
    exact h₁.update hb (hd.refillOther _ (h₁ p))
  · refine h₁.update Sys.expireShort_task ?_
    split_ifs
    · exact hd.turnOverdue _ (not_not.mp hp) (h₁ p)
    · exact hd.turnOther _ (h₁ p)
  · exact h₁

lemma schedulerTick (hd : Durable M P) (h : Each P s) : Each P (s.schedulerTick M) := by
  simp only [Sys.schedulerTick]
  split_ifs
  · exact h
  · exact tickRt hd h
  · exact tickSlice hd h
  · exact resched hd h

/-! ### Choosing -/

lemma schedule (hd : Durable M P) (h : Each P s) (hs : s.schedule M = some s') : Each P s' := by
  have hprev : Each P s.schedulePrev := by
    have h₁ : Each P (s.modTask s.curr fun t => { t with sleepTimestamp := s.jiffies }) :=
      modOther hd h ⟨rfl, rfl, rfl, rfl⟩
    rcases schedulePrev_cases s with ⟨heq, -⟩ | heq | ⟨heq, -⟩ <;> rw [heq]
    · exact h₁
    · exact modOther hd h₁ ⟨rfl, rfl, rfl, rfl⟩
    · exact deactivate hd h₁
  obtain ⟨next, -, rfl⟩ := Option.map_eq_some_iff.mp hs
  have hpick : Each P (s.schedulePrev.pickNext M).1 := by
    simp only [Sys.pickNext]
    split_ifs
    · exact hprev.of_task rfl
    · exact hprev.of_task (RqInv.switchArrays_task _)
  simp only [Sys.switchTo]
  have hflag : Each P ((s.schedulePrev.pickNext M).1.modTask (s.schedulePrev.pickNext M).1.curr
      fun t => { t with needResched := false }) := modOther hd hpick ⟨rfl, rfl, rfl, rfl⟩
  split_ifs
  · exact hflag
  · exact hflag.of_task rfl

/-! ### Parameters -/

lemma setUserNice (hd : Durable M P) (h : Each P s) {n : ℤ}
    (hp : (s.task p).policy ≠ .other ∨ ¬ (s.task p).IsRt) : Each P (s.setUserNice p n) := by
  have hren : ∀ {s₁ : Sys}, ¬ (s₁.task p).IsRt → Each P s₁ →
      Each P (s₁.modTask p (Sys.renice n)) := fun hrt h₁ => by
    have := hd.nice (n := n) (Or.inr hrt) (h₁ p)
    rw [if_neg hrt] at this
    exact h₁.modTask this
  simp only [Sys.setUserNice]
  split_ifs with hsame hrt
  · exact h
  · have := hd.nice (n := n) hp (h p)
    rw [if_pos hrt] at this
    exact h.modTask this
  · cases ha : (s.task p).array with
    | none => exact hren hrt h
    | some a =>
        have hq : Each P (((s.dequeueTask p a).modTask p (Sys.renice n)).enqueueTask p a) :=
          enqueueAs hd (hren (by simpa using hrt) h.dequeue)
        dsimp only
        split_ifs
        · exact resched hd hq
        · exact hq

lemma applyParams (hd : Durable M P) (h : Each P s) {pol : Policy} {lp : SchedParam} :
    Each P (s.applyParams M p pol lp) := by
  have hch : ∀ {s₁ : Sys}, Each P s₁ → Each P (s₁.changeParams M p pol lp) := fun {s₁} h₁ => by
    simp only [Sys.changeParams]
    split_ifs
    · exact (resched hd h₁).modTask (hd.params (resched hd h₁ p))
    · exact h₁.modTask (hd.params (h₁ p))
  simp only [Sys.applyParams]
  cases (s.task p).array with
  | none => exact hch h
  | some a => exact activate hd (hch (deactivate hd h))

lemma setscheduler (hd : Durable M P) (h : Each P s) (pid policy : ℤ) (param : ParamPtr) :
    Each P (s.setscheduler M pid policy param).1 := by
  rcases s.setscheduler_outcome M pid policy param with
    ⟨sp, e, heq⟩ | ⟨p, pol, lp, -, -, rfl, hout⟩
  · rw [heq]
    exact h.of_task rfl
  · generalize s.setscheduler M pid policy (.readable lp) = x at hout
    cases hout with
    | refused sp e => exact h.of_task rfl
    | changed sp hacc =>
        have hsp : Each P { s with superpriv := sp } := h.of_task rfl
        exact applyParams hd hsp

/-! ### Yielding -/

lemma yieldQueue (hd : Durable M P) (h : Each P s)
    (hy : (∀ t k, P t → P { t with prio := k }) ∨ (s.task s.curr).policy = .short
      ∨ (s.task s.curr).IsRt) : Each P (s.yieldQueue M) := by
  simp only [Sys.yieldQueue]
  by_cases hp : (s.task s.curr).policy = .short
  · rw [if_pos hp]
    exact activate hd (deactivate hd h)
  rw [if_neg hp]
  cases (s.task s.curr).array with
  | none => exact h
  | some a =>
      dsimp only
      split_ifs with hrt
      · exact h.of_task rfl
      · exact h.of_task rfl
      · have hany := hy.resolve_right fun hc => hc.elim hp hrt
        exact h.modTask (p := s.curr) (f := fun t =>
          { t with prio := Sys.yieldPrio M _ (s.task s.curr).prio }) (hany _ _ (h s.curr))

/-! ### Forking, exit and reaping -/

lemma cutSleepAvg (hd : Durable M P) (h : Each P s) : Each P (s.cutSleepAvg M p) := by
  have hcut : ∀ {t k}, k ≤ 100 → P t → P { t with sleepAvg := t.sleepAvg * k / 100 } := by
    intro t k hk ht
    refine hd.avg ?_ ht
    calc t.sleepAvg * k / 100
        ≤ t.sleepAvg * 100 / 100 := Nat.div_le_div_right (Nat.mul_le_mul_left _ hk)
      _ = t.sleepAvg := Nat.mul_div_cancel _ (by decide)
      _ ≤ M.maxSleepAvg := hd.le ht
  simp only [Sys.cutSleepAvg]
  set s₁ := s.modTask p fun t => { t with state := .running } with hs₁
  have h₁ : Each P s₁ := modOther hd h ⟨rfl, rfl, rfl, rfl⟩
  set s₂ := s₁.modTask s₁.curr fun t => { t with sleepAvg := t.sleepAvg * parentPenalty / 100 }
  have h₂ : Each P s₂ := h₁.modTask (hcut le_rfl (h₁ _))
  set s₃ := s₂.modTask p fun t => { t with sleepAvg := t.sleepAvg * childPenalty / 100 }
  have h₃ : Each P s₃ := h₂.modTask (hcut (by decide) (h₂ p))
  split_ifs
  · exact h₁
  · exact h₃.modTask (f := fun t => { t with prio := t.effectivePrio M }) (hd.effective (h₃ p))
  · exact h₃

lemma queueShortChild (hd : Durable M P) (h : Each P s) {f : Tid} :
    Each P (s.queueShortChild M f p) := by
  have hq : Each P (s.enqueueFirst p .shortActive) := enqueueAs hd h
  have hn : Each P { s.enqueueFirst p .shortActive with
      nrRunning := (s.enqueueFirst p .shortActive).nrRunning + 1 } := hq
  exact activate hd (deactivate hd hn)

lemma forkShare (hd : Durable M P) (h : Each P s) {c : Tid} (hc : c ≠ s.curr) {s₁ : Sys}
    (hs : (s.forkCopy c).forkShare M c = some s₁) : Each P s₁ := by
  have hcopy : Each P (s.forkCopy c) := h.modTask (hd.congr (h s.curr) ⟨rfl, rfl, rfl, rfl⟩)
  have hin : Each P ((s.forkCopy c).modTask c fun t =>
      Sys.inherit ((s.forkCopy c).task (s.forkCopy c).curr) t (s.forkCopy c).jiffies) := by
    refine hcopy.modTask ?_
    have hself : (s.forkCopy c).task c = Sys.childOf (s.task s.curr) :=
      Sys.modTask_task_self s c _
    have hcurr : (s.forkCopy c).task (s.forkCopy c).curr = s.task s.curr :=
      Sys.modTask_task_of_ne _ _ _ hc.symm
    rw [hself, hcurr]
    exact hd.inherit _ (h s.curr)
  have hhalf : Each P (((s.forkCopy c).modTask c fun t =>
      Sys.inherit ((s.forkCopy c).task (s.forkCopy c).curr) t (s.forkCopy c).jiffies).modTask
        (s.forkCopy c).curr Sys.halve) := hin.modTask (hd.halve (hin _))
  simp only [Sys.forkShare] at hs
  split_ifs at hs with h0 hone
  · obtain rfl := Option.some.inj hs
    exact schedulerTick hd (modOther hd hhalf ⟨rfl, rfl, rfl, rfl⟩)
  · obtain rfl := Option.some.inj hs
    exact hhalf

lemma doFork (hd : Durable M P) (h : Each P s) {flags : ForkFlags} {c : Tid} (hc : c ≠ s.curr)
    (hs : s.doFork M flags c = some s') : Each P s' := by
  obtain ⟨s₁, hshare, rfl⟩ := Option.map_eq_some_iff.mp hs
  have h₁ := forkShare hd h hc hshare
  simp only [Sys.forkWake]
  have hlink : Each P (s₁.linkChild flags c) :=
    h₁.update (t := { s₁.task c with
      pOpptr := if flags.cloneParent then (s₁.task s₁.curr).pOpptr else s₁.curr
      pPptr := if flags.cloneParent then (s₁.task s₁.curr).pPptr else s₁.curr }) rfl
      (hd.congr (h₁ c) ⟨rfl, rfl, rfl, rfl⟩)
  have hshort : Each P ((s₁.linkChild flags c).wakeUpShortForkedProcess M s₁.curr c) := by
    simp only [Sys.wakeUpShortForkedProcess]
    split_ifs
    · exact hlink
    · exact queueShortChild hd (cutSleepAvg hd hlink)
  have hwake : Each P ((s₁.linkChild flags c).wakeUpForkedProcess M c) :=
    activate hd (cutSleepAvg hd hlink)
  split_ifs
  · exact hshort
  · exact hwake
  · exact resched hd hshort
  · exact resched hd hwake

lemma doExit (hd : Durable M P) (h : Each P s) {r : Tid} : Each P (s.doExit r) := by
  have hforget : Each P (s.forgetOriginalParent r) := fun q => by
    simp only [Sys.forgetOriginalParent]
    split_ifs
    · exact hd.congr (h q) ⟨rfl, rfl, rfl, rfl⟩
    · exact h q
  exact modOther hd hforget ⟨rfl, rfl, rfl, rfl⟩

lemma schedExit (hd : Durable M P) (h : Each P s) : Each P (s.schedExit M p) := by
  have hback : Each P (if (s.task p).firstTimeSlice then s.modTask s.curr fun t =>
      { t with timeSlice := min (uadd t.timeSlice (s.task p).timeSlice) M.maxTimeslice } else s) := by
    split_ifs
    · exact modOther hd h ⟨rfl, rfl, rfl, rfl⟩
    · exact h
  simp only [Sys.schedExit]
  set s₁ := if (s.task p).firstTimeSlice = true then s.modTask s.curr fun t =>
      { t with timeSlice := min (uadd t.timeSlice (s.task p).timeSlice) M.maxTimeslice } else s
  split_ifs
  · -- the average of the two
    refine hback.modTask (hd.avg ?_ (hback _))
    have h1 := hd.le (hback s₁.curr)
    have h2 := hd.le (hback p)
    simp only [exitWeight]
    omega
  · exact hback

/-- **Every operation keeps the property of every record**; it has to survive the yields of ordinary
tasks, or there are none. -/
theorem exec (hd : Durable M P) (hi : Inv s) (h : Each P s) {o : Op}
    (hy : (∀ t k, P t → P { t with prio := k }) ∨ NoYield s o) (hs : s.exec M o = some s') :
    Each P s' := by
  cases o with
  | elapse => exact Option.some.inj hs ▸ h.of_task rfl
  | tick => exact Option.some.inj hs ▸ schedulerTick hd h
  | wake p =>
      obtain ⟨-, hs⟩ := Option.ite_none_right_eq_some.mp hs
      exact Option.some.inj hs ▸ tryToWakeUp hd h
  | signal p b =>
      obtain ⟨-, hs⟩ := Option.ite_none_right_eq_some.mp hs
      exact Option.some.inj hs ▸ modOther hd h ⟨rfl, rfl, rfl, rfl⟩
  | setState st =>
      obtain ⟨-, hs⟩ := Option.ite_none_right_eq_some.mp hs
      exact Option.some.inj hs ▸ modOther hd h ⟨rfl, rfl, rfl, rfl⟩
  | setCred u e c =>
      obtain ⟨-, hs⟩ := Option.ite_none_right_eq_some.mp hs
      exact Option.some.inj hs ▸ modOther hd h ⟨rfl, rfl, rfl, rfl⟩
  | schedule => exact schedule hd h hs
  | fork flags c =>
      obtain ⟨hc, hs⟩ := Option.ite_none_right_eq_some.mp hs
      exact doFork hd h hc.2.2.2 hs
  | nice p n =>
      obtain ⟨hp, hs⟩ := Option.ite_none_right_eq_some.mp hs
      refine Option.some.inj hs ▸ setUserNice hd h (or_iff_not_imp_left.mpr fun hpol => ?_)
      exact not_lt.mpr ((hi.tasks p hp).usual (Or.inl (not_not.mp hpol))).1
  | setscheduler pid policy param =>
      obtain ⟨-, hs⟩ := Option.ite_none_right_eq_some.mp hs
      exact Option.some.inj hs ▸ setscheduler hd h pid policy param
  | yield =>
      obtain ⟨hc, hs⟩ := Option.ite_none_right_eq_some.mp hs
      refine schedule hd (yieldQueue hd h (hy.imp_right fun hpol => ?_)) hs
      have ht := hi.tasks _ (hi.queued _ (hi.curr hc.1))
      by_contra hno
      obtain ⟨hsh, hrt⟩ := not_or.mp hno
      have hpol' := (not_congr ht.isRt_iff).mp hrt
      cases hp : (s.task s.curr).policy <;> simp_all [NoYield]
  | exit r =>
      obtain ⟨-, hs⟩ := Option.ite_none_right_eq_some.mp hs
      exact Option.some.inj hs ▸ doExit hd h
  | reap p =>
      obtain ⟨-, hs⟩ := Option.ite_none_right_eq_some.mp hs
      exact Option.some.inj hs ▸ (schedExit hd h).of_task rfl

end Each

/-- The records after booting: the idle task, and the initial task over and over. -/
lemma booted_each {M : Arch} {P : Task → Prop} (hd : Durable M P) (h : P (initTask M))
    (hidle : P { initTask M with prio := maxPrio }) : Each P (Sys.booted M) := by
  intro q
  by_cases hq : q = 0
  · rw [hq, booted_idle_task]
    exact hd.congr hidle ⟨rfl, rfl, rfl, rfl⟩
  · rw [booted_task M hq]
    exact h

/-- **The property holds of every record along a run.** -/
theorem each_of_run {M : Arch} {P : Task → Prop} (hd : Durable M P) (h : P (initTask M))
    (hidle : P { initTask M with prio := maxPrio }) {ops : List Op} {s : Sys}
    (hy : (∀ t k, P t → P { t with prio := k }) ∨ Along (Sys.exec M) NoYield ops (Sys.booted M))
    (hrun : run (Sys.exec M) ops (Sys.booted M) = some s) : Each P s := by
  have hstart : Inv (Sys.booted M) ∧ Each P (Sys.booted M) :=
    ⟨booted_inv M, booted_each hd h hidle⟩
  rcases hy with hany | hno
  · exact (run_induct (P := fun s => Inv s ∧ Each P s) (fun _ _ _ hi hs =>
      ⟨(exec_step hi.1 hs).inv, hi.2.exec hd hi.1 (Or.inl hany) hs⟩) hstart hrun).2
  · exact (run_induct_along (P := fun s => Inv s ∧ Each P s) (fun _ _ _ hi ho hs =>
      ⟨(exec_step hi.1 hs).inv, hi.2.exec hd hi.1 (Or.inr ho) hs⟩) hstart hno hrun).2

end Os234123.Sched
