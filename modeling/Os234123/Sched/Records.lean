import Os234123.Sched.Boot

/-!
The whole record of a task, operation by operation.

* `Ledger`: the fields of a record that say whose slice is whose and at what priority it runs;
* `Mild`: a change that keeps the ledger, and the priority unless the task is an ordinary one;
* `Change`: everything an operation can do to the ledger of a task;
* `exec_change`, `exec_born`: an operation does nothing else, and what a new child starts with;
* `reach_fits`: slices are `unsigned int`, and requests lie in the range that is checked.
-/

namespace Os234123.Sched

/-! ### Mild changes -/

/-- The class of a task, its slice, its parents and what its priority is computed from. -/
structure Ledger where
  policy : Policy
  isShort : ℤ
  requestedTime : ℕ
  timeSlice : ℕ
  firstTimeSlice : Bool
  rtPriority : ℕ
  staticPrio : ℕ
  pOpptr : Tid
  pPptr : Tid

/-- The ledger of a record. -/
def Task.ledger (t : Task) : Ledger where
  policy := t.policy
  isShort := t.isShort
  requestedTime := t.requestedTime
  timeSlice := t.timeSlice
  firstTimeSlice := t.firstTimeSlice
  rtPriority := t.rtPriority
  staticPrio := t.staticPrio
  pOpptr := t.pOpptr
  pPptr := t.pPptr

/-- The ledger stays; so does the priority, unless the task is neither SHORT nor real-time and
stays so. -/
structure Mild (t t' : Task) : Prop where
  ledger : t'.ledger = t.ledger
  prio : t'.prio = t.prio
    ∨ t.policy ≠ .short ∧ ¬ t.IsRt ∧ maxRtPrio ≤ t'.prio ∧ t'.prio < maxPrio

namespace Mild

variable {t t' t'' : Task}

lemma refl (t : Task) : Mild t t := ⟨rfl, Or.inl rfl⟩

lemma policy (h : Mild t t') : t'.policy = t.policy := congrArg Ledger.policy h.ledger

lemma isShort (h : Mild t t') : t'.isShort = t.isShort := congrArg Ledger.isShort h.ledger

lemma timeSlice (h : Mild t t') : t'.timeSlice = t.timeSlice := congrArg Ledger.timeSlice h.ledger

lemma firstTimeSlice (h : Mild t t') : t'.firstTimeSlice = t.firstTimeSlice :=
  congrArg Ledger.firstTimeSlice h.ledger

lemma rtPriority (h : Mild t t') : t'.rtPriority = t.rtPriority :=
  congrArg Ledger.rtPriority h.ledger

lemma staticPrio (h : Mild t t') : t'.staticPrio = t.staticPrio :=
  congrArg Ledger.staticPrio h.ledger

lemma pOpptr (h : Mild t t') : t'.pOpptr = t.pOpptr := congrArg Ledger.pOpptr h.ledger

lemma pPptr (h : Mild t t') : t'.pPptr = t.pPptr := congrArg Ledger.pPptr h.ledger

lemma core (h : Mild t t') : SameCore t t' :=
  ⟨h.policy, h.isShort, congrArg Ledger.requestedTime h.ledger, h.timeSlice⟩

lemma trans (h : Mild t t') (h' : Mild t' t'') : Mild t t'' := by
  refine ⟨h'.ledger.trans h.ledger, ?_⟩
  rcases h'.prio with heq' | ⟨hp', hrt', hb'⟩
  · rw [heq']
    exact h.prio
  · refine Or.inr ⟨h.policy ▸ hp', fun hrt => ?_, hb'⟩
    rcases h.prio with heq | ⟨-, hn, -⟩
    · exact hrt' (show t'.prio < maxRtPrio from heq ▸ hrt)
    · exact hn hrt

/-- An ordinary task that gets another priority of its range. -/
lemma prioOnly {k : ℕ} (hp : t.policy ≠ .short) (hrt : ¬ t.IsRt) (hk : maxRtPrio ≤ k ∧ k < maxPrio) :
    Mild t { t with prio := k } := ⟨rfl, Or.inr ⟨hp, hrt, hk⟩⟩

lemma bonus (M : Arch) (j : ℕ) (t : Task) : Mild t (bonusOf M j t) := by
  simp only [bonusOf]
  split_ifs with h
  · exact ⟨rfl, Or.inr ⟨h.2.2, h.1, Task.effectivePrio_bounds M _⟩⟩
  · exact refl t

end Mild

/-! ### Operations that are mild to every task -/

/-- The operation is mild to every task. -/
def MildAll (s s' : Sys) : Prop := ∀ q, Mild (s.task q) (s'.task q)

namespace MildAll

variable {s s' s'' : Sys} (M : Arch) (p : Tid)

lemma refl (s : Sys) : MildAll s s := fun _ => Mild.refl _

lemma trans (h : MildAll s s') (h' : MildAll s' s'') : MildAll s s'' :=
  fun q => (h q).trans (h' q)

lemma of_task (h : s'.task = s.task) : MildAll s s' := fun _ => h ▸ Mild.refl _

lemma modTask {f : Task → Task} (hf : Mild (s.task p) (f (s.task p))) :
    MildAll s (s.modTask p f) := fun q => by
  by_cases hq : q = p
  · rw [hq, Sys.modTask_task_self]
    exact hf
  · rw [Sys.modTask_task_of_ne _ _ _ hq]
    exact Mild.refl _

lemma reschedTask (s : Sys) : MildAll s (s.reschedTask p) := modTask p ⟨rfl, Or.inl rfl⟩

lemma activateTask (s : Sys) : MildAll s (s.activateTask M p) := fun q => by
  rw [Sys.activateTask_task]
  by_cases hq : q = p
  · rw [hq, Function.update_self]
    exact (Mild.bonus M s.jiffies _).trans ⟨rfl, Or.inl rfl⟩
  · rw [Function.update_of_ne hq]
    exact Mild.refl _

lemma enqueueAs (s : Sys) (a : ArrayId) (l : List Tid) : MildAll s (s.enqueueAs p a l) := fun q => by
  rw [Sys.enqueueAs_task]
  by_cases hq : q = p
  · rw [hq, Function.update_self]
    exact ⟨rfl, Or.inl rfl⟩
  · rw [Function.update_of_ne hq]
    exact Mild.refl _

lemma deactivateTask (s : Sys) : MildAll s (s.deactivateTask p) := fun q => by
  rw [Sys.deactivateTask_task]
  by_cases hq : q = p
  · rw [hq, Function.update_self]
    exact ⟨rfl, Or.inl rfl⟩
  · rw [Function.update_of_ne hq]
    exact Mild.refl _

lemma tryToWakeUp (s : Sys) : MildAll s (s.tryToWakeUp M p) := by
  have hact : ∀ n, MildAll s (({ s with nrUninterruptible := n } : Sys).activateTask M p) :=
    fun n => activateTask M p ({ s with nrUninterruptible := n } : Sys)
  simp only [Sys.tryToWakeUp]
  cases (s.task p).array with
  | some a => exact modTask p ⟨rfl, Or.inl rfl⟩
  | none =>
      refine trans ?_ (modTask p ⟨rfl, Or.inl rfl⟩)
      split_ifs
      · exact (hact _).trans (reschedTask _ _)
      · exact hact _
      · exact (hact s.nrUninterruptible).trans (reschedTask _ _)
      · exact hact s.nrUninterruptible

lemma schedulePrev (s : Sys) : MildAll s s.schedulePrev := by
  have h₁ : MildAll s (s.modTask s.curr fun t => { t with sleepTimestamp := s.jiffies }) :=
    modTask _ ⟨rfl, Or.inl rfl⟩
  rcases schedulePrev_cases s with ⟨heq, -⟩ | heq | ⟨heq, -⟩ <;> rw [heq]
  · exact h₁
  · exact h₁.trans (modTask _ ⟨rfl, Or.inl rfl⟩)
  · exact h₁.trans (deactivateTask _ _)

lemma switchTo (s : Sys) (next : Tid) : MildAll s (s.switchTo next) := by
  have h₁ : MildAll s (s.modTask s.curr fun t => { t with needResched := false }) :=
    modTask _ ⟨rfl, Or.inl rfl⟩
  simp only [Sys.switchTo]
  split_ifs
  · exact h₁
  · exact h₁.trans (of_task rfl)

lemma schedule (h : Inv s) (hs : s.schedule M = some s') : MildAll s s' := by
  obtain ⟨s₁, next, heq, -, -, -, htask, -⟩ := h.schedule_cases M
  obtain rfl := Option.some.inj (heq.symm.trans hs)
  exact ((schedulePrev s).trans (of_task htask)).trans (switchTo s₁ next)

lemma yieldQueue (h : Inv s) (hc : s.curr ≠ s.idle) : MildAll s (s.yieldQueue M) := by
  obtain ⟨a, ha⟩ := Option.ne_none_iff_exists'.mp (h.curr hc)
  have hlt := (h.tasks _ (h.toRqInv.isTask_of_array ha)).prio_lt
  simp only [Sys.yieldQueue, ha]
  split_ifs with hsh hrt
  · exact (deactivateTask _ s).trans (activateTask M _ _)
  · exact of_task rfl
  · exact of_task rfl
  · have hdel : (((s.listDel s.curr).clearBit a (s.task s.curr).prio).arr a).bitmap maxPrio
        = true := by
      simp [Sys.clearBit, Sys.modArr, Sys.listDel, Function.update_of_ne hlt.ne',
        (h.queues.arrayOk a).delimiter]
    obtain ⟨h1, h2⟩ := RqInv.yieldPrio_bounds M hdel hlt
    have hge : maxRtPrio ≤ (s.task s.curr).prio := not_lt.mp hrt
    set k := Sys.yieldPrio M (((s.listDel s.curr).clearBit a (s.task s.curr).prio).arr a).bitmap
      (s.task s.curr).prio
    have hm : MildAll s (s.modTask s.curr fun t => { t with prio := k }) :=
      modTask _ (Mild.prioOnly hsh hrt ⟨hge.trans h1, h2⟩)
    exact hm.trans (of_task rfl)

/-- Cutting the sleep averages moves an ordinary child within its range. -/
lemma cutSleepAvg (s : Sys) : MildAll s (s.cutSleepAvg M p) := by
  have h₁ : MildAll s (s.modTask p fun t => { t with state := .running }) :=
    modTask _ ⟨rfl, Or.inl rfl⟩
  simp only [Sys.cutSleepAvg]
  set s₁ := s.modTask p fun t => { t with state := .running } with hs₁
  clear_value s₁
  split_ifs with hrt hsh
  · exact h₁
  · set s₂ := s₁.modTask s₁.curr fun t =>
      { t with sleepAvg := t.sleepAvg * parentPenalty / 100 } with hs₂
    set s₃ := s₂.modTask p fun t => { t with sleepAvg := t.sleepAvg * childPenalty / 100 }
      with hs₃
    have hprio : (s₃.task p).prio = (s₁.task p).prio := by
      rw [hs₃, Sys.modTask_task_self, hs₂]
      by_cases hp : p = s₁.curr
      · rw [hp, Sys.modTask_task_self]
      · rw [Sys.modTask_task_of_ne _ _ _ hp]
    have h₂ : MildAll s₁ s₂ := modTask _ ⟨rfl, Or.inl rfl⟩
    have h₃ : MildAll s₂ s₃ := modTask _ ⟨rfl, Or.inl rfl⟩
    have hrt₃ : ¬ (s₃.task p).IsRt := fun h => hrt (show _ < _ from hprio ▸ h)
    exact ((h₁.trans h₂).trans h₃).trans
      (modTask p (Mild.prioOnly hsh hrt₃ (Task.effectivePrio_bounds M _)))
  · have h₂ : MildAll s₁ (s₁.modTask s₁.curr fun t =>
        { t with sleepAvg := t.sleepAvg * parentPenalty / 100 }) := modTask _ ⟨rfl, Or.inl rfl⟩
    exact (h₁.trans h₂).trans (modTask _ ⟨rfl, Or.inl rfl⟩)

/-- The child enters at the head and its father goes to the tail. -/
lemma queueShortChild (s : Sys) (f : Tid) : MildAll s (s.queueShortChild M f p) := by
  set s₁ : Sys := { s.enqueueFirst p .shortActive with nrRunning := s.nrRunning + 1 } with hs₁
  have h₁ : MildAll s s₁ := enqueueAs p s _ _
  exact (h₁.trans (deactivateTask f s₁)).trans (activateTask M f _)

lemma wakeUpShortForkedProcess (s : Sys) (f : Tid) :
    MildAll s (s.wakeUpShortForkedProcess M f p) := by
  simp only [Sys.wakeUpShortForkedProcess]
  split_ifs
  · exact refl s
  · exact (cutSleepAvg M p s).trans (queueShortChild M p _ f)

lemma wakeUpForkedProcess (s : Sys) : MildAll s (s.wakeUpForkedProcess M p) :=
  (cutSleepAvg M p s).trans (activateTask M p _)

/-- Once the child is linked, waking it is mild to all. -/
lemma forkWake (s : Sys) (flags : ForkFlags) :
    MildAll (s.linkChild flags p) (s.forkWake M flags p) := by
  set s₁ := s.linkChild flags p with hs₁
  simp only [Sys.forkWake, ← hs₁]
  split_ifs
  · exact wakeUpShortForkedProcess M p s₁ _
  · exact wakeUpForkedProcess M p s₁
  · exact (wakeUpShortForkedProcess M p s₁ _).trans (reschedTask _ _)
  · exact (wakeUpForkedProcess M p s₁).trans (reschedTask _ _)

end MildAll

/-! ### What an operation does to the ledgers -/

/-- The operation has nothing to do with the ledger of task `p`. -/
def Skips (M : Arch) (s : Sys) (p : Tid) : Op → Prop
  | .tick => ¬ s.Charged p
  | .fork _ _ => p ≠ s.curr
  | .setscheduler pid policy param =>
      s.findProcessByPid pid ≠ some p ∨ (s.setscheduler M pid policy param).2 ≠ none
  | .exit _ => ¬ (s.live p = true ∧ (s.task p).pOpptr = s.curr)
  | .reap c => p ≠ s.curr ∨ (s.task c).firstTimeSlice = false
  | _ => True

/-- A record with a new nice value. -/
def reniced (n : ℤ) (t : Task) : Task :=
  if t.IsRt then { t with staticPrio := niceToPrio n } else Sys.renice n t

/-- An orphan has a new parent and is no longer credited back. -/
def orphaned (r : Tid) (t : Task) : Task :=
  { t with pOpptr := r, pPptr := r, firstTimeSlice := false }

/-- What a new child starts with. -/
def newborn (s : Sys) (flags : ForkFlags) : Task :=
  { Sys.inherit (s.task s.curr) (Sys.childOf (s.task s.curr)) s.jiffies with
    pOpptr := if flags.cloneParent then (s.task s.curr).pOpptr else s.curr
    pPptr := if flags.cloneParent then (s.task s.curr).pPptr else s.curr }

/-- Everything an operation can do to the ledger of a task. -/
inductive Change (M : Arch) (s : Sys) (p : Tid) : Op → Task → Prop where
  | mild {o : Op} {t : Task} (hn : Skips M s p o) (h : Mild (s.task p) t) : Change M s p o t
  | tick {t : Task} (hc : s.Charged p) (h : TickOf M s.active s.expired (s.task p) t) :
      Change M s p .tick t
  | share {flags : ForkFlags} {c : Tid} {u t : Task} (hp : p = s.curr)
      (h : ShareOf M s.active s.expired (s.task p) u) (hm : Mild u t) :
      Change M s p (.fork flags c) t
  | nice {n : ℤ} {t : Task} (hn : ¬ n < -20 ∧ ¬ 19 < n) (h : Mild (reniced n (s.task p)) t) :
      Change M s p (.nice p n) t
  | change {pid policy : ℤ} {lp : SchedParam} {pol : Policy} {t : Task}
      (hfind : s.findProcessByPid pid = some p)
      (hok : (s.setscheduler M pid policy (.readable lp)).2 = none) (hacc : Accepts M s p pol lp)
      (h : Mild (Sys.newParams M (s.task p) pol lp) t) :
      Change M s p (.setscheduler pid policy (.readable lp)) t
  | orphan {r : Tid} {t : Task} (hl : s.live p = true) (ho : (s.task p).pOpptr = s.curr)
      (h : Mild (orphaned r (s.task p)) t) : Change M s p (.exit r) t
  | credit {c : Tid} {t : Task} (hp : p = s.curr) (hc : s.IsZombieChild c)
      (hf : (s.task c).firstTimeSlice = true) (h : Mild (credited M (s.task p) (s.task c)) t) :
      Change M s p (.reap c) t

section

variable {M : Arch} {s s' : Sys} {p c : Tid}

/-- The parameters `setscheduler` sets do not depend on where the task stands. -/
lemma newParams_mild (M : Arch) (t : Task) (pol : Policy) (lp : SchedParam) (b : Bool)
    (a : Option ArrayId) : Mild (Sys.newParams M t pol lp)
      (Sys.newParams M { t with needResched := b, array := a } pol lp) := by
  by_cases hp : pol = .short
  · subst hp
    rw [newParams_short, newParams_short, shortParams_eq, shortParams_eq]
    exact ⟨rfl, Or.inl rfl⟩
  · rw [newParams_of_ne M _ hp, newParams_of_ne M _ hp]
    exact ⟨rfl, Or.inl rfl⟩

/-- The task whose parameters change. -/
lemma applyParams_mild (M : Arch) (s : Sys) (p : Tid) (pol : Policy) (lp : SchedParam) :
    Mild (Sys.newParams M (s.task p) pol lp) ((s.applyParams M p pol lp).task p) := by
  simp only [Sys.applyParams]
  cases ha : (s.task p).array with
  | none =>
      obtain ⟨b, hb⟩ := changeParams_self M s p pol lp
      have hm := newParams_mild M (s.task p) pol lp b (s.task p).array
      dsimp only
      rw [hb]
      exact hm
  | some a =>
      obtain ⟨b, hb⟩ := changeParams_self M (s.deactivateTask p) p pol lp
      rw [deactivateTask_self] at hb
      have hact := MildAll.activateTask M p ((s.deactivateTask p).changeParams M p pol lp) p
      rw [hb] at hact
      exact (newParams_mild M (s.task p) pol lp b none).trans hact

/-- Every other task. -/
lemma applyParams_mild_of_ne (M : Arch) (s : Sys) {q : Tid} (hq : q ≠ p) (pol : Policy)
    (lp : SchedParam) : Mild (s.task q) ((s.applyParams M p pol lp).task q) := by
  have hchange : ∀ s₁ : Sys, Mild (s₁.task q) ((s₁.changeParams M p pol lp).task q) := by
    intro s₁
    simp only [Sys.changeParams]
    rw [Sys.modTask_task_of_ne _ _ _ hq]
    split_ifs
    · exact MildAll.reschedTask _ _ q
    · exact Mild.refl _
  simp only [Sys.applyParams]
  cases (s.task p).array with
  | none => exact hchange s
  | some a =>
      exact ((MildAll.deactivateTask p s q).trans (hchange _)).trans
        (MildAll.activateTask M p _ q)

/-- A tick leaves the parents alone, and what the priority is computed from. -/
lemma TickOf.ties {active expired : ArrayId} {t t' : Task} (h : TickOf M active expired t t') :
    t'.pOpptr = t.pOpptr ∧ t'.pPptr = t.pPptr ∧ t'.rtPriority = t.rtPriority
      ∧ t'.staticPrio = t.staticPrio := by
  cases h <;> exact ⟨rfl, rfl, rfl, rfl⟩

lemma halve_ties (t : Task) : (Sys.halve t).pOpptr = t.pOpptr ∧ (Sys.halve t).pPptr = t.pPptr
    ∧ (Sys.halve t).rtPriority = t.rtPriority ∧ (Sys.halve t).staticPrio = t.staticPrio := by
  simp only [Sys.halve]
  split_ifs <;> exact ⟨rfl, rfl, rfl, rfl⟩

lemma ShareOf.ties {active expired : ArrayId} {t t' : Task} (h : ShareOf M active expired t t') :
    t'.pOpptr = t.pOpptr ∧ t'.pPptr = t.pPptr ∧ t'.rtPriority = t.rtPriority
      ∧ t'.staticPrio = t.staticPrio := by
  have hh := halve_ties t
  cases h with
  | halved _ => exact hh
  | spared _ _ => exact hh
  | charged _ ht =>
      obtain ⟨h1, h2, h3, h4⟩ := ht.ties
      exact ⟨h1.trans hh.1, h2.trans hh.2.1, h3.trans hh.2.2.1, h4.trans hh.2.2.2⟩

/-- The ledgers after a fork in one step. -/
lemma doFork_records (h : Inv s) (hc : ¬ s.Known c) {flags : ForkFlags}
    (hs : s.doFork M flags c = some s') :
    (∃ u, ShareOf M s.active s.expired (s.task s.curr) u ∧ Mild u (s'.task s.curr))
      ∧ Mild (newborn s flags) (s'.task c)
      ∧ ∀ q, q ≠ c → q ≠ s.curr → Mild (s.task q) (s'.task q) := by
  have hcc : c ≠ s.curr := fun he => hc (he ▸ h.known_curr)
  obtain ⟨s₁, hshare, rfl⟩ := Option.map_eq_some_iff.mp hs
  set s₀ := s.forkCopy c with hs₀
  have h₀ : Inv s₀ := h.modUnknown hc rfl
  have hself : s₀.task c = Sys.childOf (s.task s.curr) := Sys.modTask_task_self ..
  have hcurr : s₀.task s.curr = s.task s.curr := Sys.modTask_task_of_ne _ _ _ hcc.symm
  have hoff : (s₀.task c).array = none := by rw [hself]; rfl
  have hsh : Shared M s₀ c s₁ := forkShare_shared hcc hshare
  obtain ⟨-, -, hcurr₁, hchild, hother⟩ := hsh.frame (s := s₀) hcc
  have hparent := hsh.parent h₀.toRqInv hc hcc hoff
  rw [show s₀.curr = s.curr from rfl, hcurr] at hparent hchild
  rw [hself] at hchild
  -- linking the child writes its parents, and the rest is mild
  set s₂ := s₁.linkChild flags c with hs₂
  have hwake : MildAll s₂ (s₁.forkWake M flags c) := MildAll.forkWake M c s₁ flags
  have hne : ∀ q, q ≠ c → s₂.task q = s₁.task q := fun q hq => linkChild_of_ne s₁ flags hq
  have hlink : s₂.task c = { s₁.task c with
      pOpptr := if flags.cloneParent then (s₁.task s₁.curr).pOpptr else s₁.curr
      pPptr := if flags.cloneParent then (s₁.task s₁.curr).pPptr else s₁.curr } :=
    Function.update_self ..
  obtain ⟨hO, hP, -, -⟩ := hparent.ties
  refine ⟨⟨_, hparent, hne _ hcc.symm ▸ hwake s.curr⟩, ?_, fun q hq hqc => ?_⟩
  · have heq : s₂.task c = newborn s flags := by
      rw [hlink, hchild, hcurr₁, newborn]
      simp only [show s₀.curr = s.curr from rfl, hO, hP]
      rfl
    exact heq ▸ hwake c
  · have heq : s₂.task q = s.task q :=
      (hne q hq).trans ((hother q hq hqc).trans (Sys.modTask_task_of_ne _ _ _ hq))
    exact heq ▸ hwake q

/-- A nice value reaches one task only. -/
lemma setUserNice_records (s : Sys) (p : Tid) (n : ℤ) : MildAll s (s.setUserNice p n)
    ∨ (¬ n < -20 ∧ ¬ 19 < n) ∧ Mild (reniced n (s.task p)) ((s.setUserNice p n).task p)
      ∧ ∀ q, q ≠ p → Mild (s.task q) ((s.setUserNice p n).task q) := by
  have hmod : ∀ (s₁ : Sys) (f : Task → Task), s₁.task = s.task → f (s.task p) = reniced n (s.task p) →
      Mild (reniced n (s.task p)) ((s₁.modTask p f).task p)
        ∧ ∀ q, q ≠ p → Mild (s.task q) ((s₁.modTask p f).task q) := by
    intro s₁ f hs₁ hf
    refine ⟨?_, fun q hq => ?_⟩
    · rw [Sys.modTask_task_self, hs₁, hf]
      exact Mild.refl _
    · rw [Sys.modTask_task_of_ne _ _ _ hq, hs₁]
      exact Mild.refl _
  simp only [Sys.setUserNice]
  by_cases hn : (s.task p).nice = n ∨ n < -20 ∨ 19 < n
  · rw [if_pos hn]
    exact Or.inl (MildAll.refl s)
  rw [if_neg hn]
  simp only [not_or] at hn
  refine Or.inr ⟨hn.2, ?_⟩
  by_cases hrt : (s.task p).IsRt
  · rw [if_pos hrt]
    exact hmod s _ rfl (by rw [reniced, if_pos hrt])
  rw [if_neg hrt]
  have hre : Sys.renice n (s.task p) = reniced n (s.task p) := by rw [reniced, if_neg hrt]
  cases ha : (s.task p).array with
  | none => exact hmod s _ rfl hre
  | some a =>
      obtain ⟨h1, h2⟩ := hmod (s.dequeueTask p a) _ (Sys.dequeueTask_task s p a) hre
      have henq := MildAll.enqueueAs p ((s.dequeueTask p a).modTask p (Sys.renice n)) a
        ((((s.dequeueTask p a).modTask p (Sys.renice n)).arr a).queue
          (((s.dequeueTask p a).modTask p (Sys.renice n)).task p).prio ++ [p])
      dsimp only
      split_ifs
      · exact ⟨(h1.trans (henq p)).trans (MildAll.reschedTask _ _ p),
          fun q hq => ((h2 q hq).trans (henq q)).trans (MildAll.reschedTask _ _ q)⟩
      · exact ⟨h1.trans (henq p), fun q hq => (h2 q hq).trans (henq q)⟩

/-- Only the running task is credited, and only while the child is in its first slice. -/
lemma releaseTask_records (M : Arch) (s : Sys) (c : Tid) :
    (∀ q, q ≠ s.curr ∨ (s.task c).firstTimeSlice = false →
        Mild (s.task q) ((s.releaseTask M c).task q))
      ∧ ((s.task c).firstTimeSlice = true →
        Mild (credited M (s.task s.curr) (s.task c)) ((s.releaseTask M c).task s.curr)) := by
  have hlast : ∀ s₁ : Sys, MildAll s₁
      (if (s₁.task c).sleepAvg < (s₁.task s₁.curr).sleepAvg then s₁.modTask s₁.curr fun t =>
        { t with sleepAvg := (t.sleepAvg * exitWeight + (s₁.task c).sleepAvg) / (exitWeight + 1) }
      else s₁) := fun s₁ => by
    split_ifs
    · exact MildAll.modTask _ ⟨rfl, Or.inl rfl⟩
    · exact MildAll.refl _
  simp only [Sys.releaseTask, Sys.schedExit]
  by_cases hf : (s.task c).firstTimeSlice = true
  · simp only [if_pos hf]
    refine ⟨fun q hq => ?_, fun _ => ?_⟩
    · have hqc : q ≠ s.curr := hq.resolve_right (by simp [hf])
      have h₁ := hlast (s.modTask s.curr fun t =>
        { t with timeSlice := min (uadd t.timeSlice (s.task c).timeSlice) M.maxTimeslice }) q
      rw [Sys.modTask_task_of_ne _ _ _ hqc] at h₁
      exact h₁
    · have h₁ := hlast (s.modTask s.curr fun t =>
        { t with timeSlice := min (uadd t.timeSlice (s.task c).timeSlice) M.maxTimeslice }) s.curr
      rw [Sys.modTask_task_self] at h₁
      exact h₁
  · simp only [if_neg hf]
    exact ⟨fun q _ => hlast s q, fun hf' => absurd hf' hf⟩

/-- The children of the task that exits are orphaned. -/
lemma doExit_records (s : Sys) (r q : Tid) :
    Mild (if s.live q = true ∧ (s.task q).pOpptr = s.curr then orphaned r (s.task q) else s.task q)
      ((s.doExit r).task q) :=
  MildAll.modTask (s := s.forgetOriginalParent r) s.curr ⟨rfl, Or.inl rfl⟩ q

/-- What the listed task found by `setscheduler` can be. -/
lemma setscheduler_records (s : Sys) (pid policy : ℤ) (param : ParamPtr) (q : Tid) :
    Change M s q (.setscheduler pid policy param)
      ((s.setscheduler M pid policy param).1.task q) := by
  rcases s.setscheduler_outcome M pid policy param with
    ⟨sp, e, heq⟩ | ⟨p, pol, lp, hpid, hfind, rfl, hout⟩
  · refine .mild (Or.inr (by simp [heq])) ?_
    rw [heq]
    exact Mild.refl _
  generalize hx : s.setscheduler M pid policy (.readable lp) = x at hout
  cases hout with
  | refused sp e => exact .mild (Or.inr (by simp [hx])) (Mild.refl _)
  | changed sp hacc =>
      set s₁ : Sys := { s with superpriv := sp } with hs₁
      by_cases hq : q = p
      · subst hq
        exact .change hfind (by rw [hx]) hacc (applyParams_mild M s₁ q pol lp)
      · exact .mild (Or.inl fun he => hq (Option.some.inj (he.symm.trans hfind)))
          (applyParams_mild_of_ne M s₁ hq pol lp)

end

/-- **What an operation does to the ledger of a task.** -/
theorem exec_change {M : Arch} {s s' : Sys} {o : Op} (h : Inv s) (hs : s.exec M o = some s')
    {p : Tid} (hp : s.Known p) : Change M s p o (s'.task p) := by
  cases o with
  | elapse =>
      obtain rfl := Option.some.inj hs
      exact .mild trivial (Mild.refl _)
  | tick =>
      obtain rfl := Option.some.inj hs
      by_cases hc : s.Charged p
      · exact .tick hc (Sys.schedulerTick_charged h.toRqInv hc)
      · obtain ⟨b, hb⟩ := Sys.schedulerTick_uncharged (M := M) hc
        exact .mild hc (hb ▸ ⟨rfl, Or.inl rfl⟩)
  | wake q =>
      simp only [Sys.exec] at hs
      split_ifs at hs
      obtain rfl := Option.some.inj hs
      exact .mild trivial (MildAll.tryToWakeUp M q s p)
  | signal q b =>
      simp only [Sys.exec] at hs
      split_ifs at hs
      obtain rfl := Option.some.inj hs
      exact .mild trivial (MildAll.modTask q ⟨rfl, Or.inl rfl⟩ p)
  | setState st =>
      simp only [Sys.exec] at hs
      split_ifs at hs
      obtain rfl := Option.some.inj hs
      exact .mild trivial (MildAll.modTask s.curr ⟨rfl, Or.inl rfl⟩ p)
  | setCred u e c =>
      simp only [Sys.exec] at hs
      split_ifs at hs
      obtain rfl := Option.some.inj hs
      exact .mild trivial (MildAll.modTask s.curr ⟨rfl, Or.inl rfl⟩ p)
  | schedule => exact .mild trivial (MildAll.schedule M h hs p)
  | fork flags c =>
      simp only [Sys.exec] at hs
      split_ifs at hs with hc
      have hk : ¬ s.Known c := fun hk => hk.elim (fun ht => hc.2.1 ht.1) hc.2.2.1
      obtain ⟨⟨u, hu, hm⟩, -, hother⟩ := doFork_records h hk hs
      by_cases hpc : p = s.curr
      · subst hpc
        exact .share rfl hu hm
      · exact .mild hpc (hother p (fun he => hk (he ▸ hp)) hpc)
  | nice q n =>
      simp only [Sys.exec] at hs
      split_ifs at hs
      obtain rfl := Option.some.inj hs
      rcases setUserNice_records s q n with hall | ⟨hn, hself, hother⟩
      · exact .mild trivial (hall p)
      · by_cases hq : p = q
        · subst hq
          exact .nice hn hself
        · exact .mild trivial (hother p hq)
  | setscheduler pid policy param =>
      simp only [Sys.exec] at hs
      split_ifs at hs
      obtain rfl := Option.some.inj hs
      exact setscheduler_records s pid policy param p
  | yield =>
      simp only [Sys.exec] at hs
      split_ifs at hs with hc
      have hq := MildAll.yieldQueue M h hc.1
      exact .mild trivial ((hq p).trans (MildAll.schedule M (h.yieldQueue hc.1) hs p))
  | exit r =>
      simp only [Sys.exec] at hs
      split_ifs at hs
      obtain rfl := Option.some.inj hs
      have hm := doExit_records s r p
      by_cases ho : s.live p = true ∧ (s.task p).pOpptr = s.curr
      · rw [if_pos ho] at hm
        exact .orphan ho.1 ho.2 hm
      · rw [if_neg ho] at hm
        exact .mild ho hm
  | reap c =>
      simp only [Sys.exec] at hs
      split_ifs at hs with hc
      obtain rfl := Option.some.inj hs
      obtain ⟨hmild, hcred⟩ := releaseTask_records M s c
      by_cases hpc : p = s.curr
      · by_cases hf : (s.task c).firstTimeSlice = true
        · subst hpc
          exact .credit rfl hc.2 hf (hcred hf)
        · exact .mild (Or.inr (by simpa using hf)) (hmild p (Or.inr (by simpa using hf)))
      · exact .mild (Or.inl hpc) (hmild p (Or.inl hpc))

/-- **What a new child starts with.** -/
theorem exec_born {M : Arch} {s s' : Sys} {flags : ForkFlags} {c : Tid} (h : Inv s)
    (hs : s.exec M (.fork flags c) = some s') : Mild (newborn s flags) (s'.task c) := by
  simp only [Sys.exec] at hs
  split_ifs at hs with hc
  have hk : ¬ s.Known c := fun hk => hk.elim (fun ht => hc.2.1 ht.1) hc.2.2.1
  exact (doFork_records h hk hs).2.1

/-! ### Numbers that fit -/

/-- The slice is an `unsigned int`, and the request one that `setscheduler` lets through, or none. -/
structure Fits (t : Task) : Prop where
  slice : t.timeSlice < uintSize
  request : t.requestedTime ≤ 3000

namespace Fits

variable {M : Arch} {active expired : ArrayId} {t t' : Task}

lemma congr (h : Fits t) (hc : SameCore t t') : Fits t' :=
  ⟨hc.timeSlice ▸ h.slice, hc.requestedTime ▸ h.request⟩

lemma one_lt_uintSize : 1 < uintSize := by decide

lemma maxTimeslice_lt (M : Arch) : M.maxTimeslice < uintSize := by
  have := M.HZ_int
  simp only [Arch.maxTimeslice, uintSize]
  omega

/-- A full slice of an ordinary task. -/
lemma timeslice_lt (M : Arch) (hst : maxRtPrio ≤ t.staticPrio) : t.timeslice M < uintSize :=
  lt_of_le_of_lt (Task.timeslice_bounds M t hst).2 (maxTimeslice_lt M)

lemma jiffies_lt (M : Arch) {r : ℕ} (hr : r ≤ 3000) : 2 * r * M.HZ / 1000 < uintSize := by
  have h1 : 2 * r * M.HZ ≤ 2 * 3000 * M.HZ := Nat.mul_le_mul_right _ (by omega)
  have := M.HZ_int
  simp only [uintSize]
  omega

lemma tick (h : Fits t) (hst : maxRtPrio ≤ t.staticPrio) (ht : TickOf M active expired t t') :
    Fits t' := by
  cases ht with
  | spend avg _ => exact ⟨usub_lt _ _, h.request⟩
  | refillRr _ _ => exact ⟨timeslice_lt M hst, h.request⟩
  | refillOther avg a _ _ _ => exact ⟨timeslice_lt M hst, h.request⟩
  | turnOverdue avg _ _ => exact ⟨jiffies_lt M h.request, h.request⟩
  | turnOther avg _ _ => exact ⟨timeslice_lt M hst, h.request⟩

lemma halve (h : Fits t) : Fits (Sys.halve t) := by
  have := h.slice
  simp only [Sys.halve]
  split_ifs
  · exact h
  · exact ⟨lt_of_le_of_lt (Nat.div_le_self _ _) this, h.request⟩

lemma share (h : Fits t) (hst : maxRtPrio ≤ t.staticPrio) (ht : ShareOf M active expired t t') :
    Fits t' := by
  have hone : Fits { Sys.halve t with timeSlice := 1 } := ⟨one_lt_uintSize, h.halve.request⟩
  cases ht with
  | halved _ => exact h.halve
  | spared b _ => exact ⟨one_lt_uintSize, h.halve.request⟩
  | charged _ ht => exact hone.tick (by rw [(halve_ties t).2.2.2]; exact hst) ht

/-- A change of parameters that the guards let through. -/
lemma newParams (h : Fits t) {pol : Policy} {lp : SchedParam}
    (hreq : ¬ Sys.BadRequest M t pol lp) : Fits (Sys.newParams M t pol lp) := by
  by_cases hp : pol = .short
  · subst hp
    simp only [Sys.BadRequest, true_and, not_or, not_lt] at hreq
    obtain ⟨-, hr, -⟩ := hreq
    have hj : newSlice M t lp.requestedTime.toNat < uintSize := by
      have := jiffies_lt M (r := lp.requestedTime.toNat) (by omega)
      simp only [newSlice]
      split_ifs
      · exact usub_lt _ _
      · refine lt_of_le_of_lt (Nat.div_le_div_right (Nat.mul_le_mul_right _ ?_)) this
        omega
    rw [newParams_short, shortParams_eq]
    refine ⟨?_, ?_⟩ <;> dsimp only <;> split_ifs
    · decide
    · exact hj
    · omega
    · omega
  · rw [newParams_of_ne M t hp]
    exact ⟨h.slice, h.request⟩

lemma inherit (h : Fits t) (child : Task) (j : ℕ) : Fits (Sys.inherit t child j) := by
  refine ⟨?_, h.request⟩
  have h1 : uadd t.timeSlice 1 / 2 < uintSize :=
    lt_of_le_of_lt (Nat.div_le_self _ _) (Nat.mod_lt _ (by decide))
  simp only [Sys.inherit]
  split_ifs
  · exact h.slice
  · exact h1

/-- No operation makes a number that does not fit. -/
lemma change {s : Sys} {o : Op} {p : Tid} (h : Fits (s.task p)) (hst : maxRtPrio ≤ (s.task p).staticPrio)
    (hc : Change M s p o t) : Fits t := by
  cases hc with
  | mild _ hm => exact h.congr hm.core
  | tick _ ht => exact h.tick hst ht
  | share _ hu hm => exact (h.share hst hu).congr hm.core
  | nice _ hm =>
      refine congr ?_ hm.core
      simp only [reniced, Sys.renice]
      split_ifs <;> exact ⟨h.slice, h.request⟩
  | change _ _ hacc hm => exact (h.newParams hacc.request).congr hm.core
  | orphan _ _ hm => exact congr (t := orphaned _ _) ⟨h.slice, h.request⟩ hm.core
  | credit _ _ _ hm =>
      exact congr (t := credited M _ _) ⟨lt_of_le_of_lt (min_le_right _ _) (maxTimeslice_lt M),
        h.request⟩ hm.core

end Fits

/-- **The numbers of every record fit.** -/
theorem reach_fits {M : Arch} {ops : List Op} {s : Sys}
    (h : Machine.run (Sys.exec M) ops (Sys.booted M) = some s) :
    ∀ p, s.Known p → Fits (s.task p) := by
  have hall : Inv s ∧ ∀ p, s.Known p → Fits (s.task p) := by
    refine Machine.run_induct (P := fun s => Inv s ∧ ∀ p, s.Known p → Fits (s.task p))
      (fun s o s' ⟨hi, hf⟩ hs => ?_) ⟨booted_inv M, fun p hp => ?_⟩ h
    · have hstep := exec_step hi hs
      refine ⟨hstep.inv, fun p hp => ?_⟩
      rcases hstep.known_or_child hp with hk | hborn
      · exact (hf p hk).change (hi.toRqInv.classOk hk).static.1 (exec_change hi hs hk)
      · cases o with
        | fork flags c =>
            obtain rfl : c = p := Option.some.inj hborn
            have hi' := (hf s.curr hi.known_curr).inherit (Sys.childOf (s.task s.curr)) s.jiffies
            have hn : Fits (newborn s flags) := ⟨hi'.slice, hi'.request⟩
            exact hn.congr (exec_born hi hs).core
        | _ => simp [Op.child] at hborn
    · have hHZ := M.HZ_int
      have hinit : M.HZ < uintSize := by
        simp only [uintSize]
        omega
      rcases hp with hp | hp
      · simp [Sys.IsTask, booted_live] at hp
      · rw [hp, booted_idle, booted_idle_task]
        exact ⟨hinit, Nat.zero_le _⟩
  exact hall.2

end Os234123.Sched
