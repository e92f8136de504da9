import Os234123.Sched.Wellformed

/-!
The states of the tasks, and who changes them.

* `SameStates x s s'`: every state but that of `x` is the same;
* `SameStates.schedulerTick` .. `SameStates.doFork`: what the operations do to the states;
* `exec_state`: nobody puts another task to sleep;
* `Inv.schedule_state`: the task that `schedule` takes is running;
* `exec_alive`: a task that has not exited stays, and exits by itself.
-/

namespace Os234123.Sched

/-- Every task but `x` keeps its state. -/
def SameStates (x : Option Tid) (s s' : Sys) : Prop :=
  ∀ q, x ≠ some q → (s'.task q).state = (s.task q).state

namespace SameStates

variable {M : Arch} {x : Option Tid} {s s' s'' : Sys} {p c f : Tid}

lemma refl (s : Sys) : SameStates x s s := fun _ _ => rfl

lemma trans (h : SameStates x s s') (h' : SameStates x s' s'') : SameStates x s s'' :=
  fun q hq => (h' q hq).trans (h q hq)

lemma weaken (h : SameStates none s s') : SameStates x s s' := fun q _ => h q (by simp)

lemma of_quiet (h : Quiet x s s') : SameStates x s s' := fun q hq => (h.kept q hq).state

lemma of_update {t : Task} (ht : s'.task = Function.update s.task p t)
    (hst : t.state = (s.task p).state) : SameStates x s s' := by
  intro q _
  rw [ht]
  by_cases hq : q = p
  · rw [hq, Function.update_self, hst]
  · rw [Function.update_of_ne hq]

lemma modTask {g : Task → Task} (hg : (g (s.task p)).state = (s.task p).state) :
    SameStates x s (s.modTask p g) := of_update rfl hg

/-- A change of the one state that is left out. -/
lemma modSelf {g : Task → Task} : SameStates (some p) s (s.modTask p g) := fun q hq => by
  rw [Sys.modTask_task_of_ne _ _ _ fun he => hq (by rw [he])]

lemma dequeue {a : ArrayId} : SameStates x s (s.dequeueTask p a) := fun q _ => by simp

lemma enqueueAs {a : ArrayId} {l : List Tid} : SameStates x s (s.enqueueAs p a l) :=
  of_update (Sys.enqueueAs_task s p a l) rfl

lemma activate : SameStates x s (s.activateTask M p) :=
  of_update (Sys.activateTask_task M s p) (by simp)

lemma deactivate : SameStates x s (s.deactivateTask p) :=
  of_update (Sys.deactivateTask_task s p) rfl

lemma tickRt : SameStates x s (s.tickRt M p) := by
  simp only [Sys.tickRt]
  have h₁ : SameStates x s (s.modTask p fun t => { t with timeSlice := usub t.timeSlice 1 }) :=
    modTask rfl
  split_ifs
  · exact h₁.trans ((modTask (g := Sys.refillRr M) rfl).trans (dequeue.trans enqueueAs))
  · exact h₁
  · exact refl s

lemma expireOther : SameStates x s (s.expireOther M p) := by
  have h₁ : SameStates x s ((s.dequeueTask p s.active).modTask p (Sys.refillOther M)) :=
    dequeue.trans (modTask rfl)
  simp only [Sys.expireOther]
  split_ifs
  · exact h₁.trans enqueueAs
  · exact h₁.trans enqueueAs
  · exact h₁.trans enqueueAs

lemma expireShort : SameStates x s (s.expireShort M p) := by
  simp only [Sys.expireShort]
  cases (s.task p).array with
  | none =>
      dsimp only
      split_ifs
      · exact (modTask (g := Sys.turnOverdue M) rfl).trans enqueueAs
      · exact (modTask (g := Sys.turnOther M) rfl).trans enqueueAs
  | some a =>
      dsimp only
      split_ifs
      · exact dequeue.trans ((modTask (g := Sys.turnOverdue M) rfl).trans enqueueAs)
      · exact dequeue.trans ((modTask (g := Sys.turnOther M) rfl).trans enqueueAs)

lemma schedulerTick : SameStates x s (s.schedulerTick M) := by
  have h₁ : SameStates x s (s.modTask s.curr fun t =>
      { t with sleepAvg := t.sleepAvg - 1, timeSlice := usub t.timeSlice 1 }) := modTask rfl
  simp only [Sys.schedulerTick, Sys.tickSlice]
  split_ifs
  · exact refl s
  · exact tickRt
  · exact h₁.trans expireOther
  · exact h₁.trans expireShort
  · exact h₁
  · exact modTask rfl

/-! ### Forking and reaping -/

lemma forkShare (hc : c ≠ s.curr) (hs : s.forkShare M c = some s') : SameStates (some c) s s' := by
  have hsplit : ∀ g : Task → Task, (∀ t, (g t).state = t.state) → SameStates (some c) s
      ((s.modTask c fun t => Sys.inherit (s.task s.curr) t s.jiffies).modTask s.curr g) :=
    fun g hg => modSelf.trans (modTask (hg _))
  cases forkShare_shared hc hs with
  | halved _ _ => exact hsplit Sys.halve fun t => (halve_same t).2
  | charged _ _ =>
      exact (hsplit (fun t => { Sys.halve t with timeSlice := 1 })
        fun t => (halve_same t).2).trans schedulerTick

lemma cutSleepAvg : SameStates (some c) s (s.cutSleepAvg M c) := by
  have h₁ : SameStates (some c) s (s.modTask c fun t => { t with state := .running }) := modSelf
  simp only [Sys.cutSleepAvg]
  split_ifs
  · exact h₁
  · exact h₁.trans ((modTask rfl).trans (modSelf.trans modSelf))
  · exact h₁.trans ((modTask rfl).trans modSelf)

lemma queueShortChild : SameStates x s (s.queueShortChild M f c) := by
  have h₁ : SameStates x s { s.enqueueFirst c .shortActive with
      nrRunning := (s.enqueueFirst c .shortActive).nrRunning + 1 } :=
    enqueueAs (a := .shortActive) (l := c :: (s.arr .shortActive).queue (s.task c).prio)
  exact h₁.trans (deactivate.trans activate)

lemma forkWake {flags : ForkFlags} : SameStates (some c) s (s.forkWake M flags c) := by
  have h₁ : SameStates (some c) s (s.linkChild flags c) := fun q hq => by
    rw [linkChild_of_ne s flags fun he => hq (by rw [he])]
  have hwake : SameStates (some c) s (if ((s.linkChild flags c).task s.curr).isShort = 1
      then (s.linkChild flags c).wakeUpShortForkedProcess M s.curr c
      else (s.linkChild flags c).wakeUpForkedProcess M c) := by
    simp only [Sys.wakeUpShortForkedProcess, Sys.wakeUpForkedProcess]
    split_ifs
    · exact h₁
    · exact h₁.trans (cutSleepAvg.trans queueShortChild)
    · exact h₁.trans (cutSleepAvg.trans activate)
  simp only [Sys.forkWake]
  by_cases hv : flags.cloneVfork = true
  · rw [if_pos hv]
    exact hwake
  · rw [if_neg hv]
    exact hwake.trans (modTask rfl)

lemma doFork {flags : ForkFlags} (hc : c ≠ s.curr) (hs : s.doFork M flags c = some s') :
    SameStates (some c) s s' := by
  obtain ⟨s₁, hshare, rfl⟩ := Option.map_eq_some_iff.mp hs
  exact modSelf.trans ((forkShare (s := s.forkCopy c) hc hshare).trans forkWake)

lemma schedExit : SameStates x s (s.schedExit M p) := by
  simp only [Sys.schedExit]
  split_ifs
  · exact (modTask rfl).trans (modTask rfl)
  · exact modTask rfl
  · exact modTask rfl
  · exact refl s

end SameStates

/-! ### Choosing -/

section

variable {M : Arch} {s s' : Sys} {o : Op} {p : Tid}

/-- `schedule` changes no state, but it forgives the running task a sleep that a signal ends. -/
lemma Inv.schedule_states (h : Inv s) (hs : s.schedule M = some s') (p : Tid) :
    (s'.task p).state = (s.task p).state ∨ (s'.task p).state = .running := by
  obtain ⟨s₁, next, heq, -, -, -, htask, -⟩ := h.schedule_cases M
  obtain rfl := Option.some.inj (heq.symm.trans hs)
  rw [((switchTo_frame s₁ next).2.2.2.1 p).state, htask]
  by_cases hp : p = s.curr
  · subst hp
    rcases schedulePrev_cases s with ⟨he, -⟩ | he | ⟨he, -⟩ <;> rw [he]
    · exact Or.inl (by rw [Sys.modTask_task_self])
    · exact Or.inr (by rw [Sys.modTask_task_self])
    · exact Or.inl (by rw [deactivateTask_self, Sys.modTask_task_self])
  · exact Or.inl (h.schedulePrev_quiet.kept p fun he => hp (Option.some.inj he).symm).state

/-- The task that `schedule` takes is running. -/
lemma Inv.schedule_state (h : Inv s) (hs : s.schedule M = some s') (hne : s'.curr ≠ s'.idle) :
    (s'.task s'.curr).state = .running := by
  obtain ⟨s₁, next, heq, hpick, -, hquiet, htask, -⟩ := h.schedule_cases M
  obtain rfl := Option.some.inj (heq.symm.trans hs)
  obtain ⟨s₂, next', s'', hpick', -, -, hcase⟩ := h.scheduleOk M
  obtain ⟨rfl, hn⟩ := Prod.mk.inj (hpick.symm.trans hpick')
  obtain rfl := Option.some.inj hn
  obtain ⟨-, hidle, hcurr, hkept, -⟩ := switchTo_frame s₁ next
  rw [hcurr, hidle, hquiet.idle] at hne
  rw [hcurr, (hkept next).state, htask]
  rcases hcase with ⟨-, hi⟩ | ⟨-, -, -, hch⟩
  · exact absurd hi hne
  · exact hch.runnable.2

/-! ### Every operation -/

/-- The operations by which the running task changes its own state. -/
def Op.setsState : Op → Bool
  | .setState _ => true
  | .exit _ => true
  | _ => false

/-- **Nobody puts another task to sleep.**  An operation leaves the state of a task or makes it
running, unless it is one by which the task changes its own state. -/
theorem exec_state (h : Inv s) (hs : s.exec M o = some s') (hp : s.Known p) :
    (s'.task p).state = (s.task p).state ∨ (s'.task p).state = .running
      ∨ p = s.curr ∧ o.setsState = true := by
  cases o with
  | elapse =>
      obtain rfl := Option.some.inj hs
      exact Or.inl rfl
  | tick =>
      obtain rfl := Option.some.inj hs
      exact Or.inl (SameStates.schedulerTick (x := none) p (by simp))
  | wake q =>
      obtain ⟨hq, hs⟩ := Option.ite_none_right_eq_some.mp hs
      obtain rfl := Option.some.inj hs
      by_cases hpq : p = q
      · exact Or.inr (Or.inl (hpq ▸ (tryToWakeUp_self M s p).2.1))
      · have hquiet := Quiet.tryToWakeUp (M := M) h.known_curr (Or.inl hq)
        exact Or.inl (hquiet.kept p fun he => hpq (Option.some.inj he).symm).state
  | signal q b =>
      obtain ⟨-, hs⟩ := Option.ite_none_right_eq_some.mp hs
      obtain rfl := Option.some.inj hs
      exact Or.inl (SameStates.modTask (x := none) rfl p (by simp))
  | setState st =>
      obtain ⟨-, hs⟩ := Option.ite_none_right_eq_some.mp hs
      obtain rfl := Option.some.inj hs
      by_cases hpc : p = s.curr
      · exact Or.inr (Or.inr ⟨hpc, rfl⟩)
      · exact Or.inl (by rw [Sys.modTask_task_of_ne _ _ _ hpc])
  | setCred u e c =>
      obtain ⟨-, hs⟩ := Option.ite_none_right_eq_some.mp hs
      obtain rfl := Option.some.inj hs
      exact Or.inl (SameStates.modTask (x := none) rfl p (by simp))
  | schedule => exact (h.schedule_states hs p).imp_right Or.inl
  | fork flags c =>
      obtain ⟨⟨-, hc⟩, hs⟩ := Option.ite_none_right_eq_some.mp hs
      have hpc : p ≠ c := fun he => hp.elim (fun ht => hc.1 (he ▸ ht.1)) fun hi => hc.2.1 (he ▸ hi)
      exact Or.inl (SameStates.doFork hc.2.2 hs p fun he => hpc (Option.some.inj he).symm)
  | nice q n =>
      obtain ⟨hq, hs⟩ := Option.ite_none_right_eq_some.mp hs
      obtain rfl := Option.some.inj hs
      exact Or.inl ((Quiet.setUserNice h.known_curr (Or.inl hq)).kept p (by simp)).state
  | setscheduler pid policy param =>
      obtain ⟨hin, hs⟩ := Option.ite_none_right_eq_some.mp hs
      obtain rfl := Option.some.inj hs
      rcases s.setscheduler_outcome M pid policy param with
        ⟨sp, e, heq⟩ | ⟨q, pol, lp, -, hfind, rfl, hout⟩
      · exact Or.inl (by rw [heq])
      · generalize s.setscheduler M pid policy (.readable lp) = y at hout
        cases hout with
        | refused sp e => exact Or.inl rfl
        | changed sp hacc =>
            set s₁ : Sys := { s with superpriv := sp } with hs₁
            have h₁ : Inv s₁ := ⟨h.toRqInv.of_counters, h.curr, h.awake⟩
            have hq : s₁.IsTask q := h.isTask_of_find hin.1 hfind
            have hquiet : Quiet (some q) s₁ (s₁.applyParams M q pol lp) :=
              Quiet.applyParams h₁.known_curr (Or.inl hq)
            by_cases hpq : p = q
            · exact Or.inl (hpq ▸ (applyParams_self M s₁ p pol lp).2.1)
            · exact Or.inl (hquiet.kept p fun he => hpq (Option.some.inj he).symm).state
  | yield =>
      obtain ⟨hin, hs⟩ := Option.ite_none_right_eq_some.mp hs
      have hquiet := Quiet.yieldQueue (M := M) h hin.1
      have hst := (h.yieldQueue (M := M) hin.1).schedule_states hs p
      rw [(hquiet.kept p (by simp)).state] at hst
      exact hst.imp_right Or.inl
  | exit r =>
      obtain ⟨-, hs⟩ := Option.ite_none_right_eq_some.mp hs
      obtain rfl := Option.some.inj hs
      by_cases hpc : p = s.curr
      · exact Or.inr (Or.inr ⟨hpc, rfl⟩)
      · have hquiet := Quiet.doExit h.toRqInv h.known_curr (r := r)
        exact Or.inl (hquiet.kept p fun he => hpc (Option.some.inj he).symm).state
  | reap q =>
      obtain ⟨-, hs⟩ := Option.ite_none_right_eq_some.mp hs
      obtain rfl := Option.some.inj hs
      exact Or.inl (SameStates.schedExit (x := none) p (by simp))

/-- An operation that ends in `schedule` leaves a running task on the processor, or the idle task. -/
lemma exec_switches (h : Inv s) (hs : s.exec M o = some s') (ho : o.switches = true)
    (hne : s'.curr ≠ s'.idle) : (s'.task s'.curr).state = .running := by
  cases o with
  | schedule => exact h.schedule_state hs hne
  | yield =>
      obtain ⟨hin, hs⟩ := Option.ite_none_right_eq_some.mp hs
      exact (h.yieldQueue (M := M) hin.1).schedule_state hs hne
  | _ => exact absurd ho Bool.false_ne_true

/-- A task that has not exited is not reaped. -/
lemma exec_isTask (h : Inv s) (hs : s.exec M o = some s') (hp : s.IsTask p)
    (hz : (s.task p).state ≠ .zombie) : s'.IsTask p := by
  have hstep := exec_step h hs
  obtain ⟨hlive, hidle⟩ := hp
  refine ⟨?_, by rw [hstep.idle]; exact hidle⟩
  rw [hstep.live]
  cases o with
  | fork flags c =>
      simp only [Op.liveAfter]
      by_cases hpc : p = c
      · rw [hpc, Function.update_self]
      · rw [Function.update_of_ne hpc]
        exact hlive
  | reap c =>
      obtain ⟨⟨-, hc⟩, -⟩ := Option.ite_none_right_eq_some.mp hs
      have hpc : p ≠ c := fun he => hz (he ▸ hc.2.2.1)
      simp only [Op.liveAfter, Function.update_of_ne hpc]
      exact hlive
  | _ => exact hlive

/-- **Nobody makes another task exit.** -/
lemma exec_alive (h : Inv s) (hs : s.exec M o = some s') (hp : s.IsTask p)
    (hz : (s.task p).state ≠ .zombie) (hex : ∀ r, o = .exit r → p ≠ s.curr) :
    s'.IsTask p ∧ (s'.task p).state ≠ .zombie := by
  refine ⟨exec_isTask h hs hp hz, ?_⟩
  rcases exec_state h hs (Or.inl hp) with he | he | ⟨hpc, he⟩
  · rw [he]
    exact hz
  · simp [he]
  · cases o with
    | exit r => exact absurd hpc (hex r rfl)
    | setState st =>
        obtain ⟨hg, hs⟩ := Option.ite_none_right_eq_some.mp hs
        obtain rfl := Option.some.inj hs
        rw [hpc, Sys.modTask_task_self]
        exact hg.2
    | _ => exact absurd he Bool.false_ne_true

end

end Os234123.Sched
