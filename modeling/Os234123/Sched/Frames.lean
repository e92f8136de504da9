import Os234123.Sched.ForkQueues

/-!
What an operation about one task leaves of all the others.

* `Alike`: place, class and slice of a task stay;
* `AlikeBut S`: so they do for every task outside `S`;
* `KeepsOthers S`: and with the tasks of `S` taken out, every queue is the same list;
* `Op.about`, `exec_keepsOthers`: the tasks an operation is about, and that it keeps the others;
* `FrameOk`, `reach_frameOk`: the operations one by one, in every reachable state, and the order
  of the tasks that no operation is about.
-/

namespace Os234123.Sched

open Buckets Machine

/-! ### Records -/

/-- The fields that say where a task stands, in what class, and for how long it may run. -/
structure Alike (t t' : Task) : Prop where
  prio : t'.prio = t.prio
  array : t'.array = t.array
  policy : t'.policy = t.policy
  isShort : t'.isShort = t.isShort
  timeSlice : t'.timeSlice = t.timeSlice

lemma Alike.refl (t : Task) : Alike t t := ⟨rfl, rfl, rfl, rfl, rfl⟩

lemma Alike.trans {t t' t'' : Task} (h : Alike t t') (h' : Alike t' t'') : Alike t t'' :=
  ⟨h'.prio.trans h.prio, h'.array.trans h.array, h'.policy.trans h.policy,
    h'.isShort.trans h.isShort, h'.timeSlice.trans h.timeSlice⟩

/-- Every task outside `S` keeps its place, class and slice. -/
def AlikeBut (S : List Tid) (s s' : Sys) : Prop := ∀ q, q ∉ S → Alike (s.task q) (s'.task q)

namespace AlikeBut

variable {M : Arch} {S : List Tid} {s s' s'' : Sys} {p : Tid}

lemma refl (s : Sys) : AlikeBut S s s := fun _ _ => Alike.refl _

lemma trans (h : AlikeBut S s s') (h' : AlikeBut S s' s'') : AlikeBut S s s'' :=
  fun q hq => (h q hq).trans (h' q hq)

lemma mono {T : List Tid} (h : AlikeBut S s s') (hST : S ⊆ T) : AlikeBut T s s' :=
  fun q hq => h q fun hm => hq (hST hm)

lemma of_task (h : s'.task = s.task) : AlikeBut S s s' := fun _ _ => h ▸ Alike.refl _

/-- An operation that changes the record of one task of `S`. -/
lemma of_others (hp : p ∈ S) (h : ∀ q, q ≠ p → s'.task q = s.task q) : AlikeBut S s s' :=
  fun q hq => h q (fun he => hq (he ▸ hp)) ▸ Alike.refl _

lemma modTask (f : Task → Task) (hp : p ∈ S) : AlikeBut S s (s.modTask p f) :=
  of_others hp fun _ hq => Sys.modTask_task_of_ne _ _ _ hq

/-- A change of other fields, of any task. -/
lemma modAlike {f : Task → Task} (hf : Alike (s.task p) (f (s.task p))) :
    AlikeBut S s (s.modTask p f) := fun q _ => by
  by_cases hq : q = p
  · rw [hq, Sys.modTask_task_self]
    exact hf
  · rw [Sys.modTask_task_of_ne _ _ _ hq]
    exact Alike.refl _

lemma reschedTask (s : Sys) (p : Tid) : AlikeBut S s (s.reschedTask p) :=
  modAlike ⟨rfl, rfl, rfl, rfl, rfl⟩

lemma enqueueAs (a : ArrayId) (l : List Tid) (hp : p ∈ S) : AlikeBut S s (s.enqueueAs p a l) :=
  of_others hp fun q hq => by rw [Sys.enqueueAs_task, Function.update_of_ne hq]

lemma activateTask (hp : p ∈ S) : AlikeBut S s (s.activateTask M p) :=
  of_others hp (s.activateTask_frame M p).task

lemma deactivateTask (hp : p ∈ S) : AlikeBut S s (s.deactivateTask p) :=
  of_others hp (s.deactivateTask_frame p).task

lemma schedulerTick (hc : s.curr ∈ S) : AlikeBut S s (s.schedulerTick M) :=
  of_others hc fun _ hq => Sys.schedulerTick_task_of_ne hq

/-! #### The operations -/

lemma tryToWakeUp (hp : p ∈ S) : AlikeBut S s (s.tryToWakeUp M p) := by
  have hact : ∀ n, AlikeBut S s (({ s with nrUninterruptible := n } : Sys).activateTask M p) :=
    fun n => by
      have hn : AlikeBut S s { s with nrUninterruptible := n } := of_task rfl
      exact hn.trans (activateTask hp)
  simp only [Sys.tryToWakeUp]
  cases (s.task p).array with
  | some a => exact modTask _ hp
  | none =>
      refine trans ?_ (modTask _ hp)
      split_ifs
      · exact (hact (s.nrUninterruptible - 1)).trans (reschedTask _ _)
      · exact hact (s.nrUninterruptible - 1)
      · exact (hact s.nrUninterruptible).trans (reschedTask _ _)
      · exact hact s.nrUninterruptible

lemma setUserNice (n : ℤ) (hp : p ∈ S) : AlikeBut S s (s.setUserNice p n) := by
  simp only [Sys.setUserNice]
  split_ifs
  · exact refl s
  · exact modTask _ hp
  · cases (s.task p).array with
    | none => exact modTask _ hp
    | some a =>
        have hdel : AlikeBut S s (s.dequeueTask p a) := of_task (Sys.dequeueTask_task s p a)
        have henq := (hdel.trans (modTask (Sys.renice n) hp)).trans (enqueueAs a
          ((((s.dequeueTask p a).modTask p (Sys.renice n)).arr a).queue
            (((s.dequeueTask p a).modTask p (Sys.renice n)).task p).prio ++ [p]) hp)
        dsimp only
        split_ifs
        · exact henq.trans (reschedTask _ _)
        · exact henq

lemma applyParams (pol : Policy) (lp : SchedParam) (hp : p ∈ S) :
    AlikeBut S s (s.applyParams M p pol lp) := by
  have hset : ∀ s₁ : Sys, AlikeBut S s₁ (s₁.changeParams M p pol lp) := fun s₁ => by
    simp only [Sys.changeParams]
    split_ifs
    · exact (reschedTask _ _).trans (modTask _ hp)
    · exact modTask _ hp
  simp only [Sys.applyParams]
  cases (s.task p).array with
  | none => exact hset s
  | some a => exact ((deactivateTask hp).trans (hset _)).trans (activateTask hp)

lemma yieldQueue (hc : s.curr ∈ S) : AlikeBut S s (s.yieldQueue M) := by
  simp only [Sys.yieldQueue]
  by_cases hsh : (s.task s.curr).policy = .short
  · rw [if_pos hsh]
    exact (deactivateTask hc).trans (activateTask hc)
  rw [if_neg hsh]
  cases (s.task s.curr).array with
  | none => exact refl s
  | some a =>
      dsimp only
      split_ifs
      · exact of_task rfl
      · exact of_task rfl
      · exact (modTask (s := s) (fun t => { t with prio := _ }) hc).trans (of_task rfl)

lemma schedulePrev (hc : s.curr ∈ S) : AlikeBut S s s.schedulePrev := by
  have h₁ : AlikeBut S s (s.modTask s.curr fun t => { t with sleepTimestamp := s.jiffies }) :=
    modTask _ hc
  rcases schedulePrev_cases s with ⟨heq, -⟩ | heq | ⟨heq, -⟩ <;> rw [heq]
  · exact h₁
  · exact h₁.trans (modTask _ hc)
  · exact h₁.trans (deactivateTask hc)

lemma switchTo (s : Sys) (next : Tid) : AlikeBut S s (s.switchTo next) := by
  have h₁ : AlikeBut S s (s.modTask s.curr fun t => { t with needResched := false }) :=
    modAlike ⟨rfl, rfl, rfl, rfl, rfl⟩
  simp only [Sys.switchTo]
  split_ifs
  · exact h₁
  · exact h₁.trans (of_task rfl)

lemma schedule (h : Inv s) (hc : s.curr ∈ S) (hs : s.schedule M = some s') : AlikeBut S s s' := by
  obtain ⟨s₁, next, heq, -, -, -, htask, -⟩ := h.schedule_cases M
  obtain rfl := Option.some.inj (heq.symm.trans hs)
  exact ((schedulePrev hc).trans (of_task htask)).trans (switchTo s₁ next)

/-! #### The fork -/

lemma cutSleepAvg (s : Sys) (c : Tid) : AlikeBut [s.curr, c] s (s.cutSleepAvg M c) := by
  have hf : s.curr ∈ [s.curr, c] := by simp
  have hc : c ∈ [s.curr, c] := by simp
  have h₁ := modTask (S := [s.curr, c]) (s := s) (fun t => { t with state := .running }) hc
  simp only [Sys.cutSleepAvg]
  split_ifs
  · exact h₁
  · exact ((h₁.trans (modTask _ hf)).trans (modTask _ hc)).trans (modTask _ hc)
  · exact (h₁.trans (modTask _ hf)).trans (modTask _ hc)

lemma queueShortChild {f c : Tid} (hf : f ∈ S) (hc : c ∈ S) :
    AlikeBut S s (s.queueShortChild M f c) := by
  set s₁ : Sys := { s.enqueueFirst c .shortActive with nrRunning := s.nrRunning + 1 } with hs₁
  have h₀ : AlikeBut S s (s.enqueueFirst c .shortActive) := enqueueAs _ _ hc
  have h₁ : AlikeBut S s s₁ := h₀.trans (of_task rfl)
  have h₂ : AlikeBut S s₁ (s₁.deactivateTask f) := deactivateTask hf
  have h₃ : AlikeBut S (s₁.deactivateTask f) ((s₁.deactivateTask f).activateTask M f) :=
    activateTask hf
  exact (h₁.trans h₂).trans h₃

lemma forkWake (s : Sys) (flags : ForkFlags) (c : Tid) :
    AlikeBut [s.curr, c] s (s.forkWake M flags c) := by
  have hf : s.curr ∈ [s.curr, c] := by simp
  have hc : c ∈ [s.curr, c] := by simp
  set s₁ := s.linkChild flags c with hs₁
  have h₁ : AlikeBut [s.curr, c] s s₁ := of_others hc fun q hq => linkChild_of_ne s flags hq
  have hcut : AlikeBut [s.curr, c] s (s₁.cutSleepAvg M c) := h₁.trans (cutSleepAvg s₁ c)
  have hwake : AlikeBut [s.curr, c] s (if (s₁.task s.curr).isShort = 1
      then s₁.wakeUpShortForkedProcess M s.curr c else s₁.wakeUpForkedProcess M c) := by
    simp only [Sys.wakeUpShortForkedProcess, Sys.wakeUpForkedProcess]
    split_ifs
    · exact h₁
    · exact hcut.trans (queueShortChild hf hc)
    · exact hcut.trans (activateTask hc)
  simp only [Sys.forkWake, ← hs₁]
  split_ifs at hwake ⊢
  · exact hwake
  · exact hwake
  · exact hwake.trans (reschedTask _ _)
  · exact hwake.trans (reschedTask _ _)

/-- **A fork is about the parent and the child.** -/
lemma doFork {flags : ForkFlags} {c : Tid} (hs : s.doFork M flags c = some s') :
    AlikeBut [s.curr, c] s s' := by
  have hf : s.curr ∈ [s.curr, c] := by simp
  have hc : c ∈ [s.curr, c] := by simp
  obtain ⟨s₁, hshare, rfl⟩ := Option.map_eq_some_iff.mp hs
  have h₀ : AlikeBut [s.curr, c] s (s.forkCopy c) := modTask _ hc
  have hcurr : s₁.curr = s.curr ∧ AlikeBut [s.curr, c] s s₁ := by
    simp only [Sys.forkShare] at hshare
    split_ifs at hshare
    · obtain rfl := Option.some.inj hshare
      refine ⟨Sys.schedulerTick_frame.1, ?_⟩
      exact (((h₀.trans (modTask _ hc)).trans (modTask _ hf)).trans (modTask _ hf)).trans
        (schedulerTick hf)
    · obtain rfl := Option.some.inj hshare
      exact ⟨rfl, (h₀.trans (modTask _ hc)).trans (modTask _ hf)⟩
  have hwake := forkWake (M := M) s₁ flags c
  rw [hcurr.1] at hwake
  exact hcurr.2.trans hwake

end AlikeBut

/-! ### Queues -/

/-- The tasks outside `S` keep place, class and slice, and with the tasks of `S` taken out every
queue is the same list. -/
structure KeepsOthers (S : List Tid) (s s' : Sys) : Prop where
  records : AlikeBut S s s'
  queues : ∀ k, (s'.queueAt k).filter (· ∉ S) = (s.queueAt k).filter (· ∉ S)

namespace KeepsOthers

variable {M : Arch} {S : List Tid} {s s' s'' : Sys} {p a b : Tid}

lemma trans (h : KeepsOthers S s s') (h' : KeepsOthers S s' s'') : KeepsOthers S s s'' :=
  ⟨h.records.trans h'.records, fun k => (h'.queues k).trans (h.queues k)⟩

lemma mono {T : List Tid} (h : KeepsOthers S s s') (hST : S ⊆ T) : KeepsOthers T s s' := by
  refine ⟨h.records.mono hST, fun k => ?_⟩
  have hT : ∀ l : List Tid, l.filter (· ∉ T) = (l.filter (· ∉ S)).filter (· ∉ T) := fun l => by
    rw [List.filter_filter]
    refine List.filter_congr fun x _ => Bool.eq_iff_iff.mpr ?_
    simpa using fun hx hm => hx (hST hm)
  rw [hT, h.queues k, ← hT]

/-- An operation that moves nobody. -/
lemma of_still (hr : AlikeBut S s s') (harr : s'.arr = s.arr) : KeepsOthers S s s' :=
  ⟨hr, fun k => by rw [Sys.queueAt_of_arr harr]⟩

/-- An operation that moves one task. -/
lemma of_without (h : RqInv s) (h' : RqInv s') (hr : AlikeBut [p] s s')
    (hq : without p s'.queueAt = without p s.queueAt) : KeepsOthers [p] s s' := by
  refine ⟨hr, fun k => ?_⟩
  rw [filter_notMem_singleton (h'.queues.located.nodup k),
    filter_notMem_singleton (h.queues.located.nodup k)]
  exact congrFun hq k

/-- Two tasks an operation is not about keep their order. -/
lemma ahead (h : KeepsOthers S s s') (ha : a ∉ S) (hb : b ∉ S) {k : ArrayId × ℕ}
    (hab : Ahead a b (s.queueAt k)) : Ahead a b (s'.queueAt k) := by
  have ha' : decide (a ∉ S) = true := decide_eq_true ha
  have hb' : decide (b ∉ S) = true := decide_eq_true hb
  rw [← Ahead.filter_iff (p := fun x => decide (x ∉ S)) ha' hb', h.queues k]
  exact (Ahead.filter_iff (p := fun x => decide (x ∉ S)) ha' hb').mpr hab

/-! #### The operations -/

lemma tryToWakeUp (h : Inv s) (hp : s.IsTask p) : KeepsOthers [p] s (s.tryToWakeUp M p) :=
  of_without h.toRqInv (h.toRqInv.tryToWakeUp hp) (.tryToWakeUp (by simp))
    ((Moved.tryToWakeUp h.toRqInv).2.without h.toRqInv)

lemma setUserNice (h : Inv s) (hp : s.IsTask p) (n : ℤ) : KeepsOthers [p] s (s.setUserNice p n) :=
  of_without h.toRqInv (h.toRqInv.setUserNice hp) (.setUserNice n (by simp))
    ((Moved.setUserNice h.toRqInv n).2.without h.toRqInv)

lemma schedulerTick (h : Inv s) : KeepsOthers [s.curr] s (s.schedulerTick M) := by
  refine of_without h.toRqInv h.toRqInv.schedulerTick (.schedulerTick (by simp)) ?_
  rcases queueAt_schedulerTick (M := M) h.toRqInv with hq | ⟨-, -, k, hq⟩
  · rw [hq]
  · rw [hq, without_sendTo h.queues.located.nodup]

lemma yieldQueue (h : Inv s) (hc : s.curr ≠ s.idle) : KeepsOthers [s.curr] s (s.yieldQueue M) :=
  of_without h.toRqInv (h.yieldQueue hc).toRqInv (.yieldQueue (by simp))
    ((Moved.yieldQueue h hc).without h.toRqInv)

/-- `setscheduler` is about the task it finds, if it finds one. -/
lemma setscheduler (h : Inv s) (hc : s.curr ≠ s.idle) (pid policy : ℤ) (param : ParamPtr) :
    KeepsOthers (s.findProcessByPid pid).toList s (s.setscheduler M pid policy param).1 := by
  rcases s.setscheduler_outcome M pid policy param with
    ⟨sp, e, heq⟩ | ⟨p, pol, lp, -, hfind, rfl, hout⟩
  · rw [heq]
    exact of_still (.of_task rfl) rfl
  rw [hfind]
  generalize s.setscheduler M pid policy (.readable lp) = x at hout
  cases hout with
  | refused sp e => exact of_still (.of_task rfl) rfl
  | changed sp hacc =>
      have h₁ : Inv ({ s with superpriv := sp } : Sys) := ⟨h.toRqInv.of_counters, h.curr, h.awake⟩
      have hp : s.IsTask p := h.isTask_of_find hc hfind
      have hreg := regular_of_not_badShort (h.tasks p hp) hacc.short
      have hk : KeepsOthers [p] ({ s with superpriv := sp } : Sys)
          (({ s with superpriv := sp } : Sys).applyParams M p pol lp) :=
        of_without h₁.toRqInv (h₁.toRqInv.applyParams hp hreg) (.applyParams pol lp (by simp))
          ((Moved.applyParams h₁.toRqInv hp hreg).without h₁.toRqInv)
      exact ⟨hk.records, hk.queues⟩

/-- The end of the running process is about nobody in a queue. -/
lemma doExit (r : Tid) : KeepsOthers [] s (s.doExit r) := by
  have horphan : AlikeBut [] s (s.forgetOriginalParent r) := fun q _ => by
    simp only [Sys.forgetOriginalParent]
    split_ifs <;> exact ⟨rfl, rfl, rfl, rfl, rfl⟩
  exact of_still (horphan.trans (.modAlike ⟨rfl, rfl, rfl, rfl, rfl⟩)) rfl

/-- Reaping a child is about its parent, who may get the rest of its slice. -/
lemma schedExit (M : Arch) (s : Sys) (p : Tid) : KeepsOthers [s.curr] s (s.schedExit M p) := by
  simp only [Sys.schedExit]
  split_ifs
  · exact of_still ((AlikeBut.modTask _ (by simp)).trans (.modTask _ (by simp))) rfl
  · exact of_still (.modTask _ (by simp)) rfl
  · exact of_still (.modTask _ (by simp)) rfl
  · exact of_still (.refl s) rfl

/-- **A fork is about the parent and the child.** -/
lemma fork {flags : ForkFlags} {c : Tid} (h : Inv s) (hs : s.exec M (.fork flags c) = some s') :
    KeepsOthers [s.curr, c] s s' := by
  have h' := (exec_step h hs).inv
  have hq := fork_without h hs
  refine ⟨?_, fun k => ?_⟩
  · simp only [Sys.exec] at hs
    split_ifs at hs
    exact .doFork hs
  · rw [filter_notMem_pair (h'.queues.located.nodup k), filter_notMem_pair (h.queues.located.nodup k)]
    exact congrFun hq k

end KeepsOthers

/-! ### Rescheduling -/

/-- What `schedule` does: it takes the running task off its queue at most, and exchanges the roles
of the two ordinary arrays at most. -/
structure OnlyRemoves (s s' : Sys) : Prop where
  prev : (s'.queueAt = s.queueAt ∧ Alike (s.task s.curr) (s'.task s.curr))
    ∨ ((s.task s.curr).state ≠ .running ∧ s'.queueAt = without s.curr s.queueAt
      ∧ Alike { s.task s.curr with array := none } (s'.task s.curr))
  roles : (s'.active = s.active ∧ s'.expired = s.expired)
    ∨ (s'.active = s.expired ∧ s'.expired = s.active)
  others : AlikeBut [s.curr] s s'

section

variable {M : Arch} {s s' : Sys}

/-- The roles of the arrays in the course of `schedule`. -/
lemma schedule_roles (h : Inv s) (hs : s.schedule M = some s') :
    (s'.active = s.active ∧ s'.expired = s.expired)
      ∨ (s'.active = s.expired ∧ s'.expired = s.active) := by
  obtain ⟨s₁, next, heq, hpick, -, -, -, -⟩ := h.schedule_cases M
  obtain rfl := Option.some.inj (heq.symm.trans hs)
  have hprev : s.schedulePrev.active = s.active ∧ s.schedulePrev.expired = s.expired := by
    rcases schedulePrev_cases s with ⟨hp, -⟩ | hp | ⟨hp, -⟩ <;> rw [hp]
    · exact ⟨rfl, rfl⟩
    · exact ⟨rfl, rfl⟩
    · exact ⟨(Sys.deactivateTask_frame _ _).active, (Sys.deactivateTask_frame _ _).expired⟩
  have hswitch : (s₁.switchTo next).active = s₁.active ∧ (s₁.switchTo next).expired = s₁.expired := by
    simp only [Sys.switchTo]
    split_ifs <;> exact ⟨rfl, rfl⟩
  have hs₁ : s₁ = (s.schedulePrev.pickNext M).1 := by rw [hpick]
  rw [hswitch.1, hswitch.2, ← hprev.1, ← hprev.2, hs₁]
  simp only [Sys.pickNext, Sys.switchArrays]
  split_ifs
  · exact Or.inl ⟨rfl, rfl⟩
  · exact Or.inr ⟨rfl, rfl⟩
  · exact Or.inl ⟨rfl, rfl⟩

/-- The running task stays where it is or leaves its queue. -/
lemma schedulePrev_prev (h : Inv s) :
    (s.schedulePrev.queueAt = s.queueAt ∧ Alike (s.task s.curr) (s.schedulePrev.task s.curr))
      ∨ ((s.task s.curr).state ≠ .running ∧ s.schedulePrev.queueAt = without s.curr s.queueAt
        ∧ Alike { s.task s.curr with array := none } (s.schedulePrev.task s.curr)) := by
  have h₁ := h.stamp
  rcases schedulePrev_cases s with ⟨heq, -⟩ | heq | ⟨heq, hst⟩ <;> rw [heq]
  · refine Or.inl ⟨rfl, ?_⟩
    rw [Sys.modTask_task_self]
    exact ⟨rfl, rfl, rfl, rfl, rfl⟩
  · refine Or.inl ⟨rfl, ?_⟩
    rw [Sys.modTask_task_self, Sys.modTask_task_self]
    exact ⟨rfl, rfl, rfl, rfl, rfl⟩
  · refine Or.inr ⟨hst, (h₁.toRqInv.queueAt_deactivate s.curr).trans ?_, ?_⟩
    · rw [Sys.queueAt_of_arr (Sys.modTask_arr _ _ _)]
    · rw [deactivateTask_self, Sys.modTask_task_self]
      exact ⟨rfl, rfl, rfl, rfl, rfl⟩

/-- **`schedule` only removes the running task or exchanges the arrays.** -/
theorem schedule_onlyRemoves (h : Inv s) (hs : s.schedule M = some s') : OnlyRemoves s s' := by
  refine ⟨?_, schedule_roles h hs, .schedule h (by simp) hs⟩
  rw [Sys.queueAt_of_arr (schedule_arr h hs)]
  obtain ⟨s₁, next, heq, -, -, -, htask, -⟩ := h.schedule_cases M
  obtain rfl := Option.some.inj (heq.symm.trans hs)
  have hself : Alike (s.schedulePrev.task s.curr) ((s₁.switchTo next).task s.curr) :=
    htask ▸ AlikeBut.switchTo (S := []) s₁ next s.curr (by simp)
  rcases schedulePrev_prev h with ⟨hq, hp⟩ | ⟨hst, hq, hp⟩
  · exact Or.inl ⟨hq, hp.trans hself⟩
  · exact Or.inr ⟨hst, hq, hp.trans hself⟩

end

/-! ### Every operation -/

/-- The tasks an operation is about; `schedule` is about the running task if that one is to leave
its queue. -/
def Op.about (s : Sys) : Op → List Tid
  | .tick => [s.curr]
  | .wake p => [p]
  | .schedule => if (s.task s.curr).state = .running then [] else [s.curr]
  | .fork _ c => [s.curr, c]
  | .nice p _ => [p]
  | .setscheduler pid _ _ => (s.findProcessByPid pid).toList
  | .yield => [s.curr]
  | .reap _ => [s.curr]
  | _ => []

section

variable {M : Arch} {s s' : Sys} {o : Op} {a b : Tid} {k : ArrayId × ℕ}

/-- While the running task stays runnable, `schedule` leaves every queue alone. -/
lemma schedule_keepsOthers (h : Inv s) (hs : s.schedule M = some s') :
    KeepsOthers (Op.schedule.about s) s s' := by
  have honly := schedule_onlyRemoves h hs
  have hstill : s'.queueAt = s.queueAt → Alike (s.task s.curr) (s'.task s.curr) →
      KeepsOthers (Op.schedule.about s) s s' := fun hq hself => by
    refine ⟨fun q _ => ?_, fun k => by rw [hq]⟩
    by_cases hqc : q = s.curr
    · exact hqc ▸ hself
    · exact honly.others q (by simpa using hqc)
  rcases honly.prev with ⟨hq, hself⟩ | ⟨hst, hq, -⟩
  · exact hstill hq hself
  · rw [Op.about, if_neg hst]
    obtain ⟨s₁, hs₁, h', -⟩ := h.schedule M
    obtain rfl := Option.some.inj (hs₁.symm.trans hs)
    refine .of_without h.toRqInv h'.toRqInv honly.others ?_
    rw [hq, h.queues.located.without_without]

/-- **An operation keeps the tasks it is not about.** -/
theorem exec_keepsOthers (h : Inv s) (hs : s.exec M o = some s') :
    KeepsOthers (o.about s) s s' := by
  cases o with
  | elapse =>
      obtain rfl := Option.some.inj hs
      exact .of_still (.of_task rfl) rfl
  | tick =>
      obtain rfl := Option.some.inj hs
      exact .schedulerTick h
  | wake p =>
      simp only [Sys.exec] at hs
      split_ifs at hs with hp
      obtain rfl := Option.some.inj hs
      exact .tryToWakeUp h hp
  | signal p pending =>
      simp only [Sys.exec] at hs
      split_ifs at hs
      obtain rfl := Option.some.inj hs
      exact .of_still (.modAlike ⟨rfl, rfl, rfl, rfl, rfl⟩) rfl
  | setState st =>
      simp only [Sys.exec] at hs
      split_ifs at hs
      obtain rfl := Option.some.inj hs
      exact .of_still (.modAlike ⟨rfl, rfl, rfl, rfl, rfl⟩) rfl
  | setCred u e c =>
      simp only [Sys.exec] at hs
      split_ifs at hs
      obtain rfl := Option.some.inj hs
      exact .of_still (.modAlike ⟨rfl, rfl, rfl, rfl, rfl⟩) rfl
  | schedule => exact schedule_keepsOthers h hs
  | fork flags c => exact .fork h hs
  | nice p n =>
      simp only [Sys.exec] at hs
      split_ifs at hs with hp
      obtain rfl := Option.some.inj hs
      exact .setUserNice h hp n
  | setscheduler pid policy param =>
      simp only [Sys.exec] at hs
      split_ifs at hs with hp
      obtain rfl := Option.some.inj hs
      exact .setscheduler h hp.1 pid policy param
  | yield =>
      simp only [Sys.exec] at hs
      split_ifs at hs with hp
      have hy := KeepsOthers.yieldQueue (M := M) h hp.1
      have hcurr := (Quiet.yieldQueue (M := M) h hp.1).curr
      have hk := schedule_keepsOthers (h.yieldQueue hp.1) hs
      refine hy.trans (hk.mono ?_)
      rw [Op.about, hcurr]
      split_ifs <;> simp
  | exit r =>
      simp only [Sys.exec] at hs
      split_ifs at hs
      obtain rfl := Option.some.inj hs
      exact .doExit r
  | reap p =>
      simp only [Sys.exec] at hs
      split_ifs at hs
      obtain rfl := Option.some.inj hs
      have hexit := KeepsOthers.schedExit M s p
      exact ⟨hexit.records, hexit.queues⟩

/-- **Who no operation is about keeps the order.** -/
theorem ahead_of_run (h : Inv s) {ops : List Op}
    (hok : Along (Sys.exec M) (fun s o => a ∉ o.about s ∧ b ∉ o.about s) ops s)
    (hrun : run (Sys.exec M) ops s = some s') (hab : Ahead a b (s.queueAt k)) :
    Ahead a b (s'.queueAt k) := by
  have hboth : Inv s' ∧ Ahead a b (s'.queueAt k) :=
    run_induct_along (P := fun s => Inv s ∧ Ahead a b (s.queueAt k))
      (fun s o s' hi ho hs => ⟨(exec_step hi.1 hs).inv,
        (exec_keepsOthers hi.1 hs).ahead ho.1 ho.2 hi.2⟩) ⟨h, hab⟩ hok hrun
  exact hboth.2

/-- Each operation about a task `p` keeps all the others, a fork all but the running task and its
child, and `schedule` only removes the running task or exchanges the arrays; so the tasks that no
operation is about stay in their order. -/
structure FrameOk (M : Arch) (s : Sys) : Prop where
  wake : ∀ p, s.IsTask p → KeepsOthers [p] s (s.tryToWakeUp M p)
  nice : ∀ p n, s.IsTask p → KeepsOthers [p] s (s.setUserNice p n)
  setscheduler : s.InProcess → ∀ pid policy param,
    KeepsOthers (s.findProcessByPid pid).toList s (s.setscheduler M pid policy param).1
  yield : s.InProcess → KeepsOthers [s.curr] s (s.yieldQueue M)
  tick : KeepsOthers [s.curr] s (s.schedulerTick M)
  fork : ∀ flags c s', s.exec M (.fork flags c) = some s' → KeepsOthers [s.curr, c] s s'
  schedule : ∀ s', s.schedule M = some s' → OnlyRemoves s s'
  order : ∀ (ops : List Op) (s' : Sys) (a b : Tid) (k : ArrayId × ℕ),
    Along (Sys.exec M) (fun s o => a ∉ o.about s ∧ b ∉ o.about s) ops s →
    run (Sys.exec M) ops s = some s' → Ahead a b (s.queueAt k) → Ahead a b (s'.queueAt k)

/-- **Every operation keeps the tasks it is not about**, in every reachable state. -/
theorem reach_frameOk {ops : List Op} (hrun : run (Sys.exec M) ops (Sys.booted M) = some s) :
    FrameOk M s := by
  have h := reach_inv hrun
  exact {
    wake := fun p hp => .tryToWakeUp h hp
    nice := fun p n hp => .setUserNice h hp n
    setscheduler := fun hin pid policy param => .setscheduler h hin.1 pid policy param
    yield := fun hin => .yieldQueue h hin.1
    tick := .schedulerTick h
    fork := fun flags c s' hs => .fork h hs
    schedule := fun s' hs => schedule_onlyRemoves h hs
    order := fun ops s' a b k hok hrun hab => ahead_of_run h hok hrun hab }

end

theorem frameOk_shortParentRun : ∃ s,
    run (Sys.exec .hz100) shortParentRun (Sys.booted .hz100) = some s ∧ FrameOk .hz100 s := by
  obtain ⟨s, hs⟩ := Option.isSome_iff_exists.mp (by decide +kernel :
    (run (Sys.exec .hz100) shortParentRun (Sys.booted .hz100)).isSome = true)
  exact ⟨s, hs, reach_frameOk hs⟩

end Os234123.Sched
