import Os234123.Lib.Progress
import Os234123.Sched.Patience
import Os234123.Sched.Priorities
import Os234123.Sched.Wellformed

/-!
Ordinary tasks do not starve: as long as nobody sleeps, wakes or makes a call, each gets the
processor over and over.

* `timerRound`: a timer interrupt, and `schedule` on the way back to user mode if it is asked for;
* `Crowd`: the tasks that compute, none of them real-time, and one of them ordinary;
* `OnTurn`: the running task stands where `schedule` takes tasks from;
* `Crowd.tick`: a tick lowers the sum of the weights, unless the ordinary task is the one that runs;
* `Crowd.schedule`: `schedule` leaves the sum as it is, also where it exchanges the arrays;
* `served_of_run`: the bound.
-/

namespace Os234123.Sched

open Machine

namespace Sys

variable (M : Arch)

/-- `ret_from_sys_call`: `schedule`, as long as the process that runs has been asked to call it, and
so many times at most. -/
def retFromSysCall : ℕ → Sys → Option Sys
  | 0, s => if (s.task s.curr).needResched then none else some s
  | n + 1, s =>
      if (s.task s.curr).needResched then (s.schedule M).bind (retFromSysCall n) else some s

/-- A timer interrupt of a process in user mode: `do_timer` counts it, `update_process_times` calls
`scheduler_tick`, and `ret_from_intr` goes to `ret_from_sys_call`.  Two passes of `schedule` are
enough there. -/
def timerRound (s : Sys) : Option Sys :=
  (({ s with jiffies := s.jiffies + 1 } : Sys).schedulerTick M).retFromSysCall M 2

end Sys

/-! ### The tasks that compute -/

/-- A task that goes on computing: it is queued and runnable, and it has a slice, unless it is
overdue. -/
structure Fit (M : Arch) (t : Task) : Prop where
  queued : t.array ≠ none
  running : t.state = .running
  usual : t.policy = .other ∨ t.policy = .short
  slice : ¬ t.IsOverdue → 1 ≤ t.timeSlice ∧ t.timeSlice ≤ 7 * M.HZ

/-- The tasks `T` compute, and no others; `q` is an ordinary one. -/
structure Crowd (M : Arch) (T : Finset Tid) (q : Tid) (s : Sys) : Prop extends Inv s where
  avg : AvgOk M s
  fit : ∀ p ∈ T, Fit M (s.task p)
  others : ∀ p ∉ T, (s.task p).array = none
  mem : q ∈ T
  ordinary : (s.task q).policy = .other
  curr_mem : s.curr ∈ T

/-- The running task stands where `schedule` takes ordinary and regular SHORT tasks from. -/
def OnTurn (s : Sys) : Prop :=
  (s.task s.curr).policy = .other ∧ (s.task s.curr).array = some s.active
    ∨ (s.task s.curr).IsRegular ∧ (s.task s.curr).array = some .shortActive

/-- How many ticks `q` can have to wait. -/
def burden (M : Arch) (T : Finset Tid) (q : Tid) (s : Sys) : ℕ :=
  ∑ p ∈ T, weight M s.active (decide ((s.task q).array ≠ some s.active)) (s.task p)

/-- The fields the rounds read are the same. -/
structure SameWork (t t' : Task) : Prop extends SameCore t t' where
  array : t'.array = t.array
  state : t'.state = t.state
  sleepAvg : t'.sleepAvg = t.sleepAvg

lemma SameWork.refl (t : Task) : SameWork t t := ⟨SameCore.refl t, rfl, rfl, rfl⟩

lemma SameWork.trans {t t' t'' : Task} (h : SameWork t t') (h' : SameWork t' t'') : SameWork t t'' :=
  ⟨h.toSameCore.trans h'.toSameCore, h'.array.trans h.array, h'.state.trans h.state,
    h'.sleepAvg.trans h.sleepAvg⟩

lemma SameWork.weight {M : Arch} {t t' : Task} (h : SameWork t t') (active : ArrayId) (both : Bool) :
    weight M active both t' = weight M active both t := by
  simp only [Sched.weight, patience, h.array, h.policy, h.isShort, h.timeSlice, h.sleepAvg]

lemma Fit.congr {M : Arch} {t t' : Task} (h : Fit M t) (hs : SameWork t t') : Fit M t' := by
  refine ⟨hs.array ▸ h.queued, hs.state ▸ h.running, hs.policy ▸ h.usual, fun ho => ?_⟩
  rw [hs.timeSlice]
  exact h.slice fun ho' => ho ⟨hs.policy ▸ ho'.1, hs.isShort ▸ ho'.2⟩

lemma OnTurn.not_overdue {s : Sys} (h : OnTurn s) : ¬ (s.task s.curr).IsOverdue := by
  rintro ⟨hp, ho⟩
  rcases h with ⟨hp', -⟩ | ⟨hr, -⟩
  · rw [hp] at hp'
    exact absurd hp' (by decide)
  · have := hr.2
    rw [ho] at this
    exact absurd this (by decide)

lemma Arch.slice_lt (M : Arch) {n : ℕ} (h : n ≤ 7 * M.HZ) : n < uintSize := by
  have := M.HZ_lt
  simp only [uintSize]
  omega

/-! ### A tick -/

namespace Crowd

variable {M : Arch} {T : Finset Tid} {q : Tid} {s s' : Sys}

lemma curr_ne_idle (h : Crowd M T q s) : s.curr ≠ s.idle := fun hi =>
  (h.fit _ h.curr_mem).queued (hi ▸ h.toRqInv.idle_array)

/-- The slice of the running task. -/
lemma slice_curr (h : Crowd M T q s) (ht : OnTurn s) :
    1 ≤ (s.task s.curr).timeSlice ∧ (s.task s.curr).timeSlice < uintSize := by
  obtain ⟨hpos, hle⟩ := (h.fit _ h.curr_mem).slice ht.not_overdue
  exact ⟨hpos, M.slice_lt hle⟩

/-- What a tick leaves of the running task: unless it is asked to call `schedule`, it stays where it
is. -/
lemma tick_curr (hz : 100 ≤ M.HZ) (h : Crowd M T q s) (ht : OnTurn s) :
    Fit M ((s.schedulerTick M).task s.curr)
      ∧ ((s.schedulerTick M).task s.curr).policy = (s.task s.curr).policy
      ∧ (((s.schedulerTick M).task s.curr).needResched = false →
        ((s.schedulerTick M).task s.curr).array = (s.task s.curr).array
          ∧ ((s.schedulerTick M).task s.curr).isShort = (s.task s.curr).isShort) := by
  have hfit := h.fit _ h.curr_mem
  have hst := (h.tasks _ (h.queued _ hfit.queued)).static.1
  obtain ⟨hpos, hlt⟩ := h.slice_curr ht
  have hslice := (hfit.slice ht.not_overdue).2
  rcases ht with ⟨hp, ha⟩ | ⟨hp, ha⟩
  · have htick := tick_other (M := M) h.toRqInv h.curr_ne_idle ha hp hpos hlt
    generalize (s.schedulerTick M).task s.curr = t' at htick ⊢
    rcases htick with ⟨h1, rfl⟩ | ⟨h1, a, rfl, -⟩
    · exact ⟨⟨hfit.queued, hfit.running, hfit.usual, fun _ => ⟨by dsimp only; omega,
        by dsimp only; omega⟩⟩, rfl, fun _ => ⟨rfl, rfl⟩⟩
    · refine ⟨⟨Option.some_ne_none _, hfit.running, hfit.usual, fun _ => ?_⟩, rfl, fun hno => ?_⟩
      · obtain ⟨hmin, hmax⟩ := (s.task s.curr).timeslice_bounds M hst
        show 1 ≤ (s.task s.curr).timeslice M ∧ (s.task s.curr).timeslice M ≤ 7 * M.HZ
        simp only [Arch.minTimeslice, Arch.maxTimeslice] at hmin hmax
        omega
      · exact absurd hno (by simp [Sys.refillOther])
  · have htick := tick_regular (M := M) h.toRqInv h.curr_ne_idle ha hp hpos hlt
    generalize (s.schedulerTick M).task s.curr = t' at htick ⊢
    rcases htick with ⟨h1, rfl⟩ | ⟨h1, rfl⟩
    · exact ⟨⟨hfit.queued, hfit.running, hfit.usual, fun _ => ⟨by dsimp only; omega,
        by dsimp only; omega⟩⟩, rfl, fun _ => ⟨rfl, rfl⟩⟩
    · refine ⟨⟨Option.some_ne_none _, hfit.running, hfit.usual, fun ho => ?_⟩, rfl, fun hno => ?_⟩
      · exact absurd ⟨hp.1, rfl⟩ ho
      · exact absurd hno (by simp [Sys.turnOverdue])

/-- **A tick** of a task on its turn: the crowd stays, the task keeps its turn unless it is asked to
call `schedule`, and unless it is `q` the burden drops. -/
lemma tick (hz : 100 ≤ M.HZ) (h : Crowd M T q s) (ht : OnTurn s) :
    Crowd M T q (s.schedulerTick M)
      ∧ (((s.schedulerTick M).task s.curr).needResched = false → OnTurn (s.schedulerTick M))
      ∧ (s.curr ≠ q → burden M T q (s.schedulerTick M) < burden M T q s) := by
  obtain ⟨hcurr, -, -, hact, -, -⟩ := Sys.schedulerTick_frame (M := M) (s := s)
  obtain ⟨hfit, hpol, hstay⟩ := h.tick_curr hz ht
  have hne : ∀ p, p ≠ s.curr → (s.schedulerTick M).task p = s.task p := fun p hp =>
    Sys.schedulerTick_task_of_ne hp
  have h' : Inv (s.schedulerTick M) := (exec_step (o := .tick) h.toInv rfl).inv
  have havg : AvgOk M (s.schedulerTick M) := Each.schedulerTick (durable_avg M) h.avg
  refine ⟨⟨h', havg, fun p hp => ?_, fun p hp => ?_, h.mem, ?_, hcurr ▸ h.curr_mem⟩,
    fun hno => ?_, fun hq => ?_⟩
  · by_cases hpc : p = s.curr
    · exact hpc ▸ hfit
    · rw [hne p hpc]
      exact h.fit p hp
  · rw [hne p fun hpc => hp (hpc ▸ h.curr_mem)]
    exact h.others p hp
  · by_cases hqc : q = s.curr
    · rw [hqc, hpol, ← hqc]
      exact h.ordinary
    · rw [hne q hqc]
      exact h.ordinary
  · obtain ⟨ha, his⟩ := hstay hno
    rw [OnTurn, Task.IsRegular, hcurr, hact, ha, his, hpol]
    exact ht
  · rw [burden, burden, hact, hne q hq.symm]
    obtain ⟨hpos, hlt⟩ := h.slice_curr ht
    refine sum_lt_of_one h.curr_mem ?_ fun p _ hpc => (congrArg _ (hne p hpc)).le
    rcases ht with ⟨hp, ha⟩ | ⟨hp, ha⟩
    · exact weight_tick_other hz h.toRqInv h.curr_ne_idle ha hp hpos hlt _
    · exact weight_tick_regular h.toRqInv h.curr_ne_idle ha hp hpos hlt _

end Crowd

/-! ### A pass of `schedule` -/

section

variable {M : Arch} {s s' : Sys} {q : Tid}

lemma switchTo_task (s : Sys) (next p : Tid) :
    ∃ b, (s.switchTo next).task p = { s.task p with needResched := b } := by
  have hmod : ∃ b, (s.modTask s.curr fun t => { t with needResched := false }).task p
      = { s.task p with needResched := b } := by
    by_cases hp : p = s.curr
    · exact ⟨false, by rw [hp, Sys.modTask_task_self]⟩
    · exact ⟨_, Sys.modTask_task_of_ne _ _ _ hp⟩
  simp only [Sys.switchTo]
  split_ifs <;> exact hmod

lemma switchTo_rq (s : Sys) (next : Tid) : (s.switchTo next).active = s.active
    ∧ (s.switchTo next).arr = s.arr ∧ (s.switchTo next).nrRunning = s.nrRunning := by
  simp only [Sys.switchTo]
  split_ifs <;> exact ⟨rfl, rfl, rfl⟩

lemma pickArray_cases (M : Arch) (s : Sys) : s.pickArray M = .shortActive
    ∨ s.pickArray M = .overdue ∨ s.pickArray M = s.active := by
  simp only [Sys.pickArray]
  split_ifs <;> simp

/-- Where an ordinary task is queued. -/
lemma RqInv.other_array (h : RqInv s) (hq : (s.task q).array ≠ none)
    (hp : (s.task q).policy = .other) :
    (s.task q).array = some s.active ∨ (s.task q).array = some s.expired := by
  rcases (h.tasks q (h.queued q hq)).markers with ⟨h1, -⟩ | ⟨h1, -⟩ | ⟨-, -, h1⟩
  · rw [hp] at h1
    exact absurd h1 (by decide)
  · rw [hp] at h1
    exact absurd h1 (by decide)
  · exact h1.resolve_left hq

/-- **The choice while an ordinary task is queued and no real-time task is.** -/
lemma Inv.schedule_onTurn (h : Inv s) (hs : s.schedule M = some s') (hq : (s'.task q).array ≠ none)
    (hother : (s'.task q).policy = .other)
    (hrt : ∀ p, (s'.task p).array ≠ none → ¬ (s'.task p).IsRt) :
    OnTurn s' ∧ (s'.task s'.curr).state = .running := by
  obtain ⟨s₁, next, heq, hpick, h₁, -, htask, -⟩ := h.schedule_cases M
  obtain rfl := Option.some.inj (heq.symm.trans hs)
  obtain ⟨s₂, next', s'', hpick', -, -, hcase⟩ := h.scheduleOk M
  obtain ⟨rfl, hn⟩ := Prod.mk.inj (hpick.symm.trans hpick')
  obtain rfl := Option.some.inj hn
  have hcurr : (s₁.switchTo next).curr = next := (switchTo_frame s₁ next).2.2.1
  have hsame : ∀ p, ∃ b, (s₁.switchTo next).task p
      = { s.schedulePrev.task p with needResched := b } := fun p => by
    obtain ⟨b, hb⟩ := switchTo_task s₁ next p
    exact ⟨b, by rw [hb, htask]⟩
  obtain ⟨b, hb⟩ := hsame q
  obtain ⟨c, hc⟩ := hsame next
  rw [hb] at hq hother
  have hrun : s.schedulePrev.Runnable q := h.runnable_iff.mpr hq
  rcases hcase with ⟨hnone, -⟩ | ⟨-, -, -, hch⟩
  · exact absurd hrun (hnone q)
  rw [hcurr, OnTurn, hcurr, hc, (switchTo_rq s₁ next).1]
  refine ⟨?_, hch.runnable.2⟩
  have ha := hch.array
  have hqueued : (s.schedulePrev.task next).array ≠ none := by simp [ha]
  have hclass := h.schedulePrev.tasks next hch.runnable.1
  have hrt' : ¬ (s.schedulePrev.task next).IsRt := by
    have := hrt next (by rw [hc]; exact hqueued)
    rwa [hc] at this
  -- the ordinary task is of one of the two middle classes
  have hbest := hch.best q hrun
  have hrank : s.schedulePrev.rankOf q = .otherActive ∨ s.schedulePrev.rankOf q = .otherExpired := by
    have hpol : (s.schedulePrev.task q).policy = .other := hother
    simp only [Sys.rankOf, hpol]
    split_ifs <;> simp
  cases hp : (s.schedulePrev.task next).policy with
  | fifo => exact absurd (hclass.rt (Or.inl hp)).1 hrt'
  | rr => exact absurd (hclass.rt (Or.inr hp)).1 hrt'
  | short =>
      by_cases h1 : (s.schedulePrev.task next).isShort = 1
      · exact Or.inr ⟨⟨hp, h1⟩, h.schedulePrev.regular_array ha ⟨hp, h1⟩⟩
      · have hover : s.schedulePrev.rankOf next = .overdue := by simp [Sys.rankOf, hp, h1]
        rw [hover] at hbest
        rcases hrank with hr | hr <;> simp [hr, Rank.place] at hbest
  | other =>
      have hp₁ : (s₁.task next).policy = .other := by
        rw [htask]
        exact hp
      have ha₁ : (s₁.task next).array = some (s₁.pickArray M) := by
        rw [htask]
        exact ha
      obtain ⟨h2, h3, h4, h5⟩ := h₁.ordinary
      refine Or.inl ⟨rfl, ha.trans (congrArg some ?_)⟩
      rcases h₁.other_array (by simp [ha₁]) hp₁ with hx | hx <;> rw [ha₁] at hx <;>
        rcases pickArray_cases M s₁ with hy | hy | hy
      · exact absurd (hy.symm.trans (Option.some.inj hx)).symm h2
      · exact absurd (hy.symm.trans (Option.some.inj hx)).symm h3
      · exact hy
      · exact absurd (hy.symm.trans (Option.some.inj hx)).symm h4
      · exact absurd (hy.symm.trans (Option.some.inj hx)).symm h5
      · exact hy

/-- A process that goes on running calls `schedule`: no record changes in what the rounds read. -/
lemma Inv.schedule_sameWork (h : Inv s) (hrun : (s.task s.curr).state = .running)
    (hs : s.schedule M = some s') : (∀ p, SameWork (s.task p) (s'.task p))
      ∧ (s'.active = s.active ∨ (s.arr s.active).nrActive = 0 ∧ s'.active = s.expired) := by
  obtain ⟨s₁, next, heq, hpick, -, -, htask, -⟩ := h.schedule_cases M
  obtain rfl := Option.some.inj (heq.symm.trans hs)
  have hprev : s.schedulePrev
      = s.modTask s.curr fun t => { t with sleepTimestamp := s.jiffies } := by
    simp only [Sys.schedulePrev, Sys.modTask_task_self, hrun]
  constructor
  · intro p
    obtain ⟨b, hb⟩ := switchTo_task s₁ next p
    rw [hb, htask, hprev]
    by_cases hp : p = s.curr
    · rw [hp, Sys.modTask_task_self]
      exact ⟨⟨rfl, rfl, rfl, rfl⟩, rfl, rfl, rfl⟩
    · rw [Sys.modTask_task_of_ne _ _ _ hp]
      exact ⟨⟨rfl, rfl, rfl, rfl⟩, rfl, rfl, rfl⟩
  · have hs₁ : s₁ = (s.schedulePrev.pickNext M).1 := by rw [hpick]
    rw [(switchTo_rq s₁ next).1, hs₁, hprev]
    simp only [Sys.pickNext, Sys.switchArrays]
    split_ifs with h0 hz
    · exact Or.inl rfl
    · exact Or.inr ⟨hz, rfl⟩
    · exact Or.inl rfl

/-- The active array holds a task once the arrays have been exchanged, if an ordinary task is
queued. -/
lemma RqInv.switchArrays_busy (h : RqInv s) (hq : (s.task q).array ≠ none)
    (hother : (s.task q).policy = .other) :
    (s.switchArrays.arr s.switchArrays.active).nrActive ≠ 0 := by
  rw [RqInv.switchArrays_arr]
  rcases RqInv.switchArrays_cases s with ⟨hn, heq⟩ | ⟨hz, heq⟩ <;> rw [heq]
  · exact hn
  · rcases h.other_array hq hother with ha | ha
    · exact absurd hz (h.nrActive_ne_zero ha)
    · exact h.nrActive_ne_zero ha

/-- **A second pass takes the same task**, and clears its flag. -/
lemma Inv.schedule_again (h : Inv s) (hs : s.schedule M = some s') (hq : (s'.task q).array ≠ none)
    (hother : (s'.task q).policy = .other) (hrun : (s'.task s'.curr).state = .running) :
    ∃ s'', s'.schedule M = some s'' ∧ s''.curr = s'.curr
      ∧ (s''.task s''.curr).needResched = false := by
  obtain ⟨s₁, next, heq, hpick, -, -, htask, -⟩ := h.schedule_cases M
  obtain rfl := Option.some.inj (heq.symm.trans hs)
  have hcurr : (s₁.switchTo next).curr = next := (switchTo_frame s₁ next).2.2.1
  obtain ⟨hact, harr, hnr⟩ := switchTo_rq s₁ next
  obtain ⟨b, hb⟩ := switchTo_task s₁ next q
  rw [hb, htask] at hq hother
  have hn : s.schedulePrev.nrRunning ≠ 0 := fun hz =>
    hq (h.schedulePrev.nrRunning_eq_zero_iff.mp hz q)
  rw [RqInv.pickNext_switched hn] at hpick
  obtain ⟨rfl, hhead⟩ := Prod.mk.inj hpick
  set t := s.schedulePrev.switchArrays with ht
  have hnt : t.nrRunning = s.schedulePrev.nrRunning := by
    rw [ht, Sys.switchArrays]
    split_ifs <;> rfl
  -- the queues and the active array are those of the first pass
  set u := (t.switchTo next).modTask next fun r =>
    { r with sleepTimestamp := (t.switchTo next).jiffies } with hu
  have hprev : (t.switchTo next).schedulePrev = u := by
    rw [hcurr] at hrun
    simp only [Sys.schedulePrev, hcurr, Sys.modTask_task_self, hrun, hu]
  have hua : u.active = t.active := hact
  have hur : u.arr = t.arr := harr
  have hun : u.nrRunning ≠ 0 := fun hz => hn (hnt.symm.trans (hnr.symm.trans hz))
  have hbusy := h.schedulePrev.switchArrays_busy hq hother
  have husw : u.switchArrays = u := by
    rw [Sys.switchArrays, if_neg (by rw [hur, hua]; exact hbusy)]
  have hupick : u.pickQueue M = t.pickQueue M := by
    simp only [Sys.pickQueue, Sys.pickArray, hur, hua]
  refine ⟨u.switchTo next, ?_, ?_, ?_⟩
  · simp only [Sys.schedule, hprev, RqInv.pickNext_switched hun, husw, hupick, hhead, Option.map_some]
  · rw [(switchTo_frame u next).2.2.1, hcurr]
  · have huc : u.curr = next := hcurr
    rw [(switchTo_frame u next).2.2.1, Sys.switchTo, if_pos huc, huc, Sys.modTask_task_self]

end

/-- The weights with the arrays exchanged. -/
lemma weight_switched {M : Arch} {active expired : ArrayId} {t : Task} (hne : active ≠ expired)
    (h : t.policy = .other → t.array = some expired) (hu : t.policy = .other ∨ t.policy = .short) :
    weight M expired false t = weight M active true t := by
  rcases hu with hp | hp
  · rw [weight_other hp (h hp), weight_other hp (h hp), if_pos rfl, if_neg hne.symm]
    simp
  · simp only [weight, hp, if_true]

namespace Crowd

variable {M : Arch} {T : Finset Tid} {q : Tid} {s s' : Sys}

/-- **A pass of `schedule`**: somebody is on turn then, and the burden is the same. -/
lemma schedule (h : Crowd M T q s) : ∃ s', s.schedule M = some s' ∧ Crowd M T q s' ∧ OnTurn s'
    ∧ burden M T q s' = burden M T q s := by
  obtain ⟨s', hs, h', -⟩ := h.toInv.schedule M
  obtain ⟨hsame, hact⟩ := h.toInv.schedule_sameWork (h.fit _ h.curr_mem).running hs
  have hfit : ∀ p ∈ T, Fit M (s'.task p) := fun p hp => (h.fit p hp).congr (hsame p)
  have hothers : ∀ p ∉ T, (s'.task p).array = none := fun p hp => by
    rw [(hsame p).array]
    exact h.others p hp
  have hmem : ∀ p, (s'.task p).array ≠ none → p ∈ T := fun p hp => by
    by_contra hno
    exact hp (hothers p hno)
  have hother : (s'.task q).policy = .other := (hsame q).policy.trans h.ordinary
  have hrt : ∀ p, (s'.task p).array ≠ none → ¬ (s'.task p).IsRt := fun p hp hrt => by
    have husual := (hfit p (hmem p hp)).usual
    rcases (h'.tasks p (h'.queued p hp)).isRt_iff.mp hrt with hpol | hpol <;>
      rw [hpol] at husual <;> simp at husual
  obtain ⟨hturn, -⟩ := h.toInv.schedule_onTurn hs (hfit q h.mem).queued hother hrt
  have hcurr : s'.curr ∈ T := by
    refine hmem _ ?_
    rcases hturn with ⟨-, ha⟩ | ⟨-, ha⟩ <;> rw [ha] <;> exact Option.some_ne_none _
  have havg : AvgOk M s' := Each.schedule (durable_avg M) h.avg hs
  refine ⟨s', hs, ⟨h', havg, hfit, hothers, h.mem, hother, hcurr⟩, hturn, ?_⟩
  rw [burden, burden, (hsame q).array]
  have hqa := h.toRqInv.other_array (h.fit q h.mem).queued h.ordinary
  rcases hact with heq | ⟨hz, heq⟩ <;> rw [heq]
  · exact Finset.sum_congr rfl fun p _ => (hsame p).weight _ _
  · -- the active array is empty, so `q` stands in the expired one
    have hexp : ∀ p ∈ T, (s.task p).policy = .other → (s.task p).array = some s.expired :=
      fun p hp hpol => (h.toRqInv.other_array (h.fit p hp).queued hpol).resolve_left fun ha =>
        h.toRqInv.nrActive_ne_zero ha hz
    have hne : some s.expired ≠ some s.active := fun he => h.toRqInv.ends_ne (Option.some.inj he).symm
    rw [hexp q h.mem h.ordinary, decide_eq_false (not_not.mpr rfl), decide_eq_true hne]
    refine Finset.sum_congr rfl fun p hp => ?_
    rw [(hsame p).weight]
    exact weight_switched h.toRqInv.ends_ne (hexp p hp) (h.fit p hp).usual

/-- **A round** lowers the burden, unless `q` is the one that runs. -/
lemma round (hz : 100 ≤ M.HZ) (h : Crowd M T q s) (ht : OnTurn s) : ∃ s', s.timerRound M = some s'
    ∧ (Crowd M T q s' ∧ OnTurn s') ∧ (s.curr ≠ q → burden M T q s' < burden M T q s) := by
  have h₁ : Crowd M T q { s with jiffies := s.jiffies + 1 } :=
    ⟨(exec_step (M := M) (o := .elapse) h.toInv rfl).inv, Each.of_task h.avg rfl, h.fit, h.others, h.mem,
      h.ordinary, h.curr_mem⟩
  obtain ⟨h₂, hstay, hdrop⟩ := h₁.tick hz ht
  rw [Sys.timerRound]
  set t := ({ s with jiffies := s.jiffies + 1 } : Sys).schedulerTick M with hteq
  have hcurr : t.curr = s.curr := Sys.schedulerTick_frame.1
  cases hflag : (t.task t.curr).needResched with
  | false =>
      rw [hcurr] at hflag
      exact ⟨t, by simp [Sys.retFromSysCall, hcurr, hflag], ⟨h₂, hstay hflag⟩, hdrop⟩
  | true =>
      obtain ⟨u, hu, h₃, hturn, heq⟩ := h₂.schedule
      have hlow : s.curr ≠ q → burden M T q u < burden M T q s := fun hq => heq ▸ hdrop hq
      cases hflag' : (u.task u.curr).needResched with
      | false => exact ⟨u, by simp [Sys.retFromSysCall, hflag, hu, hflag'], ⟨h₃, hturn⟩, hlow⟩
      | true =>
          obtain ⟨v, hv, -, hclear⟩ := h₂.toInv.schedule_again hu (h₃.fit q h₃.mem).queued
            h₃.ordinary (h₃.fit _ h₃.curr_mem).running
          obtain ⟨v', hv', h₄, hturn', heq'⟩ := h₃.schedule
          obtain rfl := Option.some.inj (hv.symm.trans hv')
          exact ⟨v, by simp [Sys.retFromSysCall, hflag, hu, hflag', hv, hclear], ⟨h₄, hturn'⟩,
            fun hq => heq' ▸ hlow hq⟩

/-- No task has to wait longer than fourteen seconds for each of the others. -/
lemma burden_le (h : Crowd M T q s) : burden M T q s ≤ 14 * M.HZ * T.card := by
  rw [burden, Nat.mul_comm (14 * M.HZ), ← smul_eq_mul]
  refine Finset.sum_le_card_nsmul T _ _ fun p hp => ?_
  have hslice := (h.fit p hp).slice
  refine weight_le (h.avg p) (fun hpol h1 => (hslice fun ho => ?_).2) fun hpol =>
    (hslice fun ho => hpol ho.1).2
  rw [ho.2] at h1
  exact absurd h1 (by decide)

end Crowd

/-! ### The bound -/

/-- The queued tasks, no more than `nr_running` says. -/
lemma RqInv.members {s : Sys} (h : RqInv s) :
    ∃ T : Finset Tid, (∀ p, p ∈ T ↔ (s.task p).array ≠ none) ∧ T.card ≤ s.nrRunning.toNat := by
  let A : Finset ArrayId := {.arrays0, .arrays1, .shortActive, .overdue}
  have hA : ∀ a : ArrayId, a ∈ A := fun a => by cases a <;> decide
  let T : Finset Tid := A.biUnion fun a => (Finset.range maxPrio).biUnion fun k =>
    ((s.arr a).queue k).toFinset
  refine ⟨T, fun p => ?_, ?_⟩
  · simp only [T, Finset.mem_biUnion, Finset.mem_range, List.mem_toFinset]
    constructor
    · rintro ⟨a, -, k, -, hp⟩
      rw [(h.mem_queue_iff.mp hp).1]
      exact Option.some_ne_none _
    · intro hp
      obtain ⟨a, ha⟩ := Option.ne_none_iff_exists'.mp hp
      exact ⟨a, hA a, _, (h.tasks p (h.queued p hp)).prio_lt, h.mem_queue_iff.mpr ⟨ha, rfl⟩⟩
  · have harr : ∀ a, (((Finset.range maxPrio).biUnion fun k =>
        ((s.arr a).queue k).toFinset).card : ℤ) ≤ (s.arr a).nrActive := fun a => by
      rw [(h.queues.arrayOk a).count]
      exact_mod_cast Finset.card_biUnion_le.trans
        (Finset.sum_le_sum fun k _ => List.toFinset_card_le _)
    have hcard : (T.card : ℤ) ≤ ∑ a ∈ A, (((Finset.range maxPrio).biUnion fun k =>
        ((s.arr a).queue k).toFinset).card : ℤ) := by
      exact_mod_cast Finset.card_biUnion_le
    have hsum : ∑ a ∈ A, (s.arr a).nrActive = s.totalActive := by
      simp only [A, Sys.totalActive]
      rw [Finset.sum_insert (by decide), Finset.sum_insert (by decide),
        Finset.sum_insert (by decide), Finset.sum_singleton]
      ring
    have hle := hcard.trans ((Finset.sum_le_sum fun a _ => harr a).trans_eq hsum)
    rw [h.nrRunning]
    omega

/-- **Ordinary tasks do not starve.**  After a pass of `schedule` in any reachable state, with no
real-time task queued, as long as nobody sleeps, wakes or makes a call, an ordinary task that is
queued gets the processor again and again, at the latest after fourteen seconds for each task that
is running. -/
theorem served_of_run {M : Arch} (hz : 100 ≤ M.HZ) {ops : List Op} {s s₁ : Sys} {q : Tid}
    (hok : Along (Sys.exec M) (KeepsSlice M) ops (Sys.booted M))
    (h : run (Sys.exec M) ops (Sys.booted M) = some s) (hs : s.schedule M = some s₁)
    (hrt : ∀ k < maxRtPrio, (s₁.arr s₁.active).queue k = [])
    (hq : (s₁.task q).array ≠ none) (hother : (s₁.task q).policy = .other) (n : ℕ) :
    ∃ k ≤ 14 * M.HZ * s₁.nrRunning.toNat, ∃ s₂, rounds (Sys.timerRound M) (n + k) s₁ = some s₂
      ∧ s₂.curr = q := by
  have hboth := reach_slicesOk hz hok h
  have hstep : Step M s .schedule s₁ := exec_step hboth.1 hs
  have h₁ := hstep.inv
  have hslices : SlicesOk M s₁ := hboth.2.step (o := .schedule) hz hboth.1 trivial hstep
  have hnort : ∀ p, (s₁.task p).array ≠ none → ¬ (s₁.task p).IsRt := fun p hp hprio => by
    obtain ⟨a, ha⟩ := Option.ne_none_iff_exists'.mp hp
    have hpol := (h₁.tasks p (h₁.queued p hp)).isRt_iff.mp hprio
    have hrank : s₁.rankOf p = .realTime := by
      simp only [Sys.rankOf]
      rcases hpol with hx | hx <;> rw [hx]
    have hstands := h₁.toRqInv.standsIn ha
    rw [hrank] at hstands
    have hmem := h₁.toRqInv.mem_queue_iff.mpr ⟨ha, rfl⟩
    rw [hstands.1, hrt _ hstands.2] at hmem
    simp at hmem
  obtain ⟨hturn, hrun⟩ := hboth.1.schedule_onTurn hs hq hother hnort
  obtain ⟨T, hT, hcard⟩ := h₁.toRqInv.members
  have hcurr : s₁.curr ∈ T := by
    rw [hT]
    rcases hturn with ⟨-, ha⟩ | ⟨-, ha⟩ <;> rw [ha] <;> exact Option.some_ne_none _
  have hcrowd : Crowd M T q s₁ := by
    have havg : AvgOk M s₁ := Each.schedule (durable_avg M) (reach_avgOk h) hs
    refine ⟨h₁, havg, fun p hp => ?_, fun p hp => ?_, (hT q).mpr hq, hother,
      hcurr⟩
    · have hqueued := (hT p).mp hp
      have hp' := h₁.queued p hqueued
      have hclass := h₁.tasks p hp'
      refine ⟨hqueued, ?_, ?_, fun _ => ⟨(hslices p (Or.inl hp')).pos, (hslices p (Or.inl hp')).le⟩⟩
      · by_cases hpc : p = s₁.curr
        · exact hpc ▸ hrun
        · exact (h₁.awake p hp' hpc).mpr hqueued
      · have := (not_congr hclass.isRt_iff).mp (hnort p hqueued)
        cases hpol : (s₁.task p).policy <;> simp_all
    · exact not_not.mp (mt (hT p).mpr hp)
  have hserved : ∃ k ≤ 14 * M.HZ * T.card, ∃ s₂, rounds (Sys.timerRound M) (n + k) s₁ = some s₂
      ∧ s₂.curr = q :=
    served_again (P := fun s => Crowd M T q s ∧ OnTurn s) (μ := burden M T q)
      (fun s hc => hc.1.round hz hc.2) (fun s hc => hc.1.burden_le) ⟨hcrowd, hturn⟩ n
  obtain ⟨k, hk, s₂, hs₂, hgoal⟩ := hserved
  exact ⟨k, hk.trans (Nat.mul_le_mul_left _ hcard), s₂, hs₂, hgoal⟩

/-- A run that leaves three tasks behind, the last of them SHORT. -/
def crowdRun : List Op :=
  [.fork ⟨false, false⟩ 1, .schedule, .fork ⟨false, false⟩ 2, .fork ⟨false, false⟩ 3,
    .setscheduler 3 5 (.readable ⟨0, 100⟩)]

/-- `schedule` takes the SHORT task then, and the second task runs before `4200` ticks are over. -/
theorem served_crowdRun : ∃ s s₁, run (Sys.exec .hz100) crowdRun (Sys.booted .hz100) = some s
    ∧ s.schedule .hz100 = some s₁ ∧ s₁.curr = 3 ∧ ∀ n, ∃ k ≤ 4200, ∃ s₂,
      rounds (Sys.timerRound .hz100) (n + k) s₁ = some s₂ ∧ s₂.curr = 2 := by
  have hrun : ((run (Sys.exec .hz100) crowdRun (Sys.booted .hz100)).any fun s =>
      (s.schedule .hz100).any fun s₁ => decide (s₁.curr = 3 ∧ s₁.nrRunning = 3
        ∧ (∀ k < maxRtPrio, (s₁.arr s₁.active).queue k = [])
        ∧ (s₁.task 2).array ≠ none ∧ (s₁.task 2).policy = .other)) = true := by
    decide +kernel
  obtain ⟨s, hs, hany⟩ := (Option.any_eq_true _ _).mp hrun
  obtain ⟨s₁, hs₁, hdec⟩ := (Option.any_eq_true _ _).mp hany
  obtain ⟨hcurr, hnr, hrt, hq, hother⟩ := of_decide_eq_true hdec
  refine ⟨s, s₁, hs, hs₁, hcurr, fun n => ?_⟩
  obtain ⟨k, hk, hserved⟩ := served_of_run (by decide) (by decide +kernel) hs hs₁ hrt hq hother n
  exact ⟨k, hk.trans (by rw [hnr]; decide), hserved⟩

end Os234123.Sched
