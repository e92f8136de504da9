import Os234123.Sched.Starvation
import Os234123.Sched.States
import Os234123.Sched.Yields

/-!
The round-robin tasks of one priority take turns: as long as nobody sleeps, wakes or makes a call,
each gets the processor over and over, and always in the same order.

* `RrQueue`: the running task is a round-robin one, and nobody stands in a better queue;
* `RrQueue.schedule`: the head of its queue comes next;
* `RrQueue.tick`: a tick charges the running task, or sends it to the end with a new slice;
* `RrQueue.wait`: the slices of those that come before a task;
* `rrServed_of_run`: the order of the queue in every round, and the bound.
-/

namespace Os234123.Sched

open Machine Buckets

/-- The running task stands in the queue `l` of round-robin tasks, and no better one holds a task. -/
structure RrQueue (M : Arch) (k : ℕ) (l : List Tid) (s : Sys) : Prop extends Inv s where
  low : k < maxRtPrio
  queue : s.queueAt (s.active, k) = l
  lowest : ∀ j < k, s.queueAt (s.active, j) = []
  each : ∀ p ∈ l, (s.task p).policy = .rr ∧ (s.task p).state = .running
    ∧ 1 ≤ (s.task p).timeSlice ∧ (s.task p).timeSlice ≤ 7 * M.HZ
  curr_mem : s.curr ∈ l

/-- `schedule` clears the flag of the task that calls it. -/
lemma schedule_clears {M : Arch} {s s' : Sys} (h : Inv s) (hs : s.schedule M = some s') :
    (s'.task s.curr).needResched = false := by
  obtain ⟨s₁, next, heq, -, -, hquiet, -⟩ := h.schedule_cases M
  obtain rfl := Option.some.inj (heq.symm.trans hs)
  have hcurr : s₁.curr = s.curr := hquiet.curr.trans h.schedulePrev_quiet.curr
  have hmod : (s₁.modTask s₁.curr fun t => { t with needResched := false }).task s.curr
      = { s₁.task s.curr with needResched := false } := by
    rw [hcurr, Sys.modTask_task_self]
  simp only [Sys.switchTo]
  split_ifs <;> exact congrArg Task.needResched hmod

/-- **The tick of a round-robin task.** -/
lemma tick_rr {M : Arch} {s : Sys} (h : RqInv s) (hc : s.curr ≠ s.idle)
    (ha : (s.task s.curr).array = some s.active) (hp : (s.task s.curr).policy = .rr)
    (hpos : 1 ≤ (s.task s.curr).timeSlice) (hlt : (s.task s.curr).timeSlice < uintSize) :
    1 < (s.task s.curr).timeSlice
        ∧ (s.schedulerTick M).task s.curr
          = { s.task s.curr with timeSlice := (s.task s.curr).timeSlice - 1 }
        ∧ (s.schedulerTick M).queueAt = s.queueAt
      ∨ (s.schedulerTick M).task s.curr
          = { Sys.refillRr M { s.task s.curr with timeSlice := 0 } with array := some s.active }
        ∧ (s.schedulerTick M).queueAt
          = sendTo s.curr (s.active, (s.task s.curr).prio) s.queueAt := by
  have hrt : (s.task s.curr).IsRt := (h.tasks _ (h.queued s.curr (by simp [ha]))).isRt_iff.mpr (Or.inr hp)
  have hon : s.OnTickedArray s.curr := Or.inl ha
  have hspend : usub (s.task s.curr).timeSlice 1 = (s.task s.curr).timeSlice - 1 := usub_of_le hlt hpos
  simp only [Sys.schedulerTick, if_neg hc, hon, not_true_eq_false, if_false, if_pos hrt, Sys.tickRt,
    if_pos hp, Sys.modTask_task_self, hspend]
  by_cases h1 : (s.task s.curr).timeSlice - 1 = 0
  · refine Or.inr ?_
    rw [if_pos h1, Sys.modTask_modTask]
    set s₁ := s.modTask s.curr fun t => Sys.refillRr M { t with timeSlice := usub t.timeSlice 1 }
      with hs₁
    have hself : s₁.task s.curr = Sys.refillRr M { s.task s.curr with timeSlice := 0 } := by
      rw [hs₁, Sys.modTask_task_self, hspend, h1]
    have h₁ : RqInv s₁ := h.modKey ⟨rfl, rfl, rfl, rfl, rfl⟩ fun hi => absurd hi hc
    have hq := h₁.queueAt_requeue (p := s.curr) (a := s.active) (by rw [hself]; exact ha)
      (b := s.active) fun t => t
    rw [Sys.modTask_id, hself, Sys.queueAt_of_arr (Sys.modTask_arr _ _ _)] at hq
    refine ⟨?_, hq⟩
    rw [Sys.enqueueTask, Sys.enqueueAs_task, Sys.dequeueTask_task, Function.update_self, hself]
    rfl
  · rw [if_neg h1, Sys.modTask_task_self, hspend]
    exact Or.inl ⟨by omega, rfl, Sys.queueAt_of_arr (Sys.modTask_arr _ _ _)⟩

namespace RrQueue

variable {M : Arch} {k : ℕ} {l : List Tid} {s s' : Sys} {p q : Tid}

lemma place (h : RrQueue M k l s) (hp : p ∈ l) :
    (s.task p).array = some s.active ∧ (s.task p).prio = k :=
  h.toRqInv.mem_queue_iff.mp (h.queue ▸ hp : p ∈ s.queueAt (s.active, k))

lemma curr_ne_idle (h : RrQueue M k l s) : s.curr ≠ s.idle :=
  (h.toRqInv.isTask_of_array (h.place h.curr_mem).1).2

/-- What keeps the queues and the fields of the tasks that the turns read. -/
lemma of_sameWork (h : RrQueue M k l s) (h' : Inv s') (hact : s'.active = s.active)
    (hq : s'.queueAt = s.queueAt) (hw : ∀ p, SameWork (s.task p) (s'.task p)) (hc : s'.curr ∈ l) :
    RrQueue M k l s' := by
  refine ⟨h', h.low, ?_, fun j hj => ?_, fun p hp => ?_, hc⟩
  · rw [hact, hq]
    exact h.queue
  · rw [hact, hq]
    exact h.lowest j hj
  · rw [(hw p).policy, (hw p).state, (hw p).timeSlice]
    exact h.each p hp

/-- **The head of the queue comes next.** -/
lemma schedule (h : RrQueue M k l s) : ∃ s', s.schedule M = some s' ∧ RrQueue M k l s'
    ∧ l.head? = some s'.curr ∧ (∀ p, (s'.task p).timeSlice = (s.task p).timeSlice)
    ∧ (s'.task s.curr).needResched = false := by
  obtain ⟨s', hs, h', -⟩ := h.toInv.schedule M
  have hrun : (s.task s.curr).state = .running := (h.each _ h.curr_mem).2.1
  obtain ⟨hw, hact⟩ := h.toInv.schedule_sameWork hrun hs
  have hact' : s'.active = s.active :=
    hact.resolve_right fun hz => h.toRqInv.nrActive_ne_zero (h.place h.curr_mem).1 hz.1
  have hq : s'.queueAt = s.queueAt :=
    ((schedule_onlyRemoves h.toInv hs).prev.resolve_right fun hx => hx.1 hrun).1
  have hprev : s.schedulePrev
      = s.modTask s.curr fun t => { t with sleepTimestamp := s.jiffies } := by
    simp only [Sys.schedulePrev, Sys.modTask_task_self, hrun]
  have hsame : ∀ p, Alike (s.task p) (s.schedulePrev.task p) := fun p => by
    rw [hprev]
    exact AlikeBut.modAlike (S := []) ⟨rfl, rfl, rfl, rfl, rfl⟩ p (by simp)
  have hqp : s.schedulePrev.queueAt = s.queueAt := by
    rw [hprev]
    exact Sys.queueAt_of_arr (Sys.modTask_arr _ _ _)
  have hcp : s.schedulePrev.Runnable s.curr := h.toInv.runnable_iff.mpr (by
    rw [(hsame _).array, (h.place h.curr_mem).1]
    exact Option.some_ne_none _)
  obtain ⟨a, hch⟩ := h.toInv.schedule_choice hcp hs
  -- the running task is real-time, so the one chosen is, and of no smaller priority
  have hreal : s.schedulePrev.rankOf s.curr = .realTime := by
    have hpol : (s.schedulePrev.task s.curr).policy = .rr :=
      (hsame _).policy.trans (h.each _ h.curr_mem).1
    simp [Sys.rankOf, hpol]
  obtain ⟨hrank, hle⟩ : s.schedulePrev.rankOf s'.curr = .realTime
      ∧ (s.schedulePrev.task s'.curr).prio ≤ k := by
    rcases hch.best s.curr hcp with hlt | ⟨heq, hle⟩
    · rw [hreal] at hlt
      exact absurd hlt (Nat.not_lt_zero _)
    · rw [(hsame s.curr).prio, (h.place h.curr_mem).2] at hle
      exact ⟨heq.symm.trans hreal, hle⟩
  have hstands := h.toInv.schedulePrev.standsIn hch.array
  rw [hrank] at hstands
  have ha : a = s.active := hstands.1.trans (by rw [hprev, Sys.modTask_active])
  have hhead : (s.schedulePrev.queueAt (s.active, (s.schedulePrev.task s'.curr).prio)).head?
      = some s'.curr := ha ▸ hch.head
  rw [hqp] at hhead
  have hk : (s.schedulePrev.task s'.curr).prio = k := by
    rcases hle.lt_or_eq with hlt | heq
    · rw [h.lowest _ hlt] at hhead
      exact absurd hhead (by simp)
    · exact heq
  rw [hk, h.queue] at hhead
  exact ⟨s', hs, h.of_sameWork h' hact' hq hw (List.mem_of_head? hhead), hhead,
    fun p => (hw p).timeSlice, schedule_clears h.toInv hs⟩

/-! ### A tick -/

/-- **A tick** charges the running task, or sends it to the end of the queue with a new slice, and
leaves the slices of the others. -/
lemma tick (hz : 100 ≤ M.HZ) (h : RrQueue M k l s) : ∃ l', RrQueue M k l' (s.schedulerTick M)
    ∧ (∀ p, p ≠ s.curr → ((s.schedulerTick M).task p).timeSlice = (s.task p).timeSlice)
    ∧ (l' = l ∧ ((s.schedulerTick M).task s.curr).timeSlice + 1 = (s.task s.curr).timeSlice
      ∨ l' = l.erase s.curr ++ [s.curr]
        ∧ ((s.schedulerTick M).task s.curr).needResched = true) := by
  obtain ⟨hcurr, -, -, hact, -, -⟩ := Sys.schedulerTick_frame (M := M) (s := s)
  have h' : Inv (s.schedulerTick M) := (exec_step (o := .tick) h.toInv rfl).inv
  obtain ⟨hpol, hst, hpos, hle⟩ := h.each _ h.curr_mem
  obtain ⟨ha, hk⟩ := h.place h.curr_mem
  have hstatic := (h.tasks s.curr (h.queued _ (by simp [ha]))).static.1
  have hne : ∀ p, p ≠ s.curr → (s.schedulerTick M).task p = s.task p := fun p hp =>
    Sys.schedulerTick_task_of_ne hp
  rcases tick_rr (M := M) h.toRqInv h.curr_ne_idle ha hpol hpos (M.slice_lt hle) with
    ⟨hlt, hself, hq⟩ | ⟨hself, hq⟩
  · refine ⟨l, ⟨h', h.low, ?_, fun j hj => ?_, fun p hp => ?_, hcurr ▸ h.curr_mem⟩,
      fun p hp => by rw [hne p hp], Or.inl ⟨rfl, ?_⟩⟩
    · rw [hact, hq]
      exact h.queue
    · rw [hact, hq]
      exact h.lowest j hj
    · by_cases hpc : p = s.curr
      · subst hpc
        rw [hself]
        exact ⟨hpol, hst, by dsimp only; omega, by dsimp only; omega⟩
      · rw [hne p hpc]
        exact h.each p hp
    · rw [hself]
      dsimp only
      omega
  · refine ⟨l.erase s.curr ++ [s.curr], ⟨h', h.low, ?_, fun j hj => ?_, fun p hp => ?_, ?_⟩,
      fun p hp => by rw [hne p hp], Or.inr ⟨rfl, by rw [hself]; rfl⟩⟩
    · rw [hact, hq, hk, sendTo_self, h.queue]
    · have hkey : (s.active, j) ≠ (s.active, (s.task s.curr).prio) := fun he => by
        have := congrArg Prod.snd he
        dsimp only at this
        omega
      rw [hact, hq, sendTo_of_ne _ hkey, h.lowest j hj, List.erase_nil]
    · by_cases hpc : p = s.curr
      · subst hpc
        obtain ⟨hmin, hmax⟩ := (s.task s.curr).timeslice_bounds M hstatic
        simp only [Arch.minTimeslice, Arch.maxTimeslice] at hmin hmax
        rw [hself]
        refine ⟨hpol, hst, ?_, ?_⟩
        · show 1 ≤ (s.task s.curr).timeslice M
          omega
        · show (s.task s.curr).timeslice M ≤ 7 * M.HZ
          omega
      · rw [hne p hpc]
        refine h.each p ?_
        simpa [hpc, List.mem_erase_of_ne hpc] using hp
    · rw [hcurr]
      simp

/-! ### A round -/

lemma elapse (h : RrQueue M k l s) : RrQueue M k l { s with jiffies := s.jiffies + 1 } :=
  ⟨(exec_step (M := M) (o := .elapse) h.toInv rfl).inv, h.low, h.queue, h.lowest, h.each, h.curr_mem⟩

/-- The way back to user mode once `schedule` has been asked for. -/
lemma retFromSysCall (h : RrQueue M k l s) (hflag : (s.task s.curr).needResched = true) :
    ∃ s', s.retFromSysCall M 2 = some s' ∧ RrQueue M k l s' ∧ l.head? = some s'.curr
      ∧ ∀ p, (s'.task p).timeSlice = (s.task p).timeSlice := by
  obtain ⟨u, hu, h₁, hhead, hslice, -⟩ := h.schedule
  cases hflag' : (u.task u.curr).needResched with
  | false => exact ⟨u, by simp [Sys.retFromSysCall, hflag, hu, hflag'], h₁, hhead, hslice⟩
  | true =>
      -- the second pass takes the same task, and clears its flag
      obtain ⟨v, hv, h₂, hhead', hslice', hclear⟩ := h₁.schedule
      have hcurr : v.curr = u.curr := Option.some.inj (hhead'.symm.trans hhead)
      refine ⟨v, ?_, h₂, hhead', fun p => (hslice' p).trans (hslice p)⟩
      simp [Sys.retFromSysCall, hflag, hu, hflag', hv, hcurr, hclear]

/-- **A round** of the task in front: it is charged, or the queue rotates. -/
lemma round (hz : 100 ≤ M.HZ) (h : RrQueue M k l s) (hhead : l.head? = some s.curr) : ∃ s' l',
    s.timerRound M = some s' ∧ RrQueue M k l' s' ∧ l'.head? = some s'.curr
    ∧ (∀ p, p ≠ s.curr → (s'.task p).timeSlice = (s.task p).timeSlice)
    ∧ (l' = l ∧ (s'.task s.curr).timeSlice + 1 = (s.task s.curr).timeSlice ∨ l' = l.rotate 1) := by
  obtain ⟨l', h₁, hothers, hcase⟩ := h.elapse.tick hz
  rw [Sys.timerRound]
  set t := ({ s with jiffies := s.jiffies + 1 } : Sys).schedulerTick M with ht
  have hcurr : t.curr = s.curr := Sys.schedulerTick_frame.1
  have hcase' : l' = l ∧ (t.task s.curr).timeSlice + 1 = (s.task s.curr).timeSlice
      ∨ l' = l.rotate 1 ∧ (t.task s.curr).needResched = true := by
    rcases hcase with hspend | ⟨hl, hflag⟩
    · exact Or.inl hspend
    · exact Or.inr ⟨hl.trans (Round.rotate_of_head hhead), hflag⟩
  cases hflag : (t.task t.curr).needResched with
  | false =>
      rw [hcurr] at hflag
      have hspend := hcase'.resolve_right fun hc => by simp [hflag] at hc
      refine ⟨t, l', by simp [Sys.retFromSysCall, hcurr, hflag], h₁, ?_, hothers, Or.inl hspend⟩
      rw [hspend.1, hcurr, hhead]
  | true =>
      obtain ⟨u, hu, h₂, hhead', hslice⟩ := h₁.retFromSysCall hflag
      refine ⟨u, l', hu, h₂, hhead', fun p hp => (hslice p).trans (hothers p hp), ?_⟩
      rw [hslice]
      exact hcase'.imp_right And.left

/-- How many ticks `q` can have to wait. -/
def wait (k : ℕ) (q : Tid) (s : Sys) : ℕ :=
  lead (fun p => (s.task p).timeSlice) q (s.queueAt (s.active, k))

/-- A round brings `q` closer, unless it is the one that runs. -/
lemma wait_round (hz : 100 ≤ M.HZ) (h : RrQueue M k l s) (hhead : l.head? = some s.curr)
    (hq : q ∈ l) : ∃ s' l', s.timerRound M = some s' ∧ (RrQueue M k l' s' ∧ l'.head? = some s'.curr)
      ∧ l ~r l' ∧ (s.curr ≠ q → wait k q s' < wait k q s) := by
  obtain ⟨s', l', hs', h', hhead', hothers, hcase⟩ := h.round hz hhead
  have hpos := (h.each _ h.curr_mem).2.2.1
  refine ⟨s', l', hs', ⟨h', hhead'⟩, ?_, fun hne => ?_⟩
  · rcases hcase with ⟨rfl, -⟩ | rfl
    · exact List.IsRotated.refl _
    · exact ⟨1, rfl⟩
  · rw [wait, wait, h'.queue, h.queue]
    rcases hcase with ⟨rfl, hspend⟩ | rfl
    · refine lead_lt hhead hne (by omega) fun p hp => ?_
      by_cases hpc : p = s.curr
      · subst hpc
        omega
      · exact (hothers p hpc).le
    · have hnd : l.Nodup := h.queue ▸ h.toRqInv.queues.located.nodup _
      have := lead_rotate hnd hhead hne hq fun p _ hp => (hothers p hp).le
      omega

end RrQueue

/-! ### The bound -/

section

variable {M : Arch} {s s₁ : Sys} {k : ℕ} {q : Tid}

/-- A pass of `schedule` that takes a round-robin task takes the head of its queue, and no better
queue holds a task. -/
lemma Inv.schedule_rrQueue (h : Inv s) (hslices : SlicesOk M s₁) (hs : s.schedule M = some s₁)
    (hc : (s₁.task s₁.curr).policy = .rr) (hk : (s₁.task s₁.curr).prio = k)
    (hrr : ∀ p ∈ s₁.queueAt (s₁.active, k), (s₁.task p).policy = .rr) :
    RrQueue M k (s₁.queueAt (s₁.active, k)) s₁
      ∧ (s₁.queueAt (s₁.active, k)).head? = some s₁.curr := by
  have h₁ : Inv s₁ := (exec_step (o := .schedule) h hs).inv
  have hne : s₁.curr ≠ s₁.idle := fun hi => by
    rw [hi, h₁.idle.policy] at hc
    exact absurd hc (by decide)
  have hqc := h₁.curr hne
  have hsame : ∀ p, ∃ b, s₁.task p = { s.schedulePrev.task p with needResched := b } := fun p => by
    obtain ⟨s₂, next, heq, -, -, -, htask, -⟩ := h.schedule_cases M
    obtain rfl := Option.some.inj (heq.symm.trans hs)
    obtain ⟨b, hb⟩ := switchTo_task s₂ next p
    exact ⟨b, by rw [hb, htask]⟩
  have hrun : ∀ p, (s₁.task p).array ≠ none → s.schedulePrev.Runnable p := fun p hp => by
    obtain ⟨b, hb⟩ := hsame p
    rw [hb] at hp
    exact h.runnable_iff.mpr hp
  have hreal : ∀ p, (s₁.task p).IsRt → (s₁.task p).array ≠ none →
      s.schedulePrev.rankOf p = .realTime := fun p hp hq => by
    have hpol := (h₁.tasks p (h₁.queued p hq)).isRt_iff.mp hp
    obtain ⟨b, hb⟩ := hsame p
    rw [hb] at hpol
    simp only [Sys.rankOf]
    rcases hpol with hx | hx <;> rw [show (s.schedulePrev.task p).policy = _ from hx]
  have hrt : (s₁.task s₁.curr).IsRt := (h₁.tasks _ (h₁.queued _ hqc)).isRt_iff.mpr (Or.inr hc)
  obtain ⟨a, ha⟩ := Option.ne_none_iff_exists'.mp hqc
  obtain rfl : a = s₁.active := by
    have hstands := h₁.toRqInv.standsIn ha
    have hrank : s₁.rankOf s₁.curr = .realTime := by simp [Sys.rankOf, hc]
    rw [hrank] at hstands
    exact hstands.1
  have hmem : ∀ p j, p ∈ s₁.queueAt (s₁.active, j) → (s₁.task p).array = some s₁.active
      ∧ (s₁.task p).prio = j := fun p j hp => h₁.toRqInv.mem_queue_iff.mp hp
  obtain ⟨a, hch⟩ := h.schedule_choice (hrun _ hqc) hs
  have hhead : (s₁.queueAt (s₁.active, k)).head? = some s₁.curr := by
    have hchosen := hch.head
    obtain ⟨b, hb⟩ := hsame s₁.curr
    have hb' : (s₁.task s₁.curr).array = (s.schedulePrev.task s₁.curr).array
        ∧ (s₁.task s₁.curr).prio = (s.schedulePrev.task s₁.curr).prio := by
      rw [hb]
      exact ⟨rfl, rfl⟩
    have haa : a = s₁.active := Option.some.inj ((hch.array.symm.trans hb'.1.symm).trans ha)
    rw [← hb'.2, hk, haa, ← schedule_arr h hs] at hchosen
    exact hchosen
  refine ⟨⟨h₁, hk ▸ hrt, rfl, fun j hj => ?_, fun p hp => ?_, List.mem_of_head? hhead⟩, hhead⟩
  · -- a task there would be real-time, and of a smaller priority than the one taken
    refine List.eq_nil_iff_forall_not_mem.mpr fun p hp => ?_
    obtain ⟨hpa, hpj⟩ := hmem p j hp
    have hpq : (s₁.task p).array ≠ none := by simp [hpa]
    have hprt : (s₁.task p).IsRt := by
      have : k < maxRtPrio := hk ▸ hrt
      rw [Task.IsRt, hpj]
      omega
    obtain ⟨b, hb⟩ := hsame p
    obtain ⟨b', hb'⟩ := hsame s₁.curr
    have hbest := hch.best p (hrun p hpq)
    rw [hreal _ hrt hqc, hreal p hprt hpq] at hbest
    have hle := (hbest.resolve_left (lt_irrefl _)).2
    rw [hb] at hpj
    rw [hb'] at hk
    dsimp only at hpj hk
    omega
  · have hpq : (s₁.task p).array ≠ none := by simp [(hmem p k hp).1]
    have htask := h₁.queued p hpq
    have hok := hslices p (Or.inl htask)
    refine ⟨hrr p hp, ?_, hok.pos, hok.le⟩
    by_cases hpc : p = s₁.curr
    · exact hpc ▸ h.schedule_state hs hne
    · exact (h₁.awake p htask hpc).mpr hpq

/-- The queue is still the list `l`, but for going round, and its head is the task that runs. -/
def RrTurn (M : Arch) (k : ℕ) (l : List Tid) (s : Sys) : Prop :=
  ∃ l', l ~r l' ∧ RrQueue M k l' s ∧ l'.head? = some s.curr

/-- A round takes a turn to the next one, and brings `q` closer unless it is the one that runs. -/
lemma RrTurn.round {l : List Tid} (hz : 100 ≤ M.HZ) (hq : q ∈ l) (h : RrTurn M k l s) :
    ∃ s', s.timerRound M = some s' ∧ RrTurn M k l s'
      ∧ (¬ s.curr = q → RrQueue.wait k q s' < RrQueue.wait k q s) := by
  obtain ⟨l', hrot, h', hhead⟩ := h
  obtain ⟨t, l'', ht, hnext, hrot', hdrop⟩ := h'.wait_round hz hhead (hrot.mem_iff.mp hq)
  exact ⟨t, ht, ⟨l'', hrot.trans hrot', hnext⟩, hdrop⟩

/-- No wait is longer than seven seconds for each of the others. -/
lemma RrTurn.wait_le {l : List Tid} (hq : q ∈ l) (h : RrTurn M k l s) :
    RrQueue.wait k q s ≤ 7 * M.HZ * (l.length - 1) := by
  obtain ⟨l', hrot, h', -⟩ := h
  rw [RrQueue.wait, h'.queue, hrot.perm.length_eq]
  exact lead_le (hrot.mem_iff.mp hq) fun p hp => (h'.each p hp).2.2.2

/-- **Round-robin tasks take turns.**  After a pass of `schedule` in any reachable state that takes a
task from a queue of round-robin tasks, as long as nobody sleeps, wakes or makes a call, the queue
only goes round, with the task that runs in front, and each task of it gets the processor again and
again, at the latest after seven seconds for each of the others. -/
theorem rrServed_of_run (hz : 100 ≤ M.HZ) {ops : List Op}
    (hok : Along (Sys.exec M) (KeepsSlice M) ops (Sys.booted M))
    (h : run (Sys.exec M) ops (Sys.booted M) = some s) (hs : s.schedule M = some s₁)
    (hc : (s₁.task s₁.curr).policy = .rr) (hk : (s₁.task s₁.curr).prio = k)
    (hrr : ∀ p ∈ s₁.queueAt (s₁.active, k), (s₁.task p).policy = .rr)
    (hq : q ∈ s₁.queueAt (s₁.active, k)) (n : ℕ) :
    (∃ s₂, rounds (Sys.timerRound M) n s₁ = some s₂
        ∧ s₁.queueAt (s₁.active, k) ~r s₂.queueAt (s₂.active, k)
        ∧ (s₂.queueAt (s₂.active, k)).head? = some s₂.curr)
      ∧ ∃ j ≤ 7 * M.HZ * ((s₁.queueAt (s₁.active, k)).length - 1), ∃ s₂,
        rounds (Sys.timerRound M) (n + j) s₁ = some s₂ ∧ s₂.curr = q := by
  have hboth := reach_slicesOk hz hok h
  have hslices : SlicesOk M s₁ :=
    hboth.2.step (o := .schedule) hz hboth.1 trivial (exec_step hboth.1 hs)
  obtain ⟨h₁, hhead⟩ := hboth.1.schedule_rrQueue hslices hs hc hk hrr
  set l := s₁.queueAt (s₁.active, k)
  have hturn : RrTurn M k l s₁ := ⟨l, List.IsRotated.refl l, h₁, hhead⟩
  refine ⟨?_, served_again (P := RrTurn M k l) (μ := RrQueue.wait k q) (fun _ ht => ht.round hz hq)
    (fun _ ht => ht.wait_le hq) hturn n⟩
  have hkeep : ∀ s, RrTurn M k l s → ∃ s', s.timerRound M = some s' ∧ RrTurn M k l s' :=
    fun s ht => by
      obtain ⟨s', hs', hturn', -⟩ := ht.round hz hq
      exact ⟨s', hs', hturn'⟩
  obtain ⟨s₂, hs₂, l', hrot, h₂, hhead₂⟩ := rounds_preserve hkeep n hturn
  rw [← h₂.queue] at hrot hhead₂
  exact ⟨s₂, hs₂, hrot, hhead₂⟩

end

/-- A run that leaves two round-robin tasks of one priority. -/
def rrRun : List Op :=
  [.fork ⟨false, false⟩ 1, .schedule, .fork ⟨false, false⟩ 2, .setscheduler 1 2 (.readable ⟨40, 0⟩),
    .setscheduler 2 2 (.readable ⟨40, 0⟩)]

/-- The queue goes round, and the second one gets the processor again within `700` ticks, at any
time. -/
theorem rrServed_rrRun : ∃ s s₁, run (Sys.exec .hz100) rrRun (Sys.booted .hz100) = some s
    ∧ s.schedule .hz100 = some s₁ ∧ s₁.curr = 1 ∧ ∀ n,
      (∃ s₂, rounds (Sys.timerRound .hz100) n s₁ = some s₂
          ∧ [1, 2] ~r s₂.queueAt (s₂.active, 59)
          ∧ (s₂.queueAt (s₂.active, 59)).head? = some s₂.curr)
        ∧ ∃ j ≤ 700, ∃ s₂, rounds (Sys.timerRound .hz100) (n + j) s₁ = some s₂ ∧ s₂.curr = 2 := by
  have hrun : ((run (Sys.exec .hz100) rrRun (Sys.booted .hz100)).any fun s =>
      (s.schedule .hz100).any fun s₁ => decide (s₁.curr = 1 ∧ (s₁.task s₁.curr).policy = .rr
        ∧ (s₁.task s₁.curr).prio = 59 ∧ s₁.queueAt (s₁.active, 59) = [1, 2]
        ∧ ∀ p ∈ s₁.queueAt (s₁.active, 59), (s₁.task p).policy = .rr)) = true := by
    decide +kernel
  obtain ⟨s, hs, hany⟩ := (Option.any_eq_true _ _).mp hrun
  obtain ⟨s₁, hs₁, hdec⟩ := (Option.any_eq_true _ _).mp hany
  obtain ⟨hcurr, hc, hk, hq, hrr⟩ := of_decide_eq_true hdec
  refine ⟨s, s₁, hs, hs₁, hcurr, fun n => ?_⟩
  obtain ⟨hround, hserved⟩ := rrServed_of_run (q := 2) (by decide) (by decide +kernel) hs hs₁
    hc hk hrr (by simp [hq]) n
  rw [hq] at hround hserved
  exact ⟨hround, hserved⟩

end Os234123.Sched
