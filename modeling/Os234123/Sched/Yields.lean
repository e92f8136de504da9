import Os234123.Lib.Rotation
import Os234123.Sched.Frames

/-!
SHORT tasks that do nothing but yield take turns.

* `RegularPeers`, `OverduePeers`: the tasks that share the processor, and that nobody comes before;
* `OnlyYields`: the tasks that run do nothing but yield, and no slice ends;
* `Round`: the same read off the runqueue, with the peers as one queue;
* `Round.yieldQueue`, `Round.schedule`: the task that yields goes to the end, and the head of the
  queue comes next;
* `Round.exec`: one operation;
* `yields_goRound`: the selections go round the peers, in the same order for ever.
-/

namespace Os234123.Sched

open Buckets Machine

/-! ### The peers -/

/-- The running task and the others of `ts` are the runnable regular SHORT tasks of its priority,
and no real-time or better SHORT task is runnable. -/
structure RegularPeers (s : Sys) (ts : List Tid) : Prop where
  nodup : ts.Nodup
  curr : s.curr ∈ ts
  mem : ∀ q, q ∈ ts
    ↔ s.Runnable q ∧ (s.task q).IsRegular ∧ (s.task q).prio = (s.task s.curr).prio
  realTime : ∀ q, s.Runnable q → ¬ (s.task q).IsRt
  best : ∀ q, s.Runnable q → (s.task q).IsRegular → (s.task s.curr).prio ≤ (s.task q).prio

/-- The running task and the others of `ts` are the overdue tasks, and nothing else is runnable. -/
structure OverduePeers (s : Sys) (ts : List Tid) : Prop where
  nodup : ts.Nodup
  curr : s.curr ∈ ts
  mem : ∀ q, q ∈ ts ↔ s.Runnable q ∧ (s.task q).IsOverdue
  alone : ∀ q, s.Runnable q → (s.task q).IsOverdue

/-- The running task yields, or `schedule` is called for another reason; time passes and ticks that
end no slice, and signals come.  Nobody is woken or forked, and no parameters change. -/
def OnlyYields (s : Sys) : Op → Prop
  | .yield => True
  | .schedule => True
  | .elapse => True
  | .tick => usub (s.task s.curr).timeSlice 1 ≠ 0
  | .signal p _ => s.IsTask p
  | _ => False

instance (s : Sys) (o : Op) : Decidable (OnlyYields s o) := by
  unfold OnlyYields
  induction o using Op.casesOn <;> infer_instance

/-- The task that the `schedule` inside `sys_sched_yield` selects. -/
def Op.selected : Op → Sys → Option Tid
  | .yield, s' => some s'.curr
  | _, _ => none

/-- The selections of a run. -/
def selections (M : Arch) (ops : List Op) (s : Sys) : List Tid :=
  trace (Sys.exec M) Op.selected ops s

/-! ### The round -/

lemma Sys.rankOf_eq_regular {s : Sys} {p : Tid} :
    s.rankOf p = .regular ↔ (s.task p).IsRegular := by
  simp only [rankOf, Task.IsRegular]
  cases (s.task p).policy with
  | short => by_cases h1 : (s.task p).isShort = 1 <;> simp [h1]
  | other => by_cases ha : (s.task p).array = some s.active <;> simp [ha]
  | _ => simp

/-- The running task stands in the queue `l` of a SHORT array, and no queued task comes before
it. -/
structure Round (a : ArrayId) (k : ℕ) (l : List Tid) (s : Sys) : Prop where
  inv : Inv s
  queue : s.queueAt (a, k) = l
  curr : s.curr ∈ l
  awake : (s.task s.curr).state = .running
  best : (a = .shortActive ∧ ∀ q, (s.task q).array ≠ none →
      ¬ (s.task q).IsRt ∧ ((s.task q).IsRegular → k ≤ (s.task q).prio))
    ∨ (a = .overdue ∧ ∀ q, (s.task q).array ≠ none → (s.task q).IsOverdue)

namespace Round

variable {M : Arch} {s s' : Sys} {a : ArrayId} {k : ℕ} {l : List Tid}

lemma curr_array (h : Round a k l s) : (s.task s.curr).array = some a ∧ (s.task s.curr).prio = k :=
  h.inv.mem_queue_iff.mp (h.queue ▸ h.curr : s.curr ∈ s.queueAt (a, k))

/-- The running task is SHORT, and belongs in the array it stands in. -/
lemma curr_class (h : Round a k l s) : (s.task s.curr).policy = .short
    ∧ homeOf s.active (s.task s.curr) = a := by
  have ha := h.curr_array.1
  rcases h.best with ⟨rfl, -⟩ | ⟨rfl, -⟩
  · obtain ⟨hp, h1⟩ := h.inv.toRqInv.isRegular ha
    exact ⟨hp, by simp [homeOf, hp, h1]⟩
  · obtain ⟨hp, h1⟩ := h.inv.toRqInv.isOverdue ha
    exact ⟨hp, by simp [homeOf, hp, h1]⟩

/-- An operation that keeps the place and the class of every task. -/
lemma of_same (h : Round a k l s) (h' : Inv s') {l' : List Tid} (hq : s'.queueAt (a, k) = l')
    (hc : s'.curr ∈ l') (hst : (s'.task s'.curr).state = .running)
    (hsame : ∀ q, ((s'.task q).array ≠ none → (s.task q).array ≠ none)
      ∧ (s'.task q).prio = (s.task q).prio ∧ (s'.task q).policy = (s.task q).policy
      ∧ (s'.task q).isShort = (s.task q).isShort) : Round a k l' s' := by
  refine ⟨h', hq, hc, hst, ?_⟩
  have hclass : ∀ q, ((s'.task q).IsRt ↔ (s.task q).IsRt)
      ∧ ((s'.task q).IsRegular ↔ (s.task q).IsRegular)
      ∧ ((s'.task q).IsOverdue ↔ (s.task q).IsOverdue) := fun q => by
    obtain ⟨-, hp, hpol, hsh⟩ := hsame q
    simp only [Task.IsRt, Task.IsRegular, Task.IsOverdue, hp, hpol, hsh, and_self]
  rcases h.best with ⟨ha, hb⟩ | ⟨ha, hb⟩
  · refine Or.inl ⟨ha, fun q hqa => ?_⟩
    rw [(hclass q).1, (hclass q).2.1, (hsame q).2.1]
    exact hb q ((hsame q).1 hqa)
  · refine Or.inr ⟨ha, fun q hqa => ?_⟩
    rw [(hclass q).2.2]
    exact hb q ((hsame q).1 hqa)

/-- **The task that yields goes to the end of the queue.** -/
lemma yieldQueue (h : Round a k l s) :
    Round a k (l.erase s.curr ++ [s.curr]) (s.yieldQueue M) := by
  obtain ⟨ha, hk⟩ := h.curr_array
  obtain ⟨hpol, hhome⟩ := h.curr_class
  have hid := h.inv.toRqInv.isTask_of_array ha
  have hq := Quiet.yieldQueue (M := M) h.inv hid.2
  have heq : s.yieldQueue M = (s.deactivateTask s.curr).activateTask M s.curr := by
    rw [Sys.yieldQueue, if_pos hpol]
  have hqueue : (s.yieldQueue M).queueAt (a, k) = l.erase s.curr ++ [s.curr] := by
    rw [heq, h.inv.toRqInv.queueAt_reactivate ha, hhome,
      Sys.bonusOf_of_class M _ _ (Or.inr hpol), hk, sendTo_self, h.queue]
  have hkept := fun q => hq.kept q (by simp)
  refine h.of_same (h.inv.yieldQueue hid.2) hqueue ?_ ?_ fun q => ⟨(hkept q).queued.mp, ?_,
    (hkept q).policy, (hkept q).isShort⟩
  · rw [hq.curr]
    simp
  · rw [hq.curr, (hkept _).state, h.awake]
  · by_cases hqc : q = s.curr
    · have hmild := MildAll.yieldQueue M h.inv hid.2 q
      exact hmild.prio.resolve_right fun hx => hx.1 (hqc ▸ hpol)
    · exact (AlikeBut.yieldQueue (S := [s.curr]) (by simp) q (by simpa using hqc)).prio

/-- The task a pass of `schedule` takes stands in the same queue as the running one. -/
lemma choice_place (h : Round a k l s) {q : Tid} {b : ArrayId} (hqb : (s.task q).array = some b)
    (hle : (s.rankOf q).place < (s.rankOf s.curr).place
      ∨ s.rankOf s.curr = s.rankOf q ∧ (s.task q).prio ≤ (s.task s.curr).prio) :
    b = a ∧ (s.task q).prio = k := by
  obtain ⟨ha, hk⟩ := h.curr_array
  have hqa : (s.task q).array ≠ none := by simp [hqb]
  have hstands := h.inv.toRqInv.standsIn hqb
  rcases h.best with ⟨rfl, hbest⟩ | ⟨rfl, hbest⟩
  · have hcurr := Sys.rankOf_eq_regular.mpr (h.inv.toRqInv.isRegular ha)
    obtain ⟨hrt, hge⟩ := hbest q hqa
    rw [hcurr] at hle
    rcases hle with hlt | ⟨heq, hle⟩
    · -- only a real-time task would come before
      exfalso
      cases hr : s.rankOf q with
      | realTime =>
          rw [hr] at hstands
          exact hrt hstands.2
      | _ => simp [hr, Rank.place] at hlt
    · rw [← heq] at hstands
      have hreg := Sys.rankOf_eq_regular.mp heq.symm
      exact ⟨hstands, le_antisymm (hk ▸ hle) (hge hreg)⟩
  · have ho := hbest q hqa
    have hqt := h.inv.toRqInv.isTask_of_array hqb
    have hqo := h.inv.toRqInv.overdue_array hqt ho hqa
    have hprio : ∀ x, s.IsTask x → (s.task x).IsOverdue → (s.task x).prio = maxPrio - 1 :=
      fun x hx => (h.inv.tasks x hx).overdue
    refine ⟨Option.some.inj (hqb.symm.trans hqo), ?_⟩
    rw [hprio q hqt ho, ← hk, hprio _ (h.inv.toRqInv.isTask_of_array ha)
      (h.inv.toRqInv.isOverdue ha)]

/-- **The head of the queue comes next.** -/
lemma schedule (h : Round a k l s) : ∃ s', s.schedule M = some s' ∧ Round a k l s'
    ∧ l.head? = some s'.curr := by
  obtain ⟨s₁, next, hs, -, -, -, htask, -⟩ := h.inv.schedule_cases M
  obtain ⟨s', hs', h', -⟩ := h.inv.schedule M
  obtain rfl := Option.some.inj (hs.symm.trans hs')
  have honly := schedule_onlyRemoves h.inv hs
  obtain ⟨hq, hself⟩ := honly.prev.resolve_right fun hx => hx.1 h.awake
  have hall : ∀ q, Alike (s.task q) ((s₁.switchTo next).task q) := fun q => by
    by_cases hqc : q = s.curr
    · exact hqc ▸ hself
    · exact honly.others q (by simpa using hqc)
  -- the running task stays queued, so it is one of those to choose from
  have hprev : s.schedulePrev
      = s.modTask s.curr fun t => { t with sleepTimestamp := s.jiffies } := by
    simp only [Sys.schedulePrev, Sys.modTask_task_self, h.awake]
  have hsame : ∀ q, Alike (s.task q) (s.schedulePrev.task q) := fun q => by
    rw [hprev]
    exact AlikeBut.modAlike (S := []) ⟨rfl, rfl, rfl, rfl, rfl⟩ q (by simp)
  have hrank : ∀ q, s.schedulePrev.rankOf q = s.rankOf q := fun q => by
    have hact : s.schedulePrev.active = s.active := by rw [hprev, Sys.modTask_active]
    rw [Sys.rankOf, Sys.rankOf, (hsame q).policy, (hsame q).isShort, (hsame q).array, hact]
  have hrun : s.schedulePrev.Runnable s.curr :=
    h.inv.runnable_iff.mpr (by rw [(hsame _).array, h.curr_array.1]; exact Option.some_ne_none _)
  obtain ⟨b, hch⟩ := h.inv.schedule_choice hrun hs
  have hcurr : (s₁.switchTo next).curr = next := (switchTo_frame s₁ next).2.2.1
  rw [hcurr] at hch
  have hbest := hch.best s.curr hrun
  rw [hrank, hrank, (hsame next).prio, (hsame s.curr).prio] at hbest
  obtain ⟨rfl, hk⟩ := h.choice_place (by rw [← (hsame next).array, hch.array]) hbest
  have hhead : l.head? = some next := by
    have := hch.head
    rw [(hsame next).prio, hk, hprev] at this
    rwa [← h.queue]
  have hst : ((s₁.switchTo next).task next).state = .running := by
    rw [((switchTo_frame s₁ next).2.2.2.1 next).state, htask]
    exact hch.runnable.2
  refine ⟨_, hs, h.of_same h' ((congrFun hq _).trans h.queue) ?_ (by rw [hcurr, hst]) fun q => ?_,
    by rw [hcurr, hhead]⟩
  · rw [hcurr]
    exact List.mem_of_head? hhead
  · exact ⟨fun hne => (hall q).array ▸ hne, (hall q).prio, (hall q).policy, (hall q).isShort⟩

/-- A tick that ends no slice. -/
lemma tick (h : Round a k l s) (hslice : usub (s.task s.curr).timeSlice 1 ≠ 0) :
    Round a k l (s.schedulerTick M) ∧ (s.schedulerTick M).curr = s.curr := by
  have hcurr : (s.schedulerTick M).curr = s.curr := Sys.schedulerTick_frame.1
  have hq : (s.schedulerTick M).queueAt = s.queueAt := by
    rcases queueAt_schedulerTick (M := M) h.inv.toRqInv with hq | ⟨-, hz, -⟩
    · exact hq
    · exact absurd hz hslice
  have hself : SameKey (s.task s.curr) ((s.schedulerTick M).task s.curr)
      ∧ ((s.schedulerTick M).task s.curr).state = (s.task s.curr).state := by
    by_cases hc : s.Charged s.curr
    · have ht := Sys.schedulerTick_charged (M := M) h.inv.toRqInv hc
      generalize (s.schedulerTick M).task s.curr = u at ht ⊢
      cases ht with
      | spend avg _ => exact ⟨⟨rfl, rfl, rfl, rfl, rfl⟩, rfl⟩
      | refillRr hz _ => exact absurd hz hslice
      | refillOther _ _ hz _ _ => exact absurd hz hslice
      | turnOverdue _ hz _ => exact absurd hz hslice
      | turnOther _ hz _ => exact absurd hz hslice
    · obtain ⟨b, hb⟩ := Sys.schedulerTick_uncharged (M := M) hc
      rw [hb]
      exact ⟨⟨rfl, rfl, rfl, rfl, rfl⟩, rfl⟩
  have hall : ∀ q, SameKey (s.task q) ((s.schedulerTick M).task q) := fun q => by
    by_cases hqc : q = s.curr
    · exact hqc ▸ hself.1
    · rw [Sys.schedulerTick_task_of_ne hqc]
      exact SameKey.refl _
  refine ⟨h.of_same (exec_step h.inv rfl (o := .tick)).inv ((congrFun hq _).trans h.queue) ?_ ?_
    fun q => ⟨fun hne => (hall q).array ▸ hne, (hall q).prio, (hall q).policy, (hall q).isShort⟩, hcurr⟩
  · rw [hcurr]
    exact h.curr
  · rw [hcurr, hself.2, h.awake]

/-- A change to one record that leaves place, class and state alone. -/
lemma modTask (h : Round a k l s) {p : Tid} {f : Task → Task} (h' : Inv (s.modTask p f))
    (hf : SameKey (s.task p) (f (s.task p))) (hst : (f (s.task p)).state = (s.task p).state) :
    Round a k l (s.modTask p f) := by
  have hall : ∀ q, SameKey (s.task q) ((s.modTask p f).task q)
      ∧ ((s.modTask p f).task q).state = (s.task q).state := fun q => by
    by_cases hq : q = p
    · rw [hq, Sys.modTask_task_self]
      exact ⟨hf, hst⟩
    · rw [Sys.modTask_task_of_ne _ _ _ hq]
      exact ⟨SameKey.refl _, rfl⟩
  exact h.of_same h' h.queue h.curr ((hall _).2.trans h.awake) fun q =>
    ⟨fun hne => (hall q).1.array ▸ hne, (hall q).1.prio, (hall q).1.policy, (hall q).1.isShort⟩

/-- **One operation**: it selects nobody and leaves the queue, or the task that yields goes to the
end and the head is selected. -/
lemma exec (h : Round a k l s) {o : Op} (hok : OnlyYields s o) : ∃ s', s.exec M o = some s' ∧
    ((o.selected s' = none ∧ Round a k l s' ∧ (s'.curr = s.curr ∨ l.head? = some s'.curr))
      ∨ (o.selected s' = some s'.curr ∧ Round a k (l.erase s.curr ++ [s.curr]) s'
        ∧ (l.erase s.curr ++ [s.curr]).head? = some s'.curr)) := by
  cases o with
  | elapse =>
      refine ⟨_, rfl, Or.inl ⟨rfl, ?_, Or.inl rfl⟩⟩
      exact h.of_same (exec_step h.inv rfl (o := .elapse) (M := M)).inv h.queue h.curr h.awake
        fun q => ⟨id, rfl, rfl, rfl⟩
  | tick =>
      obtain ⟨hr, hc⟩ := h.tick (M := M) hok
      exact ⟨_, rfl, Or.inl ⟨rfl, hr, Or.inl hc⟩⟩
  | signal p b =>
      have hs : s.exec M (.signal p b)
          = some (s.modTask p fun t => { t with sigpending := b }) := if_pos hok
      exact ⟨_, hs, Or.inl ⟨rfl, h.modTask (exec_step h.inv hs).inv ⟨rfl, rfl, rfl, rfl, rfl⟩ rfl,
        Or.inl rfl⟩⟩
  | schedule =>
      obtain ⟨s', hs, hr, hhead⟩ := h.schedule (M := M)
      exact ⟨s', hs, Or.inl ⟨rfl, hr, Or.inr hhead⟩⟩
  | yield =>
      have hin : s.InProcess := by
        refine ⟨(h.inv.toRqInv.isTask_of_array h.curr_array.1).2, ?_⟩
        rw [h.awake]
        decide
      obtain ⟨s', hs, hr, hhead⟩ := (h.yieldQueue (M := M)).schedule (M := M)
      exact ⟨s', (if_pos hin).trans hs, Or.inr ⟨rfl, hr, hhead⟩⟩
  | _ => exact absurd hok id

/-- A run goes on. -/
lemma run_isSome (h : Round a k l s) {ops : List Op} (hok : Along (Sys.exec M) OnlyYields ops s) :
    ∃ s', run (Sys.exec M) ops s = some s' := by
  induction ops generalizing s l with
  | nil => exact ⟨s, rfl⟩
  | cons o ops ih =>
      obtain ⟨s₁, hs₁, hcase⟩ := h.exec (M := M) hok.1
      have hr : ∃ l', Round a k l' s₁ := by
        rcases hcase with ⟨-, hr, -⟩ | ⟨-, hr, -⟩
        · exact ⟨_, hr⟩
        · exact ⟨_, hr⟩
      obtain ⟨l', hr⟩ := hr
      obtain ⟨s', hs'⟩ := ih hr (hok.2 s₁ hs₁)
      exact ⟨s', run_cons_eq_some.mpr ⟨s₁, hs₁, hs'⟩⟩

/-- The head of a list goes to its end. -/
lemma rotate_of_head {x : Tid} (hx : l.head? = some x) : l.erase x ++ [x] = l.rotate 1 := by
  cases l with
  | nil => simp at hx
  | cons y l =>
      obtain rfl : y = x := by simpa using hx
      simp

/-- Once the running task is the head of the queue, the selections go round. -/
lemma goesRound_of_head (h : Round a k l s) (hhead : l.head? = some s.curr) {ops : List Op}
    (hok : Along (Sys.exec M) OnlyYields ops s) :
    GoesRound (l.rotate 1) (selections M ops s) := by
  have hstep : ∀ s o s', (∃ l, Round a k l s ∧ l.head? = some s.curr) → OnlyYields s o →
      s.exec M o = some s' → (∃ l, Round a k l s' ∧ l.head? = some s'.curr) ∧
      ((o.selected s' = none ∧ (s'.queueAt (a, k)).rotate 1 = (s.queueAt (a, k)).rotate 1)
        ∨ ∃ x, o.selected s' = some x ∧ ((s.queueAt (a, k)).rotate 1).head? = some x
          ∧ (s'.queueAt (a, k)).rotate 1 = ((s.queueAt (a, k)).rotate 1).rotate 1) := by
    rintro s o s' ⟨l, h, hhead⟩ hok hs
    obtain ⟨s₁, hs₁, hcase⟩ := h.exec (M := M) hok
    obtain rfl := Option.some.inj (hs₁.symm.trans hs)
    rw [h.queue]
    rcases hcase with ⟨hno, hr, hc⟩ | ⟨hsel, hr, hhead'⟩
    · refine ⟨⟨l, hr, ?_⟩, Or.inl ⟨hno, by rw [hr.queue]⟩⟩
      rcases hc with hc | hc
      · rw [hc, hhead]
      · exact hc
    · rw [rotate_of_head hhead] at hr hhead'
      exact ⟨⟨_, hr, hhead'⟩, Or.inr ⟨_, hsel, hhead', by rw [hr.queue]⟩⟩
  have hround := trace_goesRound (q := fun s => (s.queueAt (a, k)).rotate 1) hstep ⟨l, h, hhead⟩ hok
  rwa [h.queue] at hround

/-- **The selections go round the queue**, wherever the running task stands in it. -/
theorem goesRound (h : Round a k l s) {ops : List Op}
    (hok : Along (Sys.exec M) OnlyYields ops s) :
    ∃ r, r.Perm l ∧ GoesRound r (selections M ops s) := by
  induction ops generalizing s with
  | nil => exact ⟨l, .refl l, GoesRound.nil l⟩
  | cons o ops ih =>
      obtain ⟨s₁, hs₁, hcase⟩ := h.exec (M := M) hok.1
      have htrace : selections M (o :: ops) s = (o.selected s₁).toList ++ selections M ops s₁ :=
        trace_cons hs₁
      rw [htrace]
      rcases hcase with ⟨hno, hr, -⟩ | ⟨hsel, hr, hhead⟩
      · rw [hno]
        exact ih hr (hok.2 s₁ hs₁)
      · refine ⟨l.erase s.curr ++ [s.curr], ?_, ?_⟩
        · exact (List.perm_append_singleton _ _).trans (List.perm_cons_erase h.curr).symm
        · rw [hsel]
          exact GoesRound.cons hhead (hr.goesRound_of_head hhead (hok.2 s₁ hs₁))

end Round

/-! ### The peers as one queue -/

section

variable {M : Arch} {s : Sys} {ts : List Tid}

/-- While the running task is runnable, the runnable tasks are the queued ones. -/
lemma Inv.queued_iff (h : Inv s) (hc : s.Runnable s.curr) {q : Tid} :
    s.Runnable q ↔ (s.task q).array ≠ none := by
  by_cases hq : q = s.curr
  · rw [hq]
    exact iff_of_true hc (h.curr hc.1.2)
  · refine ⟨fun hr => (h.awake q hr.1 hq).mp hr.2, fun ha => ?_⟩
    have hqt := h.queued q ha
    exact ⟨hqt, (h.awake q hqt hq).mpr ha⟩

/-- The regular peers are the queue the running task stands in. -/
lemma RegularPeers.round (h : Inv s) (hp : RegularPeers s ts) : ∃ l,
    Round .shortActive (s.task s.curr).prio l s ∧ l.Perm ts := by
  obtain ⟨hrun, hreg, -⟩ := (hp.mem _).mp hp.curr
  have hmem : ∀ q, q ∈ s.queueAt (.shortActive, (s.task s.curr).prio) ↔ q ∈ ts := fun q => by
    rw [hp.mem, h.queued_iff hrun]
    refine h.mem_queue_iff.trans ⟨fun ⟨ha, hk⟩ => ?_, fun ⟨ha, hr, hk⟩ => ?_⟩
    · exact ⟨by simp [ha], h.toRqInv.isRegular ha, hk⟩
    · obtain ⟨b, hb⟩ := Option.ne_none_iff_exists'.mp ha
      exact ⟨h.toRqInv.regular_array hb hr, hk⟩
  refine ⟨_, ⟨h, rfl, (hmem _).mpr hp.curr, hrun.2, Or.inl ⟨rfl, fun q hq => ?_⟩⟩,
    (List.perm_ext_iff_of_nodup (h.queues.located.nodup _) hp.nodup).mpr hmem⟩
  have hqr := (h.queued_iff hrun).mpr hq
  exact ⟨hp.realTime q hqr, hp.best q hqr⟩

/-- A regular SHORT task that is running, with its queue: nothing stands in the real-time queues
or in a better SHORT one. -/
lemma RegularPeers.of_queue (h : Inv s) (hst : (s.task s.curr).state = .running)
    (hreg : (s.task s.curr).IsRegular)
    (hts : s.queueAt (.shortActive, (s.task s.curr).prio) = ts)
    (hrt : ∀ k < maxRtPrio, (s.arr s.active).queue k = [])
    (hbest : ∀ k < (s.task s.curr).prio, (s.arr .shortActive).queue k = []) :
    RegularPeers s ts := by
  have hci : s.curr ≠ s.idle := fun hi => by
    have := hreg.1
    simp [hi, h.idle.policy] at this
  have hrun : s.Runnable s.curr := ⟨h.known_curr.resolve_right hci, hst⟩
  have hplace : ∀ q, s.Runnable q → (s.task q).IsRegular → (s.task q).array = some .shortActive := by
    intro q hq hr
    obtain ⟨b, hb⟩ := Option.ne_none_iff_exists'.mp ((h.queued_iff hrun).mp hq)
    exact h.toRqInv.regular_array hb hr
  have hmem : ∀ q, q ∈ ts
      ↔ s.Runnable q ∧ (s.task q).IsRegular ∧ (s.task q).prio = (s.task s.curr).prio := fun q => by
    rw [← hts]
    refine h.mem_queue_iff.trans ⟨fun ⟨ha, hk⟩ => ?_, fun ⟨hq, hr, hk⟩ => ⟨hplace q hq hr, hk⟩⟩
    exact ⟨(h.queued_iff hrun).mpr (by simp [ha]), h.toRqInv.isRegular ha, hk⟩
  refine ⟨hts ▸ h.queues.located.nodup _, (hmem _).mpr ⟨hrun, hreg, rfl⟩, hmem, fun q hq hqr => ?_,
    fun q hq hr => ?_⟩
  · obtain ⟨b, hb⟩ := Option.ne_none_iff_exists'.mp ((h.queued_iff hrun).mp hq)
    have hstands := h.toRqInv.standsIn hb
    have hreal : s.rankOf q = .realTime := by
      rw [Sys.rankOf]
      rcases (h.tasks q hq.1).isRt_iff.mp hqr with hp | hp <;> rw [hp]
    rw [hreal] at hstands
    have hin := h.mem_queue_iff.mpr ⟨hb, rfl⟩
    rw [hstands.1, hrt _ hstands.2] at hin
    exact absurd hin (List.not_mem_nil)
  · by_contra hlt
    have hin := h.mem_queue_iff.mpr ⟨hplace q hq hr, rfl⟩
    rw [hbest _ (not_le.mp hlt)] at hin
    exact absurd hin (List.not_mem_nil)

/-- The overdue peers are the queue of the overdue tasks. -/
lemma OverduePeers.round (h : Inv s) (hp : OverduePeers s ts) : ∃ l,
    Round .overdue (maxPrio - 1) l s ∧ l.Perm ts := by
  obtain ⟨hrun, hov⟩ := (hp.mem _).mp hp.curr
  have hmem : ∀ q, q ∈ s.queueAt (.overdue, maxPrio - 1) ↔ q ∈ ts := fun q => by
    rw [hp.mem, h.queued_iff hrun]
    refine h.mem_queue_iff.trans ⟨fun ⟨ha, _⟩ => ?_, fun ⟨ha, ho⟩ => ?_⟩
    · exact ⟨by simp [ha], h.toRqInv.isOverdue ha⟩
    · have hqt := h.queued q ha
      exact ⟨h.toRqInv.overdue_array hqt ho ha, (h.tasks q hqt).overdue ho⟩
  exact ⟨_, ⟨h, rfl, (hmem _).mpr hp.curr, hrun.2, Or.inr ⟨rfl, fun q hq =>
      hp.alone q ((h.queued_iff hrun).mpr hq)⟩⟩,
    (List.perm_ext_iff_of_nodup (h.queues.located.nodup _) hp.nodup).mpr hmem⟩

/-! ### Taking turns -/

/-- The run goes on, every `sched_yield` in it selects a task, as many consecutive selections as
there are tasks take each of them once, and the order is the same for ever. -/
structure TakesTurns (M : Arch) (ts : List Tid) (ops : List Op) (s : Sys) : Prop where
  goesOn : ∃ s', run (Sys.exec M) ops s = some s'
  selects : (selections M ops s).length = ops.countP fun o => o matches .yield
  once : ∀ i, i + ts.length ≤ (selections M ops s).length →
    (((selections M ops s).drop i).take ts.length).Perm ts
  order : ∀ i, i + ts.length < (selections M ops s).length →
    (selections M ops s)[i + ts.length]? = (selections M ops s)[i]?

lemma Round.takesTurns {a : ArrayId} {k : ℕ} {l : List Tid} (h : Round a k l s) (hl : l.Perm ts)
    {ops : List Op} (hok : Along (Sys.exec M) OnlyYields ops s) : TakesTurns M ts ops s := by
  obtain ⟨s', hs'⟩ := h.run_isSome hok
  obtain ⟨r, hr, hround⟩ := h.goesRound hok
  have hlen : ts.length = r.length := (hr.trans hl).length_eq.symm
  refine ⟨⟨s', hs'⟩, trace_length (fun o s => ?_) hs', fun i hi => ?_, fun i hi => ?_⟩
  · cases o <;> rfl
  · rw [hlen] at hi ⊢
    rw [hround.window hi]
    exact (r.rotate_perm i).trans (hr.trans hl)
  · rw [hlen] at hi ⊢
    exact hround.periodic hi

/-- **Tasks that only yield take turns**: regular SHORT tasks of the best priority, and overdue ones
when nothing else is runnable. -/
theorem yields_goRound {ops ops' : List Op} (hrun : run (Sys.exec M) ops (Sys.booted M) = some s)
    (hpeers : RegularPeers s ts ∨ OverduePeers s ts)
    (hok : Along (Sys.exec M) OnlyYields ops' s) : TakesTurns M ts ops' s := by
  have h := reach_inv hrun
  rcases hpeers with hp | hp
  · obtain ⟨l, hr, hl⟩ := hp.round h
    exact hr.takesTurns hl hok
  · obtain ⟨l, hr, hl⟩ := hp.round h
    exact hr.takesTurns hl hok

end

/-- A SHORT process forks; the child stands before it in their queue. -/
def shortPairRun : List Op :=
  [.fork ⟨false, false⟩ 1, .schedule, .setscheduler 0 5 (.readable ⟨0, 100⟩),
    .fork ⟨false, false⟩ 2]

theorem yields_goRound_shortPairRun : ∃ s,
    run (Sys.exec .hz100) shortPairRun (Sys.booted .hz100) = some s ∧ s.curr = 1
      ∧ TakesTurns .hz100 [2, 1] (List.replicate 4 .yield) s := by
  have hrun : ((run (Sys.exec .hz100) shortPairRun (Sys.booted .hz100)).any fun s =>
      decide (s.curr = 1 ∧ (s.task s.curr).state = .running ∧ (s.task s.curr).IsRegular
        ∧ s.queueAt (.shortActive, (s.task s.curr).prio) = [2, 1]
        ∧ (∀ k < maxRtPrio, (s.arr s.active).queue k = [])
        ∧ (∀ k < (s.task s.curr).prio, (s.arr .shortActive).queue k = [])
        ∧ Along (Sys.exec .hz100) OnlyYields (List.replicate 4 .yield) s)) = true := by
    decide +kernel
  obtain ⟨s, hs, hall⟩ := (Option.any_eq_true _ _).mp hrun
  obtain ⟨hc, hst, hreg, hq, hrt, hbest, hok⟩ := of_decide_eq_true hall
  exact ⟨s, hs, hc, yields_goRound hs
    (Or.inl (.of_queue (reach_inv hs) hst hreg hq hrt hbest)) hok⟩

end Os234123.Sched
