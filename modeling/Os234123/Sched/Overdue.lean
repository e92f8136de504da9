import Os234123.Sched.ForkQueues

/-!
The order of the overdue tasks.

* `Waiting`: both tasks stand in the overdue array, and the first does not yield;
* `SentBack`: the first task gets a new nice value;
* `exec_ahead`: an operation keeps the order of two waiting tasks unless it sends the first one
  back;
* `overdue_order`: so does a run;
* `not_overdue_order`: a run that does not.
-/

namespace Os234123.Sched

open Buckets Machine

/-! ### One operation -/

/-- The queue of the overdue tasks. -/
def Sys.overdueQueue (s : Sys) : List Tid := (s.arr .overdue).queue (maxPrio - 1)

/-- Both tasks stand in the overdue array. -/
def BothOverdue (a b : Tid) (s : Sys) : Prop :=
  (s.task a).array = some .overdue ∧ (s.task b).array = some .overdue

instance (a b : Tid) (s : Sys) : Decidable (BothOverdue a b s) :=
  inferInstanceAs (Decidable (_ ∧ _))

/-- Both tasks stand in the overdue array before the operation, and it is not a call of
`sched_yield` by the first. -/
def Waiting (a b : Tid) (s : Sys) (o : Op) : Prop :=
  BothOverdue a b s ∧ match o with
    | .yield => s.curr ≠ a
    | _ => True

instance (a b : Tid) (s : Sys) (o : Op) : Decidable (Waiting a b s o) := by
  unfold Waiting
  induction o using Op.casesOn <;> infer_instance

/-- The operation is a call of `set_user_nice` on `a` with a valid nice value other than the one it
has. -/
def SentBack (a : Tid) (s : Sys) : Op → Prop
  | .nice p n => p = a ∧ (s.task a).nice ≠ n ∧ -20 ≤ n ∧ n ≤ 19
  | _ => False

instance (a : Tid) (s : Sys) (o : Op) : Decidable (SentBack a s o) := by
  unfold SentBack
  induction o using Op.casesOn <;> infer_instance

section

variable {M : Arch} {s s' : Sys} {a b p : Tid} {o : Op}

/-- A task in the overdue array stands in the one queue of that array. -/
lemma Inv.mem_overdueQueue (h : Inv s) (ha : (s.task a).array = some .overdue) :
    a ∈ s.queueAt (.overdue, maxPrio - 1) :=
  h.mem_queue_iff.mpr ⟨ha, (h.tasks a (h.isTask_of_array ha)).overdue (h.toRqInv.isOverdue ha)⟩

/-- The move of one task keeps the order of two tasks in the overdue array, unless it sends the
first one to the end. -/
lemma Moved.ahead (h : Inv s) (h' : Inv s') (hm : Moved p s s') (hab : Ahead a b s.overdueQueue)
    (hs : BothOverdue a b s) (hs' : BothOverdue a b s')
    (hstill : p = a → s'.queueAt = s.queueAt ∨ s'.queueAt = Buckets.without a s.queueAt) :
    Ahead a b s'.overdueQueue := by
  have ha' := h'.mem_overdueQueue hs'.1
  have hb' := h'.mem_overdueQueue hs'.2
  have hno : ∀ x, x ∉ Buckets.without x s.queueAt (.overdue, maxPrio - 1) := fun x hx =>
    (((h.queues.located.nodup _).mem_erase_iff).mp hx).1 rfl
  have heq : s'.queueAt = s.queueAt → Ahead a b s'.overdueQueue := fun hq => by
    have hq' : s'.overdueQueue = s.overdueQueue := congrFun hq (.overdue, maxPrio - 1)
    rwa [hq']
  by_cases hpa : p = a
  · rcases hstill hpa with hq | hq
    · exact heq hq
    · rw [hq] at ha'
      exact absurd ha' (hno a)
  by_cases hpb : p = b
  · subst hpb
    cases hm with
    | still hq => exact heq hq
    | off hq =>
        rw [hq] at hb'
        exact absurd hb' (hno p)
    | last k hq =>
        -- it stands behind everyone
        obtain ⟨hka, hkp⟩ := h'.array_of_sendTo hq
        obtain ⟨hba, hbp⟩ := h'.mem_queue_iff.mp hb'
        have hk : k = (.overdue, maxPrio - 1) :=
          Prod.ext (Option.some.inj (hka.symm.trans hba)) (hkp.symm.trans hbp)
        have hq' : s'.overdueQueue = sendTo p k s.queueAt k := by
          rw [hk] at hq ⊢
          exact congrFun hq (.overdue, maxPrio - 1)
        rw [hq']
        exact Ahead.sent (hk ▸ h.mem_overdueQueue hs.1) (Ne.symm hpa)
    | put k l hl hq hp => exact absurd (h.toRqInv.isOverdue hs.2).1 hp
  · exact Ahead.of_without (k := (.overdue, maxPrio - 1)) hab (Ne.symm hpa) (Ne.symm hpb)
      (hm.without h.toRqInv)

/-- A fork keeps the order. -/
lemma fork_ahead {flags : ForkFlags} {c : Tid} (h : Inv s)
    (hs : s.exec M (.fork flags c) = some s') (hab : Ahead a b s.overdueQueue)
    (hw : BothOverdue a b s) : Ahead a b s'.overdueQueue := by
  by_cases ho : (s.task s.curr).IsOverdue
  · have hq : s'.overdueQueue = s.overdueQueue ++ [c] := by
      have := congrFun (fork_full h hs ho).1.queues (.overdue, maxPrio - 1)
      rwa [Function.update_self] at this
    rw [hq]
    exact hab.append [c]
  · obtain ⟨-, -, hc, -⟩ := fork_shared h hs
    have hne : ∀ x, (s.task x).array = some .overdue → x ≠ s.curr ∧ x ≠ c := by
      rintro x hx
      refine ⟨fun he => ho (he ▸ h.toRqInv.isOverdue hx), fun he => hc (Or.inl ?_)⟩
      exact he ▸ h.toRqInv.isTask_of_array hx
    obtain ⟨ha1, ha2⟩ := hne a hw.1
    obtain ⟨hb1, hb2⟩ := hne b hw.2
    have hw' : Ahead a b (without s.curr s.queueAt (.overdue, maxPrio - 1)) := hab.erase ha1 hb1
    have h₁ := hw'.of_without ha2 hb2 (fork_without h hs)
    exact h₁.trans (List.erase_sublist ..)

/-- A tick keeps the order: if it moves the first task, that task has left the array. -/
lemma tick_ahead (h : Inv s) (h' : Inv (s.schedulerTick M)) (hab : Ahead a b s.overdueQueue)
    (hw : BothOverdue a b s) (hw' : BothOverdue a b (s.schedulerTick M)) :
    Ahead a b (s.schedulerTick M).overdueQueue := by
  rcases queueAt_schedulerTick (M := M) h.toRqInv with hq | ⟨hc, hz, k, hq⟩
  · exact Moved.ahead h h' (p := s.curr) (.still hq) hab hw hw' fun _ => Or.inl hq
  · refine Moved.ahead h h' (.last k hq) hab hw hw' ?_
    rintro rfl
    have ho := h.toRqInv.isOverdue hw.1
    have ho' := h'.toRqInv.isOverdue hw'.1
    have ht := Sys.schedulerTick_charged (M := M) h.toRqInv hc
    generalize (s.schedulerTick M).task s.curr = u at ht ho'
    exfalso
    cases ht with
    | spend avg hnz => exact hnz hz
    | refillRr _ hp => simp [ho.1] at hp
    | refillOther avg a _ hp _ => simp [ho.1] at hp
    | turnOverdue avg _ hr => exact hr.not_overdue ho
    | turnOther avg _ _ => exact absurd ho'.1 (by simp [Sys.turnOther])

/-- A change of parameters keeps the order: an overdue task cannot be changed. -/
lemma setscheduler_ahead {pid policy : ℤ} {param : ParamPtr} (h : Inv s) (hc : s.curr ≠ s.idle)
    (h' : Inv (s.setscheduler M pid policy param).1) (hab : Ahead a b s.overdueQueue)
    (hw : BothOverdue a b s) (hw' : BothOverdue a b (s.setscheduler M pid policy param).1) :
    Ahead a b (s.setscheduler M pid policy param).1.overdueQueue := by
  rcases s.setscheduler_outcome M pid policy param with
    ⟨sp, e, heq⟩ | ⟨p, pol, lp, -, hfind, rfl, hout⟩
  · rw [heq]
    exact hab
  generalize s.setscheduler M pid policy (.readable lp) = x at hout h' hw' ⊢
  cases hout with
  | refused sp e => exact hab
  | changed sp hacc =>
      have h₁ : Inv ({ s with superpriv := sp } : Sys) := ⟨h.toRqInv.of_counters, h.curr, h.awake⟩
      have hp : s.IsTask p := h.isTask_of_find hc hfind
      have hreg := regular_of_not_badShort (h.tasks p hp) hacc.short
      refine Moved.ahead h₁ h' (Moved.applyParams h₁.toRqInv hp hreg) hab hw hw' ?_
      rintro rfl
      have ho := h.toRqInv.isOverdue hw.1
      have := (hreg ho.1).2
      rw [ho.2] at this
      exact absurd this (by decide)

/-- A new nice value keeps the order of two other tasks, and if it is not new that of any two. -/
lemma nice_ahead {n : ℤ} (h : Inv s) (h' : Inv (s.setUserNice p n)) (hab : Ahead a b s.overdueQueue)
    (hw : BothOverdue a b s) (hw' : BothOverdue a b (s.setUserNice p n))
    (hn : ¬ SentBack a s (.nice p n)) : Ahead a b (s.setUserNice p n).overdueQueue := by
  obtain ⟨hsame, hm⟩ := Moved.setUserNice (p := p) h.toRqInv n
  refine Moved.ahead h h' hm hab hw hw' ?_
  rintro rfl
  refine Or.inl (Sys.queueAt_of_arr (hsame ?_))
  by_contra hno
  simp only [not_or, not_lt] at hno
  exact hn ⟨rfl, hno⟩

/-- Yielding keeps the order, unless the first task yields. -/
lemma yield_ahead (h : Inv s) (hc : s.curr ≠ s.idle) (hs : s.sysSchedYield M = some s')
    (h' : Inv s') (hab : Ahead a b s.overdueQueue) (hw : BothOverdue a b s)
    (hw' : BothOverdue a b s') (hne : s.curr ≠ a) : Ahead a b s'.overdueQueue := by
  have h₁ := h.yieldQueue (M := M) hc
  have hq := Quiet.yieldQueue (M := M) h hc
  have hover : ∀ x, (s.task x).array = some .overdue →
      ((s.yieldQueue M).task x).array = some .overdue := by
    rintro x hx
    have hk := hq.kept x (by simp)
    have ho := h.toRqInv.isOverdue hx
    have hqd := hk.queued.mpr (by simp [hx])
    exact h₁.toRqInv.overdue_array (h₁.queued x hqd)
      ⟨hk.policy.trans ho.1, hk.isShort.trans ho.2⟩ hqd
  have hw₁ : BothOverdue a b (s.yieldQueue M) := ⟨hover a hw.1, hover b hw.2⟩
  have hab₁ := Moved.ahead h h₁ (Moved.yieldQueue h hc) hab hw hw₁ fun he => absurd he hne
  have hsched := schedule_queues h₁ hs
  exact Moved.ahead h₁ h' (p := (s.yieldQueue M).curr) (hsched.elim .still .off) hab₁ hw₁ hw'
    fun he => he ▸ hsched

/-- **An operation keeps the order of two waiting tasks**, unless it sends the first one back. -/
theorem exec_ahead (h : Inv s) (hs : s.exec M o = some s') (hab : Ahead a b s.overdueQueue)
    (hw : Waiting a b s o) (hw' : BothOverdue a b s') (hn : ¬ SentBack a s o) :
    Ahead a b s'.overdueQueue := by
  have h' := (exec_step h hs).inv
  obtain ⟨hboth, hyield⟩ := hw
  have hstill : ∀ {t : Sys}, t.arr = s.arr → Ahead a b t.overdueQueue := fun {t} ht => by
    rw [Sys.overdueQueue, ht]
    exact hab
  cases o with
  | elapse =>
      obtain rfl := Option.some.inj hs
      exact hab
  | tick =>
      obtain rfl := Option.some.inj hs
      exact tick_ahead h h' hab hboth hw'
  | wake p =>
      simp only [Sys.exec] at hs
      split_ifs at hs
      obtain rfl := Option.some.inj hs
      obtain ⟨hsame, hm⟩ := Moved.tryToWakeUp (M := M) (p := p) h.toRqInv
      refine Moved.ahead h h' hm hab hboth hw' ?_
      rintro rfl
      exact Or.inl (Sys.queueAt_of_arr (hsame (by simp [hboth.1])))
  | signal p pending =>
      simp only [Sys.exec] at hs
      split_ifs at hs
      obtain rfl := Option.some.inj hs
      exact hstill rfl
  | setState st =>
      simp only [Sys.exec] at hs
      split_ifs at hs
      obtain rfl := Option.some.inj hs
      exact hstill rfl
  | setCred u e c =>
      simp only [Sys.exec] at hs
      split_ifs at hs
      obtain rfl := Option.some.inj hs
      exact hstill rfl
  | schedule =>
      have hq := schedule_queues h hs
      exact Moved.ahead h h' (p := s.curr) (hq.elim .still .off) hab hboth hw' fun he => he ▸ hq
  | fork flags c => exact fork_ahead h hs hab hboth
  | nice p n =>
      simp only [Sys.exec] at hs
      split_ifs at hs
      obtain rfl := Option.some.inj hs
      exact nice_ahead h h' hab hboth hw' hn
  | setscheduler pid policy param =>
      simp only [Sys.exec] at hs
      split_ifs at hs with hp
      obtain rfl := Option.some.inj hs
      exact setscheduler_ahead h hp.1 h' hab hboth hw'
  | yield =>
      simp only [Sys.exec] at hs
      split_ifs at hs with hp
      exact yield_ahead h hp.1 hs h' hab hboth hw' hyield
  | exit r =>
      simp only [Sys.exec] at hs
      split_ifs at hs
      obtain rfl := Option.some.inj hs
      exact hstill rfl
  | reap p =>
      simp only [Sys.exec] at hs
      split_ifs at hs
      obtain rfl := Option.some.inj hs
      refine hstill ?_
      simp only [Sys.releaseTask, Sys.schedExit]
      split_ifs <;> rfl

/-! ### A whole run -/

/-- **The overdue tasks are served in their order**, in every run that does not send the first one
back. -/
theorem overdue_order {ops ops' : List Op} (hrun : run (Sys.exec M) ops (Sys.booted M) = some s)
    (hab : Ahead a b s.overdueQueue) (hwait : Along (Sys.exec M) (Waiting a b) ops' s)
    (hback : Along (Sys.exec M) (fun s o => ¬ SentBack a s o) ops' s)
    (hrun' : run (Sys.exec M) ops' s = some s') (hend : BothOverdue a b s') :
    Ahead a b s'.overdueQueue := by
  have h := reach_inv hrun
  clear hrun
  induction ops' generalizing s with
  | nil =>
      rw [run_nil, Option.some.injEq] at hrun'
      exact hrun' ▸ hab
  | cons o ops' ih =>
      obtain ⟨s₁, hs₁, hrest⟩ := run_cons_eq_some.mp hrun'
      have hboth : BothOverdue a b s₁ := by
        cases ops' with
        | nil =>
            rw [run_nil, Option.some.injEq] at hrest
            exact hrest ▸ hend
        | cons o' ops'' => exact (hwait.2 s₁ hs₁).1.1
      exact ih (exec_ahead h hs₁ hab hwait.1 hboth hback.1) (hwait.2 s₁ hs₁) (hback.2 s₁ hs₁) hrest
        (exec_step h hs₁).inv

end

/-- A process is overdue and forks a child that is overdue as well. -/
def overduePairRun : List Op :=
  [.fork ⟨false, false⟩ 1, .schedule, .setscheduler 0 5 (.readable ⟨0, 10⟩), .tick,
    .fork ⟨false, false⟩ 2]

/-- Meanwhile the parent runs, forks again, and the child gets a new nice value. -/
def busyRun : List Op := [.tick, .fork ⟨false, false⟩ 3, .nice 2 5, .schedule]

theorem overdue_order_busyRun : ∃ s s',
    run (Sys.exec .hz100) overduePairRun (Sys.booted .hz100) = some s
      ∧ run (Sys.exec .hz100) busyRun s = some s' ∧ Ahead 1 2 s'.overdueQueue := by
  have hrun : ((run (Sys.exec .hz100) overduePairRun (Sys.booted .hz100)).any fun s =>
      decide (s.overdueQueue = [1, 2] ∧ Along (Sys.exec .hz100) (Waiting 1 2) busyRun s
        ∧ Along (Sys.exec .hz100) (fun s o => ¬ SentBack 1 s o) busyRun s
        ∧ ((run (Sys.exec .hz100) busyRun s).any fun s' => decide (BothOverdue 1 2 s')) = true))
        = true := by
    decide +kernel
  obtain ⟨s, hs, hok⟩ := (Option.any_eq_true _ _).mp hrun
  obtain ⟨hq, hwait, hback, hend⟩ := of_decide_eq_true hok
  obtain ⟨s', hs', hboth⟩ := (Option.any_eq_true _ _).mp hend
  have hab : Ahead 1 2 s.overdueQueue := by
    rw [hq]
    exact List.Sublist.refl _
  exact ⟨s, s', hs, hs', overdue_order hs hab hwait hback hs' (of_decide_eq_true hboth)⟩

/-- A new nice value sends the parent behind its child. -/
theorem not_overdue_order : ¬ ∀ (M : Arch) (a b : Tid) (s s' : Sys) (ops ops' : List Op),
    run (Sys.exec M) ops (Sys.booted M) = some s → Ahead a b s.overdueQueue →
      Along (Sys.exec M) (Waiting a b) ops' s → run (Sys.exec M) ops' s = some s' →
      BothOverdue a b s' → Ahead a b s'.overdueQueue := by
  intro hall
  have hrun : ((run (Sys.exec .hz100) overduePairRun (Sys.booted .hz100)).any fun s =>
      decide (s.overdueQueue = [1, 2] ∧ Along (Sys.exec .hz100) (Waiting 1 2) [.nice 1 5] s
        ∧ ((run (Sys.exec .hz100) [.nice 1 5] s).any fun s' =>
          decide (BothOverdue 1 2 s' ∧ s'.overdueQueue = [2, 1])) = true)) = true := by
    decide +kernel
  obtain ⟨s, hs, hbad⟩ := (Option.any_eq_true _ _).mp hrun
  obtain ⟨hq, hwait, hend⟩ := of_decide_eq_true hbad
  obtain ⟨s', hs', hboth⟩ := (Option.any_eq_true _ _).mp hend
  obtain ⟨hboth', hq'⟩ := of_decide_eq_true hboth
  have hab : Ahead 1 2 s.overdueQueue := by
    rw [hq]
    exact List.Sublist.refl _
  have := hall .hz100 1 2 s s' overduePairRun [.nice 1 5] hs hab hwait hs' hboth'
  rw [hq'] at this
  exact this.head?_ne (by decide) rfl

end Os234123.Sched
