import Os234123.Sched.Guards
import Os234123.Sched.Records
import Os234123.Sched.Slices

/-!
What the system tells about the parameters of a task: `sys_sched_getscheduler`,
`sys_sched_getparam` and the limits of `kernel/sched.c`, with the calls of
`kernel/hw2_syscalls.c` about SHORT tasks.

* `badPriority_iff_limits`: the limits it reports are those it checks;
* `Settled`: what becomes of the parameters of a task that nobody changes again;
* `Settled.change`: no other operation unsettles them;
* `ReadsBack`: the calls report the parameters asked for, and the stage of a SHORT request;
* `getparam_of_run`: they do until the next accepted change;
* `shortRemainingTime_of_run`: the time left is reported without overflow, and bounded.
-/

namespace Os234123.Sched

open Machine

/-! ### The calls -/

/-- A pointer for a result: null, not writable, or writable. -/
inductive ResultPtr where
  | null
  | fault
  | writable
  deriving DecidableEq

/-- `sys_sched_get_priority_max`. -/
def sysSchedGetPriorityMax (policy : ℤ) : Except Errno ℤ :=
  match Policy.ofInt policy with
  | some .fifo => .ok (maxUserRtPrio - 1)
  | some .rr => .ok (maxUserRtPrio - 1)
  | some .other => .ok 0
  | _ => .error .einval

/-- `sys_sched_get_priority_min`. -/
def sysSchedGetPriorityMin (policy : ℤ) : Except Errno ℤ :=
  match Policy.ofInt policy with
  | some .fifo => .ok 1
  | some .rr => .ok 1
  | some .other => .ok 0
  | _ => .error .einval

/-- **The limits are those that `setscheduler` checks**, for a real-time policy. -/
lemma badPriority_iff_limits {policy : ℤ} {pol : Policy} {lp : SchedParam}
    (hpol : Policy.ofInt policy = some pol) (hrt : pol = .fifo ∨ pol = .rr) :
    ∃ lo hi, sysSchedGetPriorityMin policy = .ok lo ∧ sysSchedGetPriorityMax policy = .ok hi
      ∧ (Sys.BadPriority pol lp ↔ lp.schedPriority < lo ∨ hi < lp.schedPriority) := by
  refine ⟨1, maxUserRtPrio - 1, ?_, ?_, ?_⟩
  · rcases hrt with rfl | rfl <;> rw [sysSchedGetPriorityMin, hpol]
  · rcases hrt with rfl | rfl <;> rw [sysSchedGetPriorityMax, hpol]
  · rcases hrt with rfl | rfl <;>
      simp only [Sys.BadPriority, ne_eq, reduceCtorEq, not_false_eq_true, if_false, true_and,
        maxUserRtPrio] <;> omega

namespace Sys

variable (M : Arch) (s : Sys)

/-- `sys_sched_getscheduler`. -/
def sysSchedGetscheduler (pid : ℤ) : Except Errno Policy :=
  if pid < 0 then .error .einval
  else match s.findProcessByPid pid with
    | some p => .ok (s.task p).policy
    | none => .error .esrch

/-- `sys_sched_getparam`: what it copies to the caller. -/
def sysSchedGetparam (pid : ℤ) (param : ResultPtr) : Except Errno SchedParam :=
  if param = .null ∨ pid < 0 then .error .einval
  else match s.findProcessByPid pid with
    | none => .error .esrch
    | some p =>
        if param = .fault then .error .efault
        else .ok ⟨(s.task p).rtPriority, (s.task p).requestedTime⟩

/-- `find_task_by_pid`. -/
def findTaskByPid (pid : ℤ) : Option Tid :=
  if 0 < pid ∧ s.live pid.toNat then some pid.toNat else none

/-- `sys_is_short`. -/
def sysIsShort (pid : ℤ) : Except Errno ℤ :=
  match s.findTaskByPid pid with
  | none => .error .esrch
  | some p =>
      if (s.task p).policy ≠ .short then .error .einval
      else if (s.task p).isShort = -1 then .ok 0
      else .ok 1

/-- `sys_short_remaining_time`, in milliseconds, computed in `unsigned int`. -/
def sysShortRemainingTime (pid : ℤ) : Except Errno ℕ :=
  match s.findTaskByPid pid with
  | none => .error .esrch
  | some p =>
      if (s.task p).policy ≠ .short then .error .einval
      else .ok (umul (s.task p).timeSlice 1000 / M.HZ)

end Sys

/-! ### Parameters that nobody changes again -/

/-- What becomes of a task that started as `t₀` while nobody changes its parameters: a SHORT
task may have turned overdue, and then back to an ordinary one. -/
structure Settled (t₀ t : Task) : Prop where
  rtPriority : t.rtPriority = t₀.rtPriority
  requestedTime : t.requestedTime = t₀.requestedTime
  stage : t.policy = t₀.policy ∧ t.isShort = t₀.isShort
    ∨ t₀.policy = .short ∧ t.isShort = -1 ∧ (t.policy = .short ∨ t.policy = .other)

namespace Settled

variable {M : Arch} {active expired : ArrayId} {t₀ t t' : Task}

lemma refl (t : Task) : Settled t t := ⟨rfl, rfl, Or.inl ⟨rfl, rfl⟩⟩

/-- A change that has nothing to do with the parameters. -/
lemma congr (h : Settled t₀ t) (hr : t'.rtPriority = t.rtPriority)
    (hq : t'.requestedTime = t.requestedTime) (hp : t'.policy = t.policy)
    (hi : t'.isShort = t.isShort) : Settled t₀ t' := by
  refine ⟨hr.trans h.rtPriority, hq.trans h.requestedTime, ?_⟩
  rw [hp, hi]
  exact h.stage

lemma mild (h : Settled t₀ t) (hm : Mild t t') : Settled t₀ t' :=
  h.congr hm.rtPriority hm.core.requestedTime hm.policy hm.isShort

/-- A SHORT task has started as one. -/
lemma short (h : Settled t₀ t) (hp : t.policy = .short) : t₀.policy = .short :=
  h.stage.elim (fun hs => hs.1.symm.trans hp) fun hs => hs.1

lemma tick (h : Settled t₀ t) (ht : TickOf M active expired t t') : Settled t₀ t' := by
  cases ht with
  | spend avg _ => exact h.congr rfl rfl rfl rfl
  | refillRr _ _ => exact h.congr rfl rfl rfl rfl
  | refillOther avg a _ _ _ => exact h.congr rfl rfl rfl rfl
  | turnOverdue avg _ hreg =>
      exact ⟨h.rtPriority, h.requestedTime, Or.inr ⟨h.short hreg.1, rfl, Or.inl hreg.1⟩⟩
  | turnOther avg _ hov =>
      exact ⟨h.rtPriority, h.requestedTime, Or.inr ⟨h.short hov.1, hov.2, Or.inr rfl⟩⟩

lemma halve (h : Settled t₀ t) : Settled t₀ (Sys.halve t) := by
  simp only [Sys.halve]
  split_ifs
  · exact h
  · exact h.congr rfl rfl rfl rfl

lemma share (h : Settled t₀ t) (ht : ShareOf M active expired t t') : Settled t₀ t' := by
  cases ht with
  | halved _ => exact h.halve
  | spared b _ => exact h.halve.congr rfl rfl rfl rfl
  | charged _ ht =>
      have hone : Settled t₀ { Sys.halve t with timeSlice := 1 } :=
        h.halve.congr rfl rfl rfl rfl
      exact hone.tick ht

lemma reniced (h : Settled t₀ t) (n : ℤ) : Settled t₀ (reniced n t) := by
  simp only [Sched.reniced, Sys.renice]
  split_ifs <;> exact h.congr rfl rfl rfl rfl

end Settled

/-- The operation is no accepted change of the parameters of task `p`, nor its end. -/
def Unchanged (M : Arch) (p : Tid) (s : Sys) : Op → Prop
  | .setscheduler pid policy param =>
      s.findProcessByPid pid ≠ some p ∨ (s.setscheduler M pid policy param).2 ≠ none
  | .reap q => q ≠ p
  | _ => True

instance (M : Arch) (p : Tid) (s : Sys) (o : Op) : Decidable (Unchanged M p s o) := by
  unfold Unchanged
  induction o using Op.casesOn <;> infer_instance

section

variable {M : Arch} {s s' : Sys} {o : Op} {p : Tid}

/-- No other operation unsettles the parameters of a task. -/
lemma Settled.change {t₀ t : Task} (h : Settled t₀ (s.task p)) (ho : Unchanged M p s o)
    (hc : Change M s p o t) : Settled t₀ t := by
  cases hc with
  | mild _ hm => exact h.mild hm
  | tick _ ht => exact h.tick ht
  | share _ hu hm => exact (h.share hu).mild hm
  | nice _ hm => exact (h.reniced _).mild hm
  | change hfind hok _ _ => exact absurd hok (ho.resolve_left (not_not.mpr hfind))
  | orphan _ _ hm => exact mild (t := orphaned _ _) (h.congr rfl rfl rfl rfl) hm
  | credit _ _ _ hm => exact mild (t := credited M _ _) (h.congr rfl rfl rfl rfl) hm

/-- A task that is not reaped stays. -/
lemma isTask_of_unchanged (h : Inv s) (hs : s.exec M o = some s') (hp : s.IsTask p)
    (ho : Unchanged M p s o) : s'.IsTask p := by
  have hstep := exec_step h hs
  refine ⟨?_, hstep.idle ▸ hp.2⟩
  rw [hstep.live]
  cases o with
  | fork flags c =>
      by_cases hpc : p = c
      · rw [hpc, Op.liveAfter, Function.update_self]
      · rw [Op.liveAfter, Function.update_of_ne hpc]
        exact hp.1
  | reap c =>
      rw [Op.liveAfter, Function.update_of_ne (Ne.symm ho)]
      exact hp.1
  | _ => exact hp.1

/-- A whole run settles what it starts with. -/
lemma settled_of_run {t₀ : Task} {ops : List Op} (h : Inv s) (hp : s.IsTask p)
    (ht : Settled t₀ (s.task p)) (hok : Along (Sys.exec M) (Unchanged M p) ops s)
    (hrun : run (Sys.exec M) ops s = some s') :
    Inv s' ∧ s'.IsTask p ∧ Settled t₀ (s'.task p) := by
  refine run_induct_along (P := fun s => Inv s ∧ s.IsTask p ∧ Settled t₀ (s.task p))
    (fun s o s' hi ho hs => ?_) ⟨h, hp, ht⟩ hok hrun
  obtain ⟨hinv, hpt, hset⟩ := hi
  exact ⟨(exec_step hinv hs).inv, isTask_of_unchanged hinv hs hpt ho,
    hset.change ho (exec_change hinv hs (Or.inl hpt))⟩

/-! ### What the calls report -/

/-- The stages of a SHORT request as the calls report them: running on its slice, overdue, or
back to `SCHED_OTHER`. -/
def ReportsStage (s : Sys) (p : Tid) : Prop :=
  s.sysSchedGetscheduler p = .ok .short ∧ s.sysIsShort p = .ok 1 ∧ s.sysWasShort p = none
    ∨ s.sysSchedGetscheduler p = .ok .short ∧ s.sysIsShort p = .ok 0 ∧ s.sysWasShort p = none
    ∨ s.sysSchedGetscheduler p = .ok .other ∧ s.sysIsShort p = .error .einval
      ∧ s.sysWasShort p = some 1

/-- The calls report the parameters `lp` that task `p`, which was `t`, has been given with the
policy `pol`: a SHORT request leaves the real-time priority, every other one the request and what is
remembered of an earlier SHORT life. -/
structure ReadsBack (t : Task) (pol : Policy) (lp : SchedParam) (s : Sys) (p : Tid) : Prop where
  short : pol = .short → s.sysSchedGetparam p .writable = .ok ⟨t.rtPriority, lp.requestedTime⟩
    ∧ ReportsStage s p
  usual : pol ≠ .short → s.sysSchedGetparam p .writable = .ok ⟨lp.schedPriority, t.requestedTime⟩
    ∧ s.sysSchedGetscheduler p = .ok pol ∧ s.sysIsShort p = .error .einval
    ∧ s.sysWasShort p = some (if t.isShort = -1 then 1 else 0)

/-- The idle task keeps its number. -/
lemma idle_eq_zero {ops : List Op} (hrun : run (Sys.exec M) ops (Sys.booted M) = some s) :
    s.idle = 0 := by
  have hall : Inv s ∧ s.idle = 0 := by
    refine run_induct (P := fun s => Inv s ∧ s.idle = 0) (fun s o s' hi hs => ?_)
      ⟨booted_inv M, booted_idle M⟩ hrun
    have hstep := exec_step hi.1 hs
    exact ⟨hstep.inv, hstep.idle.trans hi.2⟩
  exact hall.2

lemma pid_pos (h0 : s.idle = 0) (hp : s.IsTask p) : 0 < (p : ℤ) :=
  Int.natCast_pos.mpr (Nat.pos_of_ne_zero fun he => hp.2 (he.trans h0.symm))

/-- A task is found by its own number. -/
lemma find_self (h0 : s.idle = 0) (hp : s.IsTask p) :
    s.findProcessByPid p = some p ∧ s.findTaskByPid p = some p := by
  have hpos := pid_pos h0 hp
  constructor
  · rw [Sys.findProcessByPid, if_neg hpos.ne', Int.toNat_natCast, if_pos hp.1]
  · rw [Sys.findTaskByPid, Int.toNat_natCast, if_pos ⟨hpos, hp.1⟩]

/-- What the calls about a task found by its number come to. -/
lemma getparam_self (h0 : s.idle = 0) (hp : s.IsTask p) :
    s.sysSchedGetparam p .writable = .ok ⟨(s.task p).rtPriority, (s.task p).requestedTime⟩ := by
  have hneg : ¬ (ResultPtr.writable = .null ∨ (p : ℤ) < 0) := by simp
  rw [Sys.sysSchedGetparam, if_neg hneg, (find_self h0 hp).1]
  exact if_neg ResultPtr.noConfusion

lemma getscheduler_self (h0 : s.idle = 0) (hp : s.IsTask p) :
    s.sysSchedGetscheduler p = .ok (s.task p).policy := by
  rw [Sys.sysSchedGetscheduler, if_neg (by omega), (find_self h0 hp).1]

lemma isShort_self (h0 : s.idle = 0) (hp : s.IsTask p) :
    s.sysIsShort p = if (s.task p).policy ≠ .short then .error .einval
      else if (s.task p).isShort = -1 then .ok 0 else .ok 1 := by
  rw [Sys.sysIsShort, (find_self h0 hp).2]

lemma wasShort_self (h0 : s.idle = 0) (hp : s.IsTask p) :
    s.sysWasShort p = if (s.task p).policy = .short then none else some (-(s.task p).isShort) := by
  rw [Sys.sysWasShort, Int.toNat_natCast, if_pos ⟨pid_pos h0 hp, hp.1⟩]

/-- A task that started with a SHORT slice of its own is in one of the three stages. -/
lemma Settled.reportsStage {t₀ : Task} (h0 : s.idle = 0) (hp : s.IsTask p) (hreg : t₀.IsRegular)
    (ht : Settled t₀ (s.task p)) : ReportsStage s p := by
  rw [ReportsStage, getscheduler_self h0 hp, isShort_self h0 hp, wasShort_self h0 hp]
  rcases ht.stage with ⟨hpol, hi⟩ | ⟨-, hi, hpol | hpol⟩
  · rw [hpol, hi, hreg.1, hreg.2]
    exact Or.inl ⟨rfl, rfl, rfl⟩
  · rw [hpol, hi]
    exact Or.inr (Or.inl ⟨rfl, rfl, rfl⟩)
  · rw [hpol, hi]
    exact Or.inr (Or.inr ⟨rfl, rfl, rfl⟩)

/-- The parameters an accepted SHORT call leaves behind. -/
lemma Accepts.short_params {lp : SchedParam} (hcls : ClassOk (s.task p))
    (hacc : Accepts M s p .short lp) :
    (Sys.newParams M (s.task p) .short lp).IsRegular
      ∧ ((Sys.newParams M (s.task p) .short lp).requestedTime : ℤ) = lp.requestedTime
      ∧ (Sys.newParams M (s.task p) .short lp).rtPriority = (s.task p).rtPriority := by
  obtain ⟨-, hreq, hshort⟩ := hacc
  simp only [Sys.BadRequest, true_and, not_or, not_lt] at hreq
  simp only [Sys.BadShort, not_or, not_and] at hshort
  have hr : lp.requestedTime.toNat ≠ 0 := by omega
  rw [newParams_short, shortParams_eq]
  refine ⟨⟨rfl, ?_⟩, ?_, rfl⟩ <;> dsimp only
  · split_ifs with hp
    · exact (hcls.short hp).1.resolve_right (hshort.2.1 hp)
    · rfl
  · rw [if_neg hr]
    omega

/-- What an accepted call leaves a task with settles into what the calls report. -/
lemma Settled.readsBack {pol : Policy} {lp : SchedParam} (hcls : ClassOk (s.task p))
    (hacc : Accepts M s p pol lp) (h0 : s'.idle = 0) (hp : s'.IsTask p)
    (ht : Settled (Sys.newParams M (s.task p) pol lp) (s'.task p)) :
    ReadsBack (s.task p) pol lp s' p := by
  constructor
  · rintro rfl
    obtain ⟨hreg, hreq, hrt⟩ := hacc.short_params hcls
    rw [getparam_self h0 hp, ht.rtPriority, ht.requestedTime, hrt, hreq]
    exact ⟨rfl, ht.reportsStage h0 hp hreg⟩
  · intro hne
    have hprio : 0 ≤ lp.schedPriority := by
      have := hacc.priority
      simp only [Sys.BadPriority, not_and_or, not_or, not_lt] at this
      exact (this.resolve_left (not_not.mpr hne)).1
    have hnew := newParams_of_ne M (s.task p) hne lp
    obtain ⟨hpol, hi⟩ : (s'.task p).policy = pol ∧ (s'.task p).isShort = (s.task p).isShort := by
      rcases ht.stage with ⟨hp, hi⟩ | ⟨hp, -⟩
      · rw [hp, hi, hnew]
        exact ⟨rfl, rfl⟩
      · rw [hnew] at hp
        exact absurd hp hne
    -- a SHORT task stays SHORT, so it was an ordinary one or a real-time one
    have hmark := hcls.usual fun hs => hacc.short (Or.inl ⟨hs, hne⟩)
    rw [getparam_self h0 hp, getscheduler_self h0 hp, isShort_self h0 hp, wasShort_self h0 hp,
      ht.rtPriority, ht.requestedTime, hpol, hi, hnew, if_pos hne, if_neg hne]
    refine ⟨by rw [Int.toNat_of_nonneg hprio], rfl, rfl, ?_⟩
    rcases hmark with h | h <;> rw [h] <;> rfl

/-- **What `setscheduler` has set is what the calls report**, in every state until the next
accepted change or the end of the task. -/
theorem getparam_of_run {ops later : List Op} {s₁ : Sys} {pid policy : ℤ} {pol : Policy}
    {lp : SchedParam} (hrun : run (Sys.exec M) ops (Sys.booted M) = some s) (hf : Found s pid p)
    (hpol : requestedPolicy (s.task p) policy = some pol)
    (hok : (s.setscheduler M pid policy (.readable lp)).2 = none)
    (hset : s.exec M (.setscheduler pid policy (.readable lp)) = some s₁)
    (hlater : Along (Sys.exec M) (Unchanged M p) later s₁)
    (hrun' : run (Sys.exec M) later s₁ = some s') : ReadsBack (s.task p) pol lp s' p := by
  have h := reach_inv hrun
  have hstep := exec_step h hset
  obtain ⟨hproc, hs₁⟩ := Option.ite_none_right_eq_some.mp hset
  have hp : s.IsTask p := h.isTask_of_find hproc.1 hf.2
  have hp₁ : s₁.IsTask p := ⟨hstep.live ▸ hp.1, hstep.idle ▸ hp.2⟩
  -- the call ends in the change, with nothing but `superpriv` touched before
  obtain ⟨hacc, hnew⟩ : Accepts M s p pol lp
      ∧ Mild (Sys.newParams M (s.task p) pol lp) (s₁.task p) := by
    have hcall : s.setscheduler M pid policy (.readable lp) = s.setschedulerTask M p pol lp := by
      rw [setscheduler_found hf, hpol]
    have hout := s.setschedulerTask_outcome M p pol lp
    rw [← hcall] at hout
    obtain rfl := Option.some.inj hs₁
    generalize s.setscheduler M pid policy (.readable lp) = x at hout hok ⊢
    cases hout with
    | refused sp e => exact absurd hok (Option.some_ne_none e)
    | changed sp hacc => exact ⟨hacc, applyParams_mild M { s with superpriv := sp } p pol lp⟩
  obtain ⟨-, hp', ht⟩ := settled_of_run hstep.inv hp₁ ((Settled.refl _).mild hnew) hlater hrun'
  have h0 : s'.idle = 0 := by
    have hall : run (Sys.exec M) (ops ++ (.setscheduler pid policy (.readable lp) :: later))
        (Sys.booted M) = some s' := by
      rw [run_append, hrun, Option.bind_some, run_cons, hset]
      exact hrun'
    exact idle_eq_zero hall
  exact ht.readsBack (h.tasks p hp).classOk hacc h0 hp'

/-! ### The time left -/

/-- The time left of a slice in order, in milliseconds. -/
lemma SliceOk.remaining {t : Task} (h : SliceOk M t) :
    umul t.timeSlice 1000 = t.timeSlice * 1000 ∧ t.timeSlice * 1000 / M.HZ ≤ 7000
      ∧ (t.IsRegular → t.timeSlice * 1000 / M.HZ ≤ t.requestedTime + 300) := by
  have hint := M.HZ_int
  have hle := h.le
  have hlt : t.timeSlice * 1000 < uintSize := by
    simp only [uintSize]
    omega
  refine ⟨umul_of_lt hlt, ?_, fun hreg => ?_⟩
  · exact Nat.div_le_of_le_mul (by omega)
  · have hts := h.regular hreg
    simp only [Arch.jiffiesOf, Arch.maxTimeslice] at hts
    have hsplit : M.HZ * (t.requestedTime + 300) = t.requestedTime * M.HZ + 300 * M.HZ := by ring
    exact Nat.div_le_of_le_mul (by omega)

/-- **The time left of a SHORT task** is computed without overflow, and a regular one has at most
300 ms more than its request: what a child may have given back. -/
theorem shortRemainingTime_of_run (hz : 100 ≤ M.HZ) {ops : List Op}
    (hok : Along (Sys.exec M) (KeepsSlice M) ops (Sys.booted M))
    (hrun : run (Sys.exec M) ops (Sys.booted M) = some s) (hp : s.IsTask p)
    (hpol : (s.task p).policy = .short) :
    ∃ ms, s.sysShortRemainingTime M p = .ok ms ∧ ms = (s.task p).timeSlice * 1000 / M.HZ
      ∧ ms ≤ 7000 ∧ ((s.task p).IsRegular → ms ≤ (s.task p).requestedTime + 300) := by
  obtain ⟨hmul, hle, hreg⟩ := ((reach_slicesOk hz hok hrun).2 p (Or.inl hp)).remaining
  refine ⟨_, ?_, rfl, hle, hreg⟩
  rw [Sys.sysShortRemainingTime, (find_self (idle_eq_zero hrun) hp).2, ← hmul]
  exact if_neg (not_not.mpr hpol)

end

/-! ### Runs -/

/-- The first task asks for ten milliseconds. -/
def request10 : Op := .setscheduler 0 5 (.readable ⟨0, 10⟩)

/-- It uses them up and the overdue slice after them, and asks in vain for more. -/
def usedUpRun : List Op :=
  [.tick, .setscheduler 0 5 (.readable ⟨0, 40⟩), .tick, .tick, .nice 1 5]

theorem getparam_usedUpRun : ∃ s s₁ s',
    run (Sys.exec .hz100) [.fork ⟨false, false⟩ 1, .schedule] (Sys.booted .hz100) = some s
      ∧ s.exec .hz100 request10 = some s₁
      ∧ run (Sys.exec .hz100) usedUpRun s₁ = some s'
      ∧ ReadsBack (s.task 1) .short ⟨0, 10⟩ s' 1 := by
  have hrun : ((run (Sys.exec .hz100) [.fork ⟨false, false⟩ 1, .schedule]
      (Sys.booted .hz100)).any fun s =>
        decide ((0 : ℤ) ≤ 0 ∧ s.findProcessByPid 0 = some 1
          ∧ requestedPolicy (s.task 1) 5 = some .short
          ∧ (s.setscheduler .hz100 0 5 (.readable ⟨0, 10⟩)).2 = none)
        && (s.exec .hz100 request10).any fun s₁ =>
          decide (Along (Sys.exec .hz100) (Unchanged .hz100 1) usedUpRun s₁)
            && (run (Sys.exec .hz100) usedUpRun s₁).isSome) = true := by
    decide +kernel
  obtain ⟨s, hs, h⟩ := (Option.any_eq_true _ _).mp hrun
  obtain ⟨h1, h⟩ := (Bool.and_eq_true _ _).mp h
  obtain ⟨h0, hfind, hpol, hok⟩ := of_decide_eq_true h1
  obtain ⟨s₁, hs₁, h⟩ := (Option.any_eq_true _ _).mp h
  obtain ⟨h2, h⟩ := (Bool.and_eq_true _ _).mp h
  obtain ⟨s', hs'⟩ := Option.isSome_iff_exists.mp h
  exact ⟨s, s₁, s', hs, hs₁, hs',
    getparam_of_run hs ⟨h0, hfind⟩ hpol hok hs₁ (of_decide_eq_true h2) hs'⟩

/-- A SHORT task in the middle of its slice. -/
def midSliceRun : List Op :=
  [.fork ⟨false, false⟩ 1, .schedule, .setscheduler 0 5 (.readable ⟨0, 50⟩), .tick, .tick]

theorem shortRemainingTime_midSliceRun : ∃ s,
    run (Sys.exec .hz100) midSliceRun (Sys.booted .hz100) = some s
      ∧ ∃ ms, s.sysShortRemainingTime .hz100 1 = .ok ms ∧ ms = (s.task 1).timeSlice * 1000 / 100
        ∧ ms ≤ 7000 ∧ ((s.task 1).IsRegular → ms ≤ (s.task 1).requestedTime + 300) := by
  have hrun : ((run (Sys.exec .hz100) midSliceRun (Sys.booted .hz100)).any fun s =>
      decide (s.IsTask 1 ∧ (s.task 1).policy = .short)) = true := by
    decide +kernel
  obtain ⟨s, hs, hok⟩ := (Option.any_eq_true _ _).mp hrun
  obtain ⟨hp, hpol⟩ := of_decide_eq_true hok
  exact ⟨s, hs, shortRemainingTime_of_run (by decide) (by decide +kernel) hs hp hpol⟩

end Os234123.Sched
