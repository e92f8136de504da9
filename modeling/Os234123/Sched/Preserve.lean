import Os234123.Sched.Quiet

/-!
The operations on tasks the system knows keep the runqueue in order.

* `RqInv.tryToWakeUp`, `RqInv.setUserNice`, `RqInv.applyParams`, `RqInv.schedExit`,
  `RqInv.doExit`: the invariant under each operation;
* `Accepts`, `Sys.setscheduler_outcome`: `setscheduler` refuses, or changes the parameters;
* `Quiet.tryToWakeUp` .. `Quiet.doExit`: what the operations leave of the other tasks.
-/

namespace Os234123.Sched

open Buckets

/-- Asking for a reschedule changes nothing the invariant reads. -/
lemma Sys.reschedTask_same (s : Sys) (p q : Tid) :
    SameKey (s.task q) ((s.reschedTask p).task q) := by
  by_cases hq : q = p
  · rw [hq, Sys.reschedTask, Sys.modTask_task_self]
    exact ⟨rfl, rfl, rfl, rfl, rfl⟩
  · rw [Sys.reschedTask, Sys.modTask_task_of_ne _ _ _ hq]
    exact SameKey.refl _

/-! ### The records the operations leave behind -/

section

variable {M : Arch} {s : Sys}

lemma niceToPrio_bounds {n : ℤ} (h : ¬ n < -20) (h' : ¬ 19 < n) :
    maxRtPrio ≤ niceToPrio n ∧ niceToPrio n < maxPrio := by
  simp only [niceToPrio, maxRtPrio, maxPrio]
  omega

lemma renice_ok {active expired : ArrayId} {t : Task} (ht : TaskOk active expired t)
    (hrt : ¬ t.IsRt) {n : ℤ} (hn : ¬ n < -20) (hn' : ¬ 19 < n) :
    TaskOk active expired (Sys.renice n t) := by
  have hb := niceToPrio_bounds hn hn'
  have hpol : ¬ (t.policy = .fifo ∨ t.policy = .rr) := (not_congr ht.isRt_iff).mp hrt
  have ho : Task.IsOverdue { t with staticPrio := niceToPrio n } ↔ t.IsOverdue := Iff.rfl
  simp only [Sys.renice, ho]
  split_ifs with hov
  · exact ⟨ht.markers, ht.rt, ht.usual, ht.overdue, hb⟩
  · exact ⟨ht.markers, fun h => absurd h hpol, fun _ => hb, fun h => absurd h hov, hb⟩

lemma renice_array {t : Task} {n : ℤ} : (Sys.renice n t).array = t.array := by
  simp only [Sys.renice]
  split_ifs <;> rfl

/-- The slice computed for a SHORT task, before a zero is bumped. -/
def newSlice (M : Arch) (t : Task) (r : ℕ) : ℕ :=
  if t.policy = .short
  then usub (r * M.HZ / 1000) (usub (t.requestedTime * M.HZ / 1000) t.timeSlice)
  else r * M.HZ / 1000

/-- The record of a SHORT task in closed form. -/
lemma shortParams_eq (M : Arch) (t : Task) (r : ℕ) : Sys.shortParams M t r = { t with
    isShort := if t.policy = .short then t.isShort else 1
    requestedTime := if r = 0 then 1 else r
    timeSlice := if newSlice M t r = 0 then 1 else newSlice M t r } := by
  simp only [Sys.shortParams, newSlice]
  by_cases hp : t.policy = .short
  · simp only [hp, if_true]
    by_cases hr : r = 0 <;> simp only [hr, if_true, if_false] <;> split_ifs <;> simp_all
  · simp only [hp, if_false]
    by_cases hr : r = 0 <;> simp only [hr, if_true, if_false] <;> split_ifs <;> simp_all

/-- The record of a task that becomes or stays SHORT. -/
lemma newParams_short (M : Arch) (t : Task) (lp : SchedParam) : Sys.newParams M t .short lp
    = { Sys.shortParams M t lp.requestedTime.toNat with policy := .short, prio := t.staticPrio } := by
  simp [Sys.newParams, shortParams_eq]

/-- The record of every other change of parameters. -/
lemma newParams_of_ne (M : Arch) (t : Task) {policy : Policy} (hp : policy ≠ .short) (lp : SchedParam) :
    Sys.newParams M t policy lp = { t with
      policy := policy
      rtPriority := lp.schedPriority.toNat
      prio := if policy = .other then t.staticPrio
        else maxUserRtPrio - 1 - lp.schedPriority.toNat } := by
  by_cases ho : policy = .other
  · simp [Sys.newParams, ho]
  · simp [Sys.newParams, ho, hp]

/-- What the SHORT rules of `setscheduler` let through: a SHORT task is regular and stays
SHORT. -/
lemma regular_of_not_badShort {active expired : ArrayId} {t : Task}
    (ht : TaskOk active expired t) {policy : Policy} (hs : ¬ s.BadShort t policy) :
    t.policy = .short → policy = .short ∧ t.isShort = 1 := by
  simp only [Sys.BadShort, not_or, not_and, not_not] at hs
  obtain ⟨hs1, hs2, -, -⟩ := hs
  refine fun hps => ⟨hs1 hps, ?_⟩
  by_contra h1
  exact hs2 hps (ht.isShort_eq_neg_one hps h1)

/-- The record `setscheduler` leaves behind is in order, off the queues. -/
lemma newParams_ok {active expired : ArrayId} {t : Task} (ht : TaskOk active expired t)
    (hoff : t.array = none) (hne : active ≠ expired) {policy : Policy} {lp : SchedParam}
    (hs : t.policy = .short → policy = .short ∧ t.isShort = 1) :
    TaskOk active expired (Sys.newParams M t policy lp) := by
  by_cases hp : policy = .short
  · subst hp
    rw [newParams_short, shortParams_eq]
    refine TaskOk.of_regular rfl ?_ (Or.inl hoff) ht.static ht.static
    by_cases hps : t.policy = .short
    · simp [hps, (hs hps).2]
    · simp [hps]
  · have hold : t.policy ≠ .short := fun hps => hp (hs hps).1
    have h3 := ht.isShort_ne_one hold
    rw [newParams_of_ne M t hp lp]
    by_cases ho : policy = .other
    · exact TaskOk.of_other ho h3 (Or.inl hoff) (by simpa [ho] using ht.static) ht.static
    · have hrt : policy = .fifo ∨ policy = .rr := by
        cases policy <;> simp_all
      refine TaskOk.of_rt hrt h3 (Or.inl hoff) hne ?_ ht.static
      simp only [if_neg ho, maxUserRtPrio, maxRtPrio]
      omega

lemma newParams_array (M : Arch) (t : Task) (policy : Policy) (lp : SchedParam) :
    (Sys.newParams M t policy lp).array = t.array := by
  by_cases hp : policy = .short
  · rw [hp, newParams_short, shortParams_eq]
  · rw [newParams_of_ne M t hp]

end

namespace RqInv

variable {M : Arch} {s : Sys} {p : Tid}

lemma reschedTask (h : RqInv s) : RqInv (s.reschedTask p) :=
  h.modKey ⟨rfl, rfl, rfl, rfl, rfl⟩ fun hi => hi ▸ h.idle.state

lemma isTask_of_array (h : RqInv s) {a : ArrayId} (ha : (s.task p).array = some a) :
    s.IsTask p := h.queued p (by simp [ha])

/-- A listed task is not the idle task. -/
lemma isTask_of_live (h : RqInv s) (hp : s.live p = true) : s.IsTask p := by
  refine ⟨hp, fun hi => ?_⟩
  rw [hi, h.unlisted] at hp
  exact absurd hp (by simp)

/-- What `find_process_by_pid` finds is the caller or a listed task. -/
lemma found (h : RqInv s) {pid : ℤ} (hf : s.findProcessByPid pid = some p) :
    p = s.curr ∨ s.IsTask p := by
  simp only [Sys.findProcessByPid] at hf
  split_ifs at hf with h0 hlive
  · exact Or.inl (Option.some.inj hf).symm
  · exact Or.inr (Option.some.inj hf ▸ h.isTask_of_live hlive)

/-! ### Waking up -/

lemma tryToWakeUp (h : RqInv s) (hp : s.IsTask p) : RqInv (s.tryToWakeUp M p) := by
  simp only [Sys.tryToWakeUp]
  cases ha : (s.task p).array with
  | some a => exact h.modKey ⟨rfl, rfl, rfl, rfl, rfl⟩ fun _ => rfl
  | none =>
      have hoff : ∀ n, RqInv (({ s with nrUninterruptible := n } : Sys).activateTask M p) :=
        fun n => h.of_counters.activate M hp ha
      refine RqInv.modKey ?_ ⟨rfl, rfl, rfl, rfl, rfl⟩ fun _ => rfl
      split_ifs
      · exact (hoff _).reschedTask
      · exact hoff _
      · exact (hoff s.nrUninterruptible).reschedTask
      · exact hoff s.nrUninterruptible

/-! ### Nice values -/

lemma setUserNice (h : RqInv s) (hp : s.IsTask p) {n : ℤ} : RqInv (s.setUserNice p n) := by
  have ht := h.tasks p hp
  simp only [Sys.setUserNice]
  split_ifs with hn hrt
  · exact h
  · simp only [not_or] at hn
    have hb := niceToPrio_bounds hn.2.1 hn.2.2
    exact h.modStay hp rfl rfl ⟨ht.markers, ht.rt, ht.usual, ht.overdue, hb⟩
  · simp only [not_or] at hn
    have hok := renice_ok ht hrt hn.2.1 hn.2.2
    cases ha : (s.task p).array with
    | none => exact h.modOff hp ha (renice_array.trans ha) hok
    | some a =>
        have hq := h.requeue ha (b := a) (Sys.renice n)
          (hok.congr ⟨by rw [renice_array, ha], rfl, rfl, rfl, rfl⟩)
        dsimp only
        split_ifs
        · exact hq.reschedTask
        · exact hq

/-! ### Parameters -/

lemma isTask_deactivate : (s.deactivateTask p).IsTask p ↔ s.IsTask p := by
  rw [Sys.IsTask, Sys.IsTask, (s.deactivateTask_frame p).live, (s.deactivateTask_frame p).idle]

/-- The change itself, made while the task is off the queues. -/
lemma changeParams (h : RqInv s) (M : Arch) (policy : Policy) (lp : SchedParam)
    (hp : s.IsTask p) (ha : (s.task p).array = none)
    (hs : (s.task p).policy = .short → policy = .short ∧ (s.task p).isShort = 1) :
    RqInv (s.changeParams M p policy lp) ∧ (s.changeParams M p policy lp).IsTask p
      ∧ ((s.changeParams M p policy lp).task p).array = none := by
  have hmod : ∀ s₁ : Sys, RqInv s₁ → s₁.IsTask p → SameKey (s.task p) (s₁.task p) →
      RqInv (s₁.modTask p fun t => Sys.newParams M t policy lp) := by
    intro s₁ h₁ hp₁ hsame
    have ha₁ := hsame.array.trans ha
    refine h₁.modOff hp₁ ha₁ (by rw [newParams_array, ha₁])
      (newParams_ok (h₁.tasks p hp₁) ha₁ h₁.ends_ne ?_)
    rw [hsame.policy, hsame.isShort]
    exact hs
  have hsame := s.reschedTask_same s.curr p
  simp only [Sys.changeParams]
  split_ifs
  · exact ⟨hmod _ h.reschedTask hp hsame, hp,
      by rw [Sys.modTask_task_self, newParams_array, hsame.array, ha]⟩
  · exact ⟨hmod _ h hp (SameKey.refl _), hp, by rw [Sys.modTask_task_self, newParams_array, ha]⟩

lemma applyParams (h : RqInv s) (hp : s.IsTask p) {policy : Policy} {lp : SchedParam}
    (hs : (s.task p).policy = .short → policy = .short ∧ (s.task p).isShort = 1) :
    RqInv (s.applyParams M p policy lp) := by
  simp only [Sys.applyParams]
  cases ha : (s.task p).array with
  | none => exact (h.changeParams M policy lp hp ha hs).1
  | some a =>
      have htask : (s.deactivateTask p).task p = { s.task p with array := none } := by
        rw [Sys.deactivateTask_task, Function.update_self]
      obtain ⟨h₁, hp₁, ha₁⟩ := (h.deactivate ha).changeParams M policy lp
        (isTask_deactivate.mpr hp) (by rw [htask]) (by rw [htask]; exact hs)
      exact h₁.activate M hp₁ ha₁

/-! ### The end of a child -/

lemma schedExit (h : RqInv s) : RqInv (s.schedExit M p) := by
  have hmod : ∀ {s' : Sys} {f : Task → Task}, RqInv s' → SameKey (s'.task s'.curr)
      (f (s'.task s'.curr)) → (f (s'.task s'.curr)).state = (s'.task s'.curr).state →
      RqInv (s'.modTask s'.curr f) := fun h' hk hst =>
    h'.modKey hk fun hi => by rw [hst, hi, h'.idle.state]
  simp only [Sys.schedExit]
  split_ifs
  · exact hmod (hmod h ⟨rfl, rfl, rfl, rfl, rfl⟩ rfl) ⟨rfl, rfl, rfl, rfl, rfl⟩ rfl
  · exact hmod h ⟨rfl, rfl, rfl, rfl, rfl⟩ rfl
  · exact hmod h ⟨rfl, rfl, rfl, rfl, rfl⟩ rfl
  · exact h

lemma forgetOriginalParent (h : RqInv s) {r : Tid} : RqInv (s.forgetOriginalParent r) := by
  refine h.mapKey (fun q => ?_) ?_
  · split_ifs <;> exact ⟨rfl, rfl, rfl, rfl, rfl⟩
  · split_ifs <;> exact h.idle.state

lemma doExit (h : RqInv s) (hc : s.curr ≠ s.idle) {r : Tid} : RqInv (s.doExit r) :=
  h.forgetOriginalParent.modKey (p := s.curr) ⟨rfl, rfl, rfl, rfl, rfl⟩ fun hi => absurd hi hc

/-- A task that stands on no queue may leave the list of tasks. -/
lemma unlist (h : RqInv s) (ha : (s.task p).array = none) :
    RqInv { s with live := Function.update s.live p false } := by
  have htask : ∀ q, ({ s with live := Function.update s.live p false } : Sys).IsTask q →
      s.IsTask q := by
    rintro q ⟨hq, hi⟩
    refine ⟨?_, hi⟩
    by_cases hqp : q = p
    · simp [hqp] at hq
    · simpa [Function.update_of_ne hqp] using hq
  refine ⟨h.queues.of_arr rfl, h.nrRunning, h.ends, fun q hq => h.tasks q (htask q hq),
    fun q hq => ?_, h.idle, ?_⟩
  · have hqp : q ≠ p := fun he => hq (he ▸ ha)
    have hlive := h.queued q hq
    exact ⟨by simpa [Function.update_of_ne hqp] using hlive.1, hlive.2⟩
  · by_cases hip : s.idle = p
    · simp [hip]
    · simpa [Function.update_of_ne hip] using h.unlisted

end RqInv

/-- A process finds tasks only. -/
lemma Inv.isTask_of_find {s : Sys} {p : Tid} {pid : ℤ} (h : Inv s) (hc : s.curr ≠ s.idle)
    (hf : s.findProcessByPid pid = some p) : s.IsTask p := by
  rcases h.toRqInv.found hf with rfl | hp
  · exact h.known_curr.resolve_right hc
  · exact hp

/-- The guards of `setscheduler` that depend on the task and the parameters have passed. -/
structure Accepts (M : Arch) (s : Sys) (p : Tid) (policy : Policy) (lp : SchedParam) : Prop where
  priority : ¬ Sys.BadPriority policy lp
  request : ¬ Sys.BadRequest M (s.task p) policy lp
  short : ¬ s.BadShort (s.task p) policy

/-- What `setscheduler` can do to a task: fail, and change `superpriv` at most, or make the
change once its guards have passed. -/
inductive SetOutcome (M : Arch) (s : Sys) (p : Tid) (policy : Policy) (lp : SchedParam) :
    Sys × Option Errno → Prop where
  | refused (sp : Tid → Bool) (e : Errno) :
      SetOutcome M s p policy lp ({ s with superpriv := sp }, some e)
  | changed (sp : Tid → Bool) (h : Accepts M s p policy lp) :
      SetOutcome M s p policy lp
        (({ s with superpriv := sp } : Sys).applyParams M p policy lp, none)

namespace Sys

variable (M : Arch) (s : Sys)

lemma capable_fst : ∃ sp, s.capable.1 = { s with superpriv := sp } := by
  simp only [capable]
  split_ifs
  · exact ⟨_, rfl⟩
  · exact ⟨s.superpriv, rfl⟩

/-- A check that may ask `capable` changes `superpriv` at most. -/
lemma of_ite_capable {c : Prop} [Decidable c] {s' : Sys} {b : Bool}
    (h : (if c then s.capable else (s, true)) = (s', b)) :
    ∃ sp, s' = { s with superpriv := sp } := by
  split_ifs at h
  · obtain ⟨sp, hsp⟩ := s.capable_fst
    exact ⟨sp, by rw [← hsp, h]⟩
  · exact ⟨s.superpriv, (congrArg Prod.fst h).symm⟩

lemma setschedulerTask_outcome (p : Tid) (policy : Policy) (lp : SchedParam) :
    SetOutcome M s p policy lp (s.setschedulerTask M p policy lp) := by
  simp only [setschedulerTask]
  by_cases hprio : BadPriority policy lp
  · rw [if_pos hprio]
    exact .refused s.superpriv _
  by_cases hreq : BadRequest M (s.task p) policy lp
  · rw [if_neg hprio, if_pos hreq]
    exact .refused s.superpriv _
  rw [if_neg hprio, if_neg hreq]
  generalize hx : (if policy = .fifo ∨ policy = .rr then s.capable else (s, true)) = x
  obtain ⟨s₁, rtOk⟩ := x
  obtain ⟨sp₁, rfl⟩ := s.of_ite_capable hx
  by_cases hrt : rtOk = true
  swap
  · dsimp only
    rw [if_pos hrt]
    exact .refused sp₁ _
  dsimp only
  rw [if_neg (not_not.mpr hrt)]
  generalize hy : (if (s.task s.curr).euid ≠ (s.task p).euid
    ∧ (s.task s.curr).euid ≠ (s.task p).uid then
      ({ s with superpriv := sp₁ } : Sys).capable
    else ({ s with superpriv := sp₁ }, true)) = y
  obtain ⟨s₂, ownerOk⟩ := y
  obtain ⟨sp₂, rfl⟩ := of_ite_capable _ hy
  dsimp only
  split_ifs with howner hshort
  · exact .refused sp₂ _
  · exact .changed sp₂ ⟨hprio, hreq, hshort⟩
  · exact .refused sp₂ _

/-- `setscheduler` fails, and changes `superpriv` at most, or makes the change to the task it
finds. -/
theorem setscheduler_outcome (pid policy : ℤ) (param : ParamPtr) :
    (∃ sp e, s.setscheduler M pid policy param = ({ s with superpriv := sp }, some e))
      ∨ ∃ p pol lp, 0 ≤ pid ∧ s.findProcessByPid pid = some p ∧ param = .readable lp
        ∧ SetOutcome M s p pol lp (s.setscheduler M pid policy param) := by
  cases param with
  | null => exact Or.inl ⟨s.superpriv, .einval, rfl⟩
  | fault =>
      simp only [setscheduler]
      split_ifs
      · exact Or.inl ⟨s.superpriv, .einval, rfl⟩
      · exact Or.inl ⟨s.superpriv, .efault, rfl⟩
  | readable lp =>
      by_cases hneg : pid < 0
      · exact Or.inl ⟨s.superpriv, .einval, by simp only [setscheduler, if_pos hneg]⟩
      simp only [setscheduler, if_neg hneg]
      cases hfind : s.findProcessByPid pid with
      | none => exact Or.inl ⟨s.superpriv, .esrch, rfl⟩
      | some p =>
          dsimp only
          split_ifs
          · exact Or.inr ⟨p, _, lp, not_lt.mp hneg, rfl, rfl,
              s.setschedulerTask_outcome M p _ lp⟩
          cases hpol : Policy.ofInt policy with
          | none => exact Or.inl ⟨s.superpriv, .einval, rfl⟩
          | some pol =>
              exact Or.inr ⟨p, pol, lp, not_lt.mp hneg, rfl, rfl,
                s.setschedulerTask_outcome M p pol lp⟩

end Sys

/-! ### What the operations leave alone -/

namespace Quiet

variable {M : Arch} {s : Sys} {p : Tid}

lemma tryToWakeUp (hc : s.Known s.curr) (hp : s.Known p) :
    Quiet (some p) s (s.tryToWakeUp M p) := by
  simp only [Sys.tryToWakeUp]
  cases (s.task p).array with
  | some a => exact modTask hp
  | none =>
      have hact : ∀ n, Quiet (some p) s
          (({ s with nrUninterruptible := n } : Sys).activateTask M p) := fun n =>
        andActivate M (of_task rfl rfl rfl rfl) hp
      refine andModTask ?_ hp
      split_ifs
      · exact (hact _).andResched hc
      · exact hact _
      · exact (hact s.nrUninterruptible).andResched hc
      · exact hact s.nrUninterruptible

lemma setUserNice (hc : s.Known s.curr) (hp : s.Known p) {n : ℤ} :
    Quiet none s (s.setUserNice p n) := by
  have hkept : ∀ t : Task, SameCore t (Sys.renice n t) ∧ (Sys.renice n t).state = t.state := by
    intro t
    simp only [Sys.renice]
    split_ifs <;> exact ⟨⟨rfl, rfl, rfl, rfl⟩, rfl⟩
  simp only [Sys.setUserNice]
  split_ifs
  · exact refl s
  · exact modTask_kept hp ⟨⟨rfl, rfl, rfl, rfl⟩, rfl, Iff.rfl⟩
  · cases ha : (s.task p).array with
    | none =>
        exact modTask_kept hp ⟨(hkept _).1, (hkept _).2, by rw [renice_array]⟩
    | some a =>
        have hq : Quiet none s (((s.dequeueTask p a).modTask p (Sys.renice n)).enqueueTask p a) := by
          refine (requeue hp).strengthen ?_
          rw [Sys.enqueueAs_task, Function.update_self, Sys.modTask_task_self,
            Sys.dequeueTask_task]
          obtain ⟨⟨h1, h2, h3, h4⟩, h5⟩ := hkept (s.task p)
          exact ⟨⟨h1, h2, h3, h4⟩, h5, by simp [ha]⟩
        dsimp only
        split_ifs
        · rw [show _ = s.curr from hq.curr]
          exact hq.andResched hc
        · exact hq

lemma changeParams (hc : s.Known s.curr) (hp : s.Known p) {policy : Policy} {lp : SchedParam} :
    Quiet (some p) s (s.changeParams M p policy lp) := by
  simp only [Sys.changeParams]
  split_ifs
  · exact (reschedTask hc).weaken.andModTask hp
  · exact modTask hp

lemma applyParams (hc : s.Known s.curr) (hp : s.Known p) {policy : Policy} {lp : SchedParam} :
    Quiet (some p) s (s.applyParams M p policy lp) := by
  simp only [Sys.applyParams]
  cases (s.task p).array with
  | none => exact changeParams hc hp
  | some a =>
      have hd : Quiet (some p) s (s.deactivateTask p) := deactivate hp
      have hc' : (s.deactivateTask p).Known (s.deactivateTask p).curr := by
        rw [hd.curr]
        exact (hd.known _).mpr hc
      exact (hd.trans (changeParams hc' ((hd.known p).mpr hp))).andActivate M hp

lemma schedExit (hc : s.Known s.curr) : Quiet (some s.curr) s (s.schedExit M p) := by
  simp only [Sys.schedExit]
  split_ifs
  · exact (modTask hc).andModTask hc
  · exact modTask hc
  · exact modTask hc
  · exact refl s

lemma forgetOriginalParent (h : RqInv s) {r : Tid} : Quiet none s (s.forgetOriginalParent r) := by
  refine ⟨rfl, rfl, rfl, fun q _ => ?_, fun q hq => ?_⟩
  · simp only [Sys.forgetOriginalParent]
    split_ifs
    · exact ⟨⟨rfl, rfl, rfl, rfl⟩, rfl, Iff.rfl⟩
    · exact Kept.refl _
  · have hlive : ¬ s.live q = true := fun hl => hq (Or.inl (h.isTask_of_live hl))
    simp [Sys.forgetOriginalParent, hlive]

lemma doExit (h : RqInv s) (hc : s.Known s.curr) {r : Tid} :
    Quiet (some s.curr) s (s.doExit r) :=
  (forgetOriginalParent h).weaken.andModTask hc

end Quiet

/-! ### The task an operation is about -/

section

variable (M : Arch) (s : Sys) (p : Tid)

/-- A task that is woken keeps its class and slice; it is runnable and queued. -/
lemma tryToWakeUp_self : SameCore (s.task p) ((s.tryToWakeUp M p).task p)
    ∧ ((s.tryToWakeUp M p).task p).state = .running
    ∧ ((s.tryToWakeUp M p).task p).array ≠ none := by
  have hact : ∀ n, SameCore (s.task p)
        ((({ s with nrUninterruptible := n } : Sys).activateTask M p).task p)
      ∧ ((({ s with nrUninterruptible := n } : Sys).activateTask M p).task p).array ≠ none :=
    fun n => ⟨activateTask_core M _ p, activateTask_queued M _ p⟩
  have hresched : ∀ s₁ : Sys, (SameCore (s.task p) (s₁.task p) ∧ (s₁.task p).array ≠ none) →
      SameCore (s.task p) ((s₁.reschedTask s₁.curr).task p)
      ∧ ((s₁.reschedTask s₁.curr).task p).array ≠ none := fun s₁ h =>
    have hk := reschedTask_kept s₁ s₁.curr p
    ⟨h.1.trans hk.toSameCore, hk.queued.mpr h.2⟩
  have hstate : ∀ s₁ : Sys, (SameCore (s.task p) (s₁.task p) ∧ (s₁.task p).array ≠ none) →
      SameCore (s.task p) ((s₁.modTask p fun t => { t with state := .running }).task p)
      ∧ ((s₁.modTask p fun t => { t with state := .running }).task p).state = .running
      ∧ ((s₁.modTask p fun t => { t with state := .running }).task p).array ≠ none := by
    intro s₁ h
    rw [Sys.modTask_task_self]
    exact ⟨h.1.trans ⟨rfl, rfl, rfl, rfl⟩, rfl, h.2⟩
  simp only [Sys.tryToWakeUp]
  cases ha : (s.task p).array with
  | some a => exact hstate s ⟨SameCore.refl _, by simp [ha]⟩
  | none =>
      refine hstate _ ?_
      dsimp only
      split_ifs
      · exact hresched _ (hact _)
      · exact hact _
      · exact hresched _ (hact s.nrUninterruptible)
      · exact hact s.nrUninterruptible

/-- The task whose parameters change. -/
lemma changeParams_self (policy : Policy) (lp : SchedParam) : ∃ b,
    (s.changeParams M p policy lp).task p
      = Sys.newParams M { s.task p with needResched := b } policy lp := by
  simp only [Sys.changeParams]
  split_ifs
  · rw [Sys.modTask_task_self]
    by_cases hp : p = s.curr
    · exact ⟨true, by rw [Sys.reschedTask, hp, Sys.modTask_task_self]⟩
    · exact ⟨(s.task p).needResched, by
        rw [Sys.reschedTask, Sys.modTask_task_of_ne _ _ _ hp]⟩
  · exact ⟨(s.task p).needResched, by rw [Sys.modTask_task_self]⟩

end

end Os234123.Sched
