import Os234123.Sched.Birth

/-!
One operation of the machine, as a whole.

* `Effect`: everything an operation can do to the class and the slice of a task;
* `Step`: what holds after an operation, the effect on every task included;
* `exec_step`: every operation is a step, from any state in which the invariant holds.
-/

namespace Os234123.Sched

/-! ### Steps -/

/-- A parent that gets back what is left of the slice of its child. -/
def credited (M : Arch) (t child : Task) : Task :=
  { t with timeSlice := min (uadd t.timeSlice child.timeSlice) M.maxTimeslice }

/-- The operation neither charges task `p` a tick nor changes its parameters. -/
def Spares (M : Arch) (s : Sys) (p : Tid) : Op → Prop
  | .tick => ¬ s.Charged p
  | .setscheduler pid policy param =>
      s.findProcessByPid pid ≠ some p ∨ (s.setscheduler M pid policy param).2 ≠ none
  | _ => True

/-- What an operation can do to a task: leave its class and slice alone, or charge it a tick,
share its slice with a child, change its parameters, or credit it the slice of a child. -/
inductive Effect (M : Arch) (s : Sys) (p : Tid) : Op → Task → Prop where
  | keep {o : Op} {t : Task} (hn : Spares M s p o) (h : SameCore (s.task p) t) :
      Effect M s p o t
  | tick {t : Task} (hc : s.Charged p) (h : TickOf M s.active s.expired (s.task p) t) :
      Effect M s p .tick t
  | share {flags : ForkFlags} {c : Tid} {t t' : Task} (hp : p = s.curr)
      (h : ShareOf M s.active s.expired (s.task p) t) (hsame : SameCore t t') :
      Effect M s p (.fork flags c) t'
  | change {pid policy : ℤ} {lp : SchedParam} {pol : Policy} {t : Task}
      (hfind : s.findProcessByPid pid = some p)
      (hok : (s.setscheduler M pid policy (.readable lp)).2 = none) (hacc : Accepts M s p pol lp)
      (h : SameCore (Sys.newParams M (s.task p) pol lp) t) :
      Effect M s p (.setscheduler pid policy (.readable lp)) t
  | credit {c : Tid} {t : Task} (hp : p = s.curr) (hc : s.IsZombieChild c)
      (h : SameCore (credited M (s.task p) (s.task c)) t) :
      Effect M s p (.reap c) t

namespace Op

/-- The task an operation creates. -/
def child : Op → Option Tid
  | .fork _ c => some c
  | _ => none

/-- The operation ends in `schedule`. -/
def switches : Op → Bool
  | .schedule => true
  | .yield => true
  | _ => false

/-- The tasks listed after an operation. -/
def liveAfter : Op → (Tid → Bool) → Tid → Bool
  | .fork _ c, live => Function.update live c true
  | .reap p, live => Function.update live p false
  | _, live => live

end Op

/-- What holds after an operation. -/
structure Step (M : Arch) (s : Sys) (o : Op) (s' : Sys) : Prop where
  inv : Inv s'
  idle : s'.idle = s.idle
  curr : o.switches = false → s'.curr = s.curr
  live : s'.live = o.liveAfter s.live
  effect : ∀ p, s.Known p → Effect M s p o (s'.task p)
  off : ∀ q, ¬ s.Known q → o.child ≠ some q → s'.task q = s.task q
  child : ∀ c, o.child = some c → ¬ s.Known c ∧ Forked M c s s'

/-- The class and slice `setscheduler` leaves a task with do not depend on where it stands. -/
lemma newParams_core (M : Arch) (t : Task) (pol : Policy) (lp : SchedParam) (b : Bool)
    (a : Option ArrayId) :
    SameCore (Sys.newParams M t pol lp)
        (Sys.newParams M { t with needResched := b, array := a } pol lp)
      ∧ (Sys.newParams M { t with needResched := b, array := a } pol lp).state = t.state := by
  by_cases hp : pol = .short
  · subst hp
    rw [newParams_short, newParams_short, shortParams_eq, shortParams_eq]
    exact ⟨⟨rfl, rfl, rfl, rfl⟩, rfl⟩
  · rw [newParams_of_ne M _ hp, newParams_of_ne M _ hp]
    exact ⟨⟨rfl, rfl, rfl, rfl⟩, rfl⟩

/-- The task whose parameters change keeps its state, and whether it is queued. -/
lemma applyParams_self (M : Arch) (s : Sys) (p : Tid) (pol : Policy) (lp : SchedParam) :
    SameCore (Sys.newParams M (s.task p) pol lp) ((s.applyParams M p pol lp).task p)
      ∧ ((s.applyParams M p pol lp).task p).state = (s.task p).state
      ∧ (((s.applyParams M p pol lp).task p).array ≠ none ↔ (s.task p).array ≠ none) := by
  simp only [Sys.applyParams]
  cases ha : (s.task p).array with
  | none =>
      obtain ⟨b, hb⟩ := changeParams_self M s p pol lp
      obtain ⟨hcore, hst⟩ := newParams_core M (s.task p) pol lp b none
      have heq : ({ s.task p with needResched := b } : Task)
          = { s.task p with needResched := b, array := none } := by rw [← ha]
      dsimp only
      rw [hb, heq]
      exact ⟨hcore, hst, by rw [newParams_array]⟩
  | some a =>
      obtain ⟨b, hb⟩ := changeParams_self M (s.deactivateTask p) p pol lp
      obtain ⟨hcore, hst⟩ := newParams_core M (s.task p) pol lp b none
      rw [deactivateTask_self] at hb
      have hact := activateTask_core M ((s.deactivateTask p).changeParams M p pol lp) p
      have hstate := activateTask_state M ((s.deactivateTask p).changeParams M p pol lp) p
      rw [hb] at hact hstate
      exact ⟨hcore.trans hact, hstate.trans hst,
        iff_of_true (activateTask_queued M _ p) (Option.some_ne_none _)⟩

namespace Step

variable {M : Arch} {s s' : Sys} {o : Op} {p : Tid}

/-- An operation that keeps the class and slice of every task. -/
lemma of_core (hn : ∀ q, Spares M s q o) (hch : o.child = none) (hinv : Inv s')
    (hidle : s'.idle = s.idle) (hcurr : o.switches = false → s'.curr = s.curr)
    (hlive : s'.live = o.liveAfter s.live) (hcore : ∀ q, SameCore (s.task q) (s'.task q))
    (hoff : ∀ q, ¬ s.Known q → s'.task q = s.task q) : Step M s o s' :=
  ⟨hinv, hidle, hcurr, hlive, fun q _ => .keep (hn q) (hcore q), fun q hq _ => hoff q hq,
    fun c hc => by simp [hch] at hc⟩

/-- An operation that keeps every task but one, and that one's class and slice. -/
lemma of_quiet (hn : ∀ q, Spares M s q o) (hch : o.child = none) (hinv : Inv s')
    (hlive : s.live = o.liveAfter s.live) (hq : Quiet (some p) s s')
    (hp : SameCore (s.task p) (s'.task p)) : Step M s o s' := by
  refine of_core hn hch hinv hq.idle (fun _ => hq.curr) (hq.live.trans hlive) (fun q => ?_) hq.off
  by_cases hqp : q = p
  · exact hqp ▸ hp
  · exact (hq.kept q fun he => hqp (Option.some.inj he).symm).toSameCore

/-- A change to the record of one task which leaves it where it is. -/
lemma of_modTask {f : Task → Task} (h : Inv s) (hn : ∀ q, Spares M s q o) (hch : o.child = none)
    (hlive : s.live = o.liveAfter s.live) (hp : s.Known p)
    (hcore : SameCore (s.task p) (f (s.task p))) (hkey : SameKey (s.task p) (f (s.task p)))
    (hst : (f (s.task p)).state = (s.task p).state ∨ p = s.curr ∧ p ≠ s.idle) :
    Step M s o (s.modTask p f) := by
  have hq : Quiet (some p) s (s.modTask p f) := Quiet.modTask hp
  have hidle : p = s.idle → (f (s.task p)).state = .running := fun hi => by
    rcases hst with hst | ⟨-, hne⟩
    · rw [hst, hi, h.idle.state]
    · exact absurd hi hne
  refine of_quiet hn hch (h.of_quiet_but hq (h.modKey hkey hidle) ?_ ?_) hlive hq
    (by rwa [Sys.modTask_task_self])
  · intro hpc hpi
    rw [Sys.modTask_task_self, hkey.array]
    exact hpc ▸ h.curr (hpc ▸ hpi)
  · intro hpt hpc
    rw [Sys.modTask_task_self, Awake, hkey.array, hst.resolve_right fun hc => hpc hc.1]
    exact h.awake p hpt hpc

/-! ### The operations -/


lemma tick (h : Inv s) : Step M s .tick (s.schedulerTick M) := by
  have hq := Quiet.schedulerTick M h.known_curr
  refine ⟨h.of_quiet_but hq h.toRqInv.schedulerTick (fun _ hne => ?_) fun _ hne => absurd rfl hne,
    hq.idle, fun _ => hq.curr, hq.live, fun p _ => ?_, fun q hk _ => hq.off q hk,
    fun c hc => by simp [Op.child] at hc⟩
  · by_cases hc : s.Charged s.curr
    · exact (Sys.schedulerTick_charged h.toRqInv hc).queued (h.curr hne)
    · obtain ⟨b, hb⟩ := Sys.schedulerTick_uncharged (M := M) hc
      rw [hb]
      exact h.curr hne
  · by_cases hc : s.Charged p
    · exact .tick hc (Sys.schedulerTick_charged h.toRqInv hc)
    · obtain ⟨b, hb⟩ := Sys.schedulerTick_uncharged (M := M) hc
      refine .keep hc ?_
      rw [hb]
      exact ⟨rfl, rfl, rfl, rfl⟩

lemma wake (h : Inv s) (hp : s.IsTask p) : Step M s (.wake p) (s.tryToWakeUp M p) := by
  have hq : Quiet (some p) s (s.tryToWakeUp M p) := Quiet.tryToWakeUp h.known_curr (Or.inl hp)
  obtain ⟨hcore, hst, hqd⟩ := tryToWakeUp_self M s p
  exact of_quiet (fun _ => trivial) rfl (h.of_quiet_but hq (h.toRqInv.tryToWakeUp hp) (fun _ _ => hqd)
    fun _ _ => iff_of_true hst hqd) rfl hq hcore

lemma schedule (h : Inv s) (hs : s.schedule M = some s') : Step M s .schedule s' := by
  obtain ⟨t, ht, hinv, hlive, hidle, hcore, hoff⟩ := h.schedule M
  obtain rfl := Option.some.inj (ht.symm.trans hs)
  exact of_core (fun _ => trivial) rfl hinv hidle (by simp [Op.switches]) hlive hcore hoff

lemma fork (h : Inv s) {flags : ForkFlags} {c : Tid} (hc : s.IsFresh c)
    (hs : s.doFork M flags c = some s') : Step M s (.fork flags c) s' := by
  have hk : ¬ s.Known c := fun hk => hk.elim (fun ht => hc.1 ht.1) hc.2.1
  obtain ⟨hinv, hf⟩ := h.doFork M hk hs
  refine ⟨hinv, hf.idle, fun _ => hf.curr, hf.live, fun p hp => ?_, fun q hq hqc => ?_, fun c' hc' => ?_⟩
  · by_cases hpc : p = s.curr
    · obtain ⟨t, ht, hsame⟩ := hf.parent
      exact .share hpc (hpc ▸ ht) (hpc ▸ hsame)
    · exact .keep trivial (hf.kept p (fun he => hk (he ▸ hp)) hpc).toSameCore
  · exact hf.off q (fun he => hqc (he ▸ rfl)) hq
  · obtain rfl : c = c' := Option.some.inj hc'
    exact ⟨hk, hf⟩

lemma nice (h : Inv s) (hp : s.IsTask p) {n : ℤ} : Step M s (.nice p n) (s.setUserNice p n) := by
  have hq : Quiet none s (s.setUserNice p n) := Quiet.setUserNice h.known_curr (Or.inl hp)
  exact of_core (fun _ => trivial) rfl (h.of_quiet hq (h.toRqInv.setUserNice hp)) hq.idle
    (fun _ => hq.curr) hq.live (fun q => (hq.kept q (by simp)).toSameCore) hq.off

lemma yield (h : Inv s) (hc : s.curr ≠ s.idle) (hs : s.sysSchedYield M = some s') :
    Step M s .yield s' := by
  have hq : Quiet none s (s.yieldQueue M) := Quiet.yieldQueue h hc
  obtain ⟨t, ht, hinv, hlive, hidle, hcore, hoff⟩ := (h.yieldQueue (M := M) hc).schedule M
  obtain rfl := Option.some.inj (ht.symm.trans hs)
  refine of_core (fun _ => trivial) rfl hinv (hidle.trans hq.idle) (by simp [Op.switches])
    (hlive.trans hq.live) (fun q => (hq.kept q (by simp)).toSameCore.trans (hcore q)) fun q hk => ?_
  rw [hoff q ((not_congr (hq.known q)).mpr hk), hq.off q hk]

lemma exit (h : Inv s) (hc : s.curr ≠ s.idle) {r : Tid} : Step M s (.exit r) (s.doExit r) := by
  have hq : Quiet (some s.curr) s (s.doExit r) := Quiet.doExit h.toRqInv h.known_curr
  have hkept := (Quiet.forgetOriginalParent h.toRqInv (r := r)).kept s.curr (by simp)
  have hself : (s.doExit r).task s.curr
      = { (s.forgetOriginalParent r).task s.curr with state := .zombie } :=
    Sys.modTask_task_self ..
  refine of_quiet (fun _ => trivial) rfl (h.of_quiet_but hq (h.toRqInv.doExit hc) (fun _ hne => ?_)
    fun _ hne => absurd rfl hne) rfl hq ?_
  · rw [hself]
    exact hkept.queued.mpr (h.curr hne)
  · rw [hself]
    exact hkept.toSameCore.trans ⟨rfl, rfl, rfl, rfl⟩

/-- A refused change of parameters. -/
lemma refused (h : Inv s) (hn : ∀ q, Spares M s q o) (hch : o.child = none)
    (hlive : s.live = o.liveAfter s.live) (sp : Tid → Bool) :
    Step M s o { s with superpriv := sp } :=
  of_core hn hch ⟨h.toRqInv.of_counters, h.curr, h.awake⟩ rfl (fun _ => rfl) hlive (fun _ => SameCore.refl _)
    fun _ _ => rfl

lemma setscheduler (h : Inv s) (hc : s.curr ≠ s.idle) (pid policy : ℤ) (param : ParamPtr) :
    Step M s (.setscheduler pid policy param) (s.setscheduler M pid policy param).1 := by
  rcases s.setscheduler_outcome M pid policy param with
    ⟨sp, e, heq⟩ | ⟨p, pol, lp, hpid, hfind, rfl, hout⟩
  · have hspares : ∀ q, Spares M s q (.setscheduler pid policy param) := fun q =>
      Or.inr (by simp [heq])
    rw [heq]
    exact refused h hspares rfl rfl sp
  generalize hx : s.setscheduler M pid policy (.readable lp) = x at hout
  cases hout with
  | refused sp e =>
      have hspares : ∀ q, Spares M s q (.setscheduler pid policy (.readable lp)) := fun q =>
        Or.inr (by simp [hx])
      exact refused h hspares rfl rfl sp
  | changed sp hacc =>
      set s₁ : Sys := { s with superpriv := sp } with hs₁
      have h₁ : Inv s₁ := ⟨h.toRqInv.of_counters, h.curr, h.awake⟩
      have hp : s₁.IsTask p := h.isTask_of_find hc hfind
      have hreg := regular_of_not_badShort (h.tasks p hp) hacc.short
      have hq : Quiet (some p) s₁ (s₁.applyParams M p pol lp) :=
        Quiet.applyParams h₁.known_curr (Or.inl hp)
      obtain ⟨hcore, hst, hqd⟩ := applyParams_self M s₁ p pol lp
      refine ⟨h₁.of_quiet_but hq (h₁.toRqInv.applyParams hp hreg)
        (fun hpc hpi => hqd.mpr (hpc ▸ h₁.curr (hpc ▸ hpi))) fun hpt hpc => ?_,
        hq.idle, fun _ => hq.curr, hq.live, fun q hk => ?_, fun q hk _ => hq.off q hk, fun c hc => by
          simp [Op.child] at hc⟩
      · rw [Awake, hst, hqd]
        exact h₁.awake p hpt hpc
      · by_cases hqp : q = p
        · subst hqp
          exact .change hfind (by rw [hx]) hacc hcore
        · have hkept := hq.kept q fun he => hqp (Option.some.inj he).symm
          exact .keep (Or.inl fun he => hqp (Option.some.inj (he.symm.trans hfind)))
            hkept.toSameCore

/-- The parent that reaps `c`. -/
lemma schedExit_self (M : Arch) (s : Sys) (c : Tid) :
    SameCore (s.task s.curr) ((s.schedExit M c).task s.curr)
      ∨ SameCore (credited M (s.task s.curr) (s.task c)) ((s.schedExit M c).task s.curr) := by
  have hlast : ∀ s₁ : Sys, SameCore (s₁.task s₁.curr)
      ((if (s₁.task c).sleepAvg < (s₁.task s₁.curr).sleepAvg then s₁.modTask s₁.curr fun t =>
        { t with sleepAvg := (t.sleepAvg * exitWeight + (s₁.task c).sleepAvg) / (exitWeight + 1) }
      else s₁).task s₁.curr) := fun s₁ => by
    split_ifs
    · rw [Sys.modTask_task_self]
      exact ⟨rfl, rfl, rfl, rfl⟩
    · exact SameCore.refl _
  simp only [Sys.schedExit]
  by_cases hf : (s.task c).firstTimeSlice = true
  · have h₁ : SameCore (credited M (s.task s.curr) (s.task c))
        ((s.modTask s.curr fun t => credited M t (s.task c)).task s.curr) := by
      rw [Sys.modTask_task_self]
      exact SameCore.refl _
    rw [if_pos hf]
    exact Or.inr (h₁.trans (hlast _))
  · rw [if_neg hf]
    exact Or.inl (hlast s)

lemma reap (h : Inv s) {c : Tid} (hc : s.IsZombieChild c) :
    Step M s (.reap c) (s.releaseTask M c) := by
  obtain ⟨-, hcc, -, hoff, -⟩ := id hc
  have hq : Quiet (some s.curr) s (s.schedExit M c) := Quiet.schedExit h.known_curr
  have hkept : Kept (s.task c) ((s.schedExit M c).task c) :=
    hq.kept c fun he => hcc (Option.some.inj he).symm
  have hcoff : ((s.schedExit M c).task c).array = none := by
    by_contra hne
    exact hkept.queued.mp hne hoff
  have harr : (s.task s.curr).array ≠ none → ((s.schedExit M c).task s.curr).array ≠ none := by
    simp only [Sys.schedExit]
    split_ifs <;> simp
  have h₁ : Inv (s.schedExit M c) := h.of_quiet_but hq h.toRqInv.schedExit
    (fun _ hne => harr (h.curr hne)) fun _ hne => absurd rfl hne
  refine ⟨⟨h₁.toRqInv.unlist hcoff, h₁.curr, fun q hqt hqc => h₁.awake q ⟨?_, hqt.2⟩ hqc⟩, hq.idle,
    fun _ => hq.curr, ?_, fun q hk => ?_, fun q hk _ => hq.off q hk, fun c' hc' => by simp [Op.child] at hc'⟩
  · have hne : q ≠ c := fun he => by
      have := hqt.1
      simp [Sys.releaseTask, he] at this
    have := hqt.1
    simpa [Sys.releaseTask, Function.update_of_ne hne] using this
  · simp only [Sys.releaseTask, hq.live]
    rfl
  · by_cases hqc : q = s.curr
    · subst hqc
      rcases schedExit_self M s c with hs | hs
      · exact .keep trivial hs
      · exact .credit rfl hc hs
    · exact .keep trivial (hq.kept q fun he => hqc (Option.some.inj he).symm).toSameCore

end Step

/-- A task known after an operation was known before, or has just been created. -/
lemma Step.known_or_child {M : Arch} {s s' : Sys} {o : Op} {p : Tid} (h : Step M s o s')
    (hp : s'.Known p) : s.Known p ∨ o.child = some p := by
  rcases hp with ⟨hlive, hi⟩ | hi
  swap
  · exact Or.inl (Or.inr (hi.trans h.idle))
  rw [h.live] at hlive
  rw [h.idle] at hi
  cases o with
  | fork flags c =>
      by_cases hpc : p = c
      · exact Or.inr (hpc ▸ rfl)
      · exact Or.inl (Or.inl ⟨by simpa [Op.liveAfter, Function.update_of_ne hpc] using hlive, hi⟩)
  | reap c =>
      by_cases hpc : p = c
      · simp [Op.liveAfter, hpc] at hlive
      · exact Or.inl (Or.inl ⟨by simpa [Op.liveAfter, Function.update_of_ne hpc] using hlive, hi⟩)
  | _ => exact Or.inl (Or.inl ⟨hlive, hi⟩)

/-- **Every operation is a step.** -/
theorem exec_step {M : Arch} {s s' : Sys} {o : Op} (h : Inv s) (hs : s.exec M o = some s') :
    Step M s o s' := by
  cases o with
  | elapse =>
      obtain rfl := Option.some.inj hs
      exact .of_core (fun _ => trivial) rfl ⟨h.toRqInv.of_counters, h.curr, h.awake⟩ rfl (fun _ => rfl) rfl
        (fun _ => SameCore.refl _) fun _ _ => rfl
  | tick =>
      obtain rfl := Option.some.inj hs
      exact .tick h
  | wake p =>
      simp only [Sys.exec] at hs
      split_ifs at hs with hp
      obtain rfl := Option.some.inj hs
      exact .wake h hp
  | signal p b =>
      simp only [Sys.exec] at hs
      split_ifs at hs with hp
      obtain rfl := Option.some.inj hs
      exact .of_modTask h (fun _ => trivial) rfl rfl (Or.inl hp) ⟨rfl, rfl, rfl, rfl⟩
        ⟨rfl, rfl, rfl, rfl, rfl⟩ (Or.inl rfl)
  | setState st =>
      simp only [Sys.exec] at hs
      split_ifs at hs with hp
      obtain rfl := Option.some.inj hs
      exact .of_modTask h (fun _ => trivial) rfl rfl h.known_curr ⟨rfl, rfl, rfl, rfl⟩
        ⟨rfl, rfl, rfl, rfl, rfl⟩ (Or.inr ⟨rfl, hp.1.1⟩)
  | setCred u e c =>
      simp only [Sys.exec] at hs
      split_ifs at hs with hp
      obtain rfl := Option.some.inj hs
      exact .of_modTask h (fun _ => trivial) rfl rfl h.known_curr ⟨rfl, rfl, rfl, rfl⟩
        ⟨rfl, rfl, rfl, rfl, rfl⟩ (Or.inl rfl)
  | schedule => exact .schedule h hs
  | fork flags c =>
      simp only [Sys.exec] at hs
      split_ifs at hs with hp
      exact .fork h hp.2 hs
  | nice p n =>
      simp only [Sys.exec] at hs
      split_ifs at hs with hp
      obtain rfl := Option.some.inj hs
      exact .nice h hp
  | setscheduler pid policy param =>
      simp only [Sys.exec] at hs
      split_ifs at hs with hp
      obtain rfl := Option.some.inj hs
      exact .setscheduler h hp.1 pid policy param
  | yield =>
      simp only [Sys.exec] at hs
      split_ifs at hs with hp
      exact .yield h hp.1 hs
  | exit r =>
      simp only [Sys.exec] at hs
      split_ifs at hs with hp
      obtain rfl := Option.some.inj hs
      exact .exit h hp.1
  | reap p =>
      simp only [Sys.exec] at hs
      split_ifs at hs with hp
      obtain rfl := Option.some.inj hs
      exact .reap h hp.2

end Os234123.Sched
