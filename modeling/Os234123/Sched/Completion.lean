import Os234123.Sched.WaitQueue

/-!
No wake-up of a completion is lost.

* `Enlisted`: the queues hold exactly the tasks inside the functions that wait;
* `WaitOk`: so they do, and every task is in a state that fits its place;
* `Tokens`: as many of the tasks that wait for a completion are running as `done` counts, or all;
* `WaitInv.step`: every step keeps both;
* `tokens_of_run`: so they hold in every reachable state.
-/

namespace Os234123.Sched

open Machine

/-! ### Places -/

/-- Waiters for a completion are exclusive, sleepers are not. -/
def Head.exclusive : Head → Bool
  | .queue _ => false
  | _ => true

namespace Place

/-- The queue in which a task at this place stands. -/
def head : Place → Option Head
  | .asking h => some h
  | .asked h => some h
  | .dozed _ q => some (.queue q)
  | _ => none

/-- The places which a task leaves before it gives up the processor. -/
def Held : Place → Prop
  | .forked => True
  | .asking _ => True
  | .dozing _ _ => True
  | _ => False

/-- The places which a task reaches in a call of `schedule`. -/
def Slept : Place → Prop
  | .asked _ => True
  | .dozed _ _ => True
  | _ => False

/-- The states that fit a place. -/
def Fits : Place → TaskState → Prop
  | .away, _ => True
  | .forked, st => st ≠ .zombie
  | .asking h, st => h.exclusive = true ∧ (st = .running ∨ st = .uninterruptible)
  | .asked h, st => h.exclusive = true ∧ (st = .running ∨ st = .uninterruptible)
  | .dozing st' _, st => (st' = .interruptible ∨ st' = .uninterruptible) ∧ (st = .running ∨ st = st')
  | .dozed st' _, st => (st' = .interruptible ∨ st' = .uninterruptible) ∧ (st = .running ∨ st = st')

variable {pl : Place} {st st' : TaskState} {h : Head}

/-- A task may be woken at any place. -/
lemma Fits.stays (hf : pl.Fits st) (hst : st' = st ∨ st' = .running) : pl.Fits st' := by
  rcases hst with rfl | rfl
  · exact hf
  · cases pl with
    | away => trivial
    | forked => exact (by decide : TaskState.running ≠ .zombie)
    | _ => exact ⟨hf.1, Or.inl rfl⟩

lemma Fits.not_zombie (hf : pl.Fits st) (hne : pl ≠ .away) : st ≠ .zombie := by
  rintro rfl
  cases pl with
  | away => exact hne rfl
  | forked => exact hf rfl
  | asking h => rcases hf.2 with hc | hc <;> exact absurd hc (by decide)
  | asked h => rcases hf.2 with hc | hc <;> exact absurd hc (by decide)
  | dozing st' q =>
      obtain ⟨h1 | h1, h2 | h2⟩ := hf
      · exact absurd h2 (by decide)
      · exact absurd (h2.trans h1) (by decide)
      · exact absurd h2 (by decide)
      · exact absurd (h2.trans h1) (by decide)
  | dozed st' q =>
      obtain ⟨h1 | h1, h2 | h2⟩ := hf
      · exact absurd h2 (by decide)
      · exact absurd (h2.trans h1) (by decide)
      · exact absurd h2 (by decide)
      · exact absurd (h2.trans h1) (by decide)

/-- Who stands in the queue of a completion is running or asleep. -/
lemma Fits.of_head (hf : pl.Fits st) (hh : pl.head = some h) (he : h.exclusive = true) :
    st = .running ∨ st = .uninterruptible := by
  cases pl with
  | asking h' => exact hf.2
  | asked h' => exact hf.2
  | dozed st' q =>
      obtain rfl := Option.some.inj hh
      exact absurd he Bool.false_ne_true
  | _ => exact absurd hh (by simp [head])

lemma head_away : Place.away.head = none := rfl

lemma ne_away_of_head (hh : pl.head = some h) : pl ≠ .away := by
  rintro rfl
  simp [head] at hh

lemma ne_away_of_held (hh : pl.Held) : pl ≠ .away := by
  rintro rfl
  exact hh

lemma ne_away_of_slept (hh : pl.Slept) : pl ≠ .away := by
  rintro rfl
  exact hh

end Place

/-! ### The queues -/

/-- The queues hold exactly the tasks that are inside the functions that wait; the completion on the
stack of a task has no other waiter. -/
structure Enlisted (waiters : Head → List Waiter) (place : Tid → Place) : Prop where
  mem : ∀ h w, w ∈ waiters h ↔ (place w.task).head = some h ∧ w.exclusive = h.exclusive
  nodup : ∀ h, (waiters h).Nodup
  own : ∀ p f, (place p).head = some (.vfork f) → p = f

namespace Enlisted

variable {waiters : Head → List Waiter} {place : Tid → Place} {p : Tid} {pl : Place} {h : Head}

/-- A task goes to a place at which it stands in the same queue, or in none as before. -/
lemma stay (he : Enlisted waiters place) (hpl : pl.head = (place p).head) :
    Enlisted waiters (Function.update place p pl) := by
  have hhead : ∀ q, (Function.update place p pl q).head = (place q).head := fun q => by
    by_cases hq : q = p
    · rw [hq, Function.update_self, hpl]
    · rw [Function.update_of_ne hq]
  refine ⟨fun h w => ?_, he.nodup, fun q f hq => he.own q f ?_⟩
  · rw [hhead]
    exact he.mem h w
  · rw [← hhead]
    exact hq

/-- A task joins a queue, at either end. -/
lemma join (he : Enlisted waiters place) (hno : (place p).head = none) (hpl : pl.head = some h)
    (hown : ∀ f, h = .vfork f → p = f) {l : List Waiter}
    (hl : l.Perm (⟨p, h.exclusive⟩ :: waiters h)) :
    Enlisted (Function.update waiters h l) (Function.update place p pl) := by
  refine ⟨fun k w => ?_, fun k => ?_, fun q f hq => ?_⟩
  · by_cases hk : k = h
    · subst hk
      rw [Function.update_self, hl.mem_iff, List.mem_cons, he.mem]
      by_cases hw : w.task = p
      · rw [hw, Function.update_self, hpl, hno]
        constructor
        · rintro (rfl | ⟨hc, -⟩)
          · exact ⟨rfl, rfl⟩
          · exact absurd hc (by simp)
        · rintro ⟨-, hx⟩
          obtain ⟨t, e⟩ := w
          exact Or.inl (by rw [← hw, ← hx])
      · rw [Function.update_of_ne hw]
        exact ⟨fun hor => hor.resolve_left fun hc => hw (by rw [hc]), Or.inr⟩
    · rw [Function.update_of_ne hk, he.mem]
      by_cases hw : w.task = p
      · rw [hw, Function.update_self, hpl, hno]
        exact iff_of_false (fun hc => absurd hc.1 (by simp)) fun hc =>
          hk (Option.some.inj hc.1).symm
      · rw [Function.update_of_ne hw]
  · by_cases hk : k = h
    · subst hk
      rw [Function.update_self, hl.nodup_iff, List.nodup_cons, he.mem]
      refine ⟨fun hc => ?_, he.nodup k⟩
      rw [hno] at hc
      exact absurd hc.1 (by simp)
    · rw [Function.update_of_ne hk]
      exact he.nodup k
  · by_cases hqp : q = p
    · rw [hqp, Function.update_self, hpl] at hq
      exact hqp.trans (hown f (Option.some.inj hq))
    · rw [Function.update_of_ne hqp] at hq
      exact he.own q f hq

/-- A task leaves its queue. -/
lemma leave (he : Enlisted waiters place) (hin : (place p).head = some h) (hpl : pl.head = none) :
    Enlisted (Function.update waiters h ((waiters h).erase ⟨p, h.exclusive⟩))
      (Function.update place p pl) := by
  refine ⟨fun k w => ?_, fun k => ?_, fun q f hq => ?_⟩
  · by_cases hk : k = h
    · subst hk
      rw [Function.update_self, (he.nodup k).mem_erase_iff, he.mem]
      by_cases hw : w.task = p
      · rw [hw, Function.update_self, hpl]
        refine iff_of_false (fun hc => hc.1 ?_) fun hc => absurd hc.1 (by simp)
        obtain ⟨t, e⟩ := w
        rw [← hw, ← hc.2.2]
      · rw [Function.update_of_ne hw]
        exact ⟨And.right, fun hc => ⟨fun hx => hw (by rw [hx]), hc⟩⟩
    · rw [Function.update_of_ne hk, he.mem]
      by_cases hw : w.task = p
      · rw [hw, Function.update_self, hpl, hin]
        exact iff_of_false (fun hc => hk (Option.some.inj hc.1).symm) fun hc =>
          absurd hc.1 (by simp)
      · rw [Function.update_of_ne hw]
  · by_cases hk : k = h
    · subst hk
      rw [Function.update_self]
      exact (he.nodup k).erase _
    · rw [Function.update_of_ne hk]
      exact he.nodup k
  · by_cases hqp : q = p
    · rw [hqp, Function.update_self, hpl] at hq
      exact absurd hq (by simp)
    · rw [Function.update_of_ne hqp] at hq
      exact he.own q f hq

end Enlisted

/-! ### The invariant -/

/-- The scheduler is in order, and so is where the tasks wait. -/
structure WaitOk (x : WaitSys) : Prop where
  inv : Inv x.sys
  isTask : ∀ p, x.place p ≠ .away → x.sys.IsTask p
  fits : ∀ p, (x.place p).Fits (x.sys.task p).state
  held : ∀ p, (x.place p).Held → p = x.sys.curr
  enlisted : Enlisted x.waiters x.place

/-- As many of the waiters are running as there are completions left for them, or all. -/
def Tokens (x : WaitSys) (h : Head) : Prop :=
  min (x.done h) (x.waiters h).length ≤ roused x.sys (x.waiters h)

/-- The invariant of the machine. -/
structure WaitInv (x : WaitSys) : Prop extends WaitOk x where
  ready : x.here.Slept → (x.sys.task x.sys.curr).state = .running
  tokens : ∀ h, h.exclusive = true → Tokens x h

namespace WaitOk

variable {x x' : WaitSys} {s' : Sys} {h : Head} {w : Waiter}

lemma waiter (hx : WaitOk x) (hw : w ∈ x.waiters h) : x.place w.task ≠ .away :=
  Place.ne_away_of_head ((hx.enlisted.mem h w).mp hw).1

lemma waiter_isTask (hx : WaitOk x) (hw : w ∈ x.waiters h) : x.sys.IsTask w.task :=
  hx.isTask _ (hx.waiter hw)

/-- A task in one of the functions that wait can change its state. -/
lemma inProcess (hx : WaitOk x) (hne : x.here ≠ .away) : x.sys.InProcess :=
  ⟨(hx.isTask _ hne).2, (hx.fits _).not_zombie hne⟩

/-- Only the scheduler moves. -/
lemma of_sys (hx : WaitOk x) (h' : Inv s') (ht : ∀ p, x.place p ≠ .away → s'.IsTask p)
    (hst : ∀ p, x.place p ≠ .away → (s'.task p).state = (x.sys.task p).state
      ∨ (s'.task p).state = .running)
    (hc : ∀ p, (x.place p).Held → p = s'.curr) (hsys : x'.sys = s') (hw : x'.waiters = x.waiters)
    (hp : x'.place = x.place) : WaitOk x' := by
  refine ⟨hsys ▸ h', ?_, fun p => ?_, ?_, ?_⟩
  · rw [hp, hsys]
    exact ht
  · rw [hp, hsys]
    by_cases hpl : x.place p = .away
    · rw [hpl]
      trivial
    · exact (hx.fits p).stays (hst p hpl)
  · rw [hp, hsys]
    exact hc
  · rw [hw, hp]
    exact hx.enlisted

lemma rouse (hx : WaitOk x) (hr : Rouses x.sys s') (hsys : x'.sys = s') (hw : x'.waiters = x.waiters)
    (hp : x'.place = x.place) : WaitOk x' :=
  hx.of_sys hr.inv (fun p hpl => hr.isTask.mpr (hx.isTask p hpl)) (fun p _ => hr.state p)
    (fun p hh => (hx.held p hh).trans hr.curr.symm) hsys hw hp

/-- The running task changes its place. -/
lemma move (hx : WaitOk x) (pl : Place) {q : Head → List Waiter}
    (ht : pl ≠ .away → x.sys.IsTask x.sys.curr) (hf : pl.Fits (x.sys.task x.sys.curr).state)
    (he : Enlisted q (Function.update x.place x.sys.curr pl)) (hsys : x'.sys = x.sys)
    (hw : x'.waiters = q) (hp : x'.place = Function.update x.place x.sys.curr pl) : WaitOk x' := by
  refine ⟨hsys ▸ hx.inv, fun p hpl => ?_, fun p => ?_, fun p hh => ?_, ?_⟩
  · rw [hp] at hpl
    rw [hsys]
    by_cases hpc : p = x.sys.curr
    · rw [hpc, Function.update_self] at hpl
      exact hpc ▸ ht hpl
    · rw [Function.update_of_ne hpc] at hpl
      exact hx.isTask p hpl
  · rw [hp, hsys]
    by_cases hpc : p = x.sys.curr
    · rw [hpc, Function.update_self]
      exact hf
    · rw [Function.update_of_ne hpc]
      exact hx.fits p
  · rw [hp] at hh
    rw [hsys]
    by_cases hpc : p = x.sys.curr
    · exact hpc
    · rw [Function.update_of_ne hpc] at hh
      exact hx.held p hh
  · rw [hw, hp]
    exact he

/-- The running task sets its state: where it is does not read its state, or fits the new one. -/
lemma setState (hx : WaitOk x) (hin : x.sys.InProcess) {st : TaskState} (hz : st ≠ .zombie)
    (hf : x.here.Fits st) : WaitOk (x.setCurrentState st) := by
  have hs : x.sys.exec .hz100 (.setState st)
      = some (x.sys.modTask x.sys.curr fun t => { t with state := st }) := if_pos ⟨hin, hz⟩
  refine ⟨(exec_step hx.inv hs).inv, hx.isTask, fun p => ?_, hx.held, hx.enlisted⟩
  by_cases hpc : p = x.sys.curr
  · subst hpc
    exact (x.setCurrentState_state st).symm ▸ hf
  · rw [x.setCurrentState_of_ne st hpc]
    exact hx.fits p

end WaitOk

/-! ### Tokens -/

section

variable {M : Arch} {x x' : WaitSys} {h : Head}

/-- No waiter falls asleep, and nothing is added to `done`. -/
lemma Tokens.mono (ht : Tokens x h) (hw : x'.waiters h = x.waiters h) (hd : x'.done h ≤ x.done h)
    (hst : ∀ w ∈ x.waiters h, (x.sys.task w.task).state = .running →
      (x'.sys.task w.task).state = .running) : Tokens x' h := by
  rw [Tokens, hw]
  refine le_trans ?_ (ht.trans (roused_le hst))
  exact min_le_min_right _ hd

lemma Tokens.of_done (hd : x.done h = 0) : Tokens x h := by
  rw [Tokens, hd, Nat.zero_min]
  exact Nat.zero_le _

/-- **A completion** wakes one more waiter, or all are awake. -/
lemma Tokens.complete (hx : WaitOk x) (ht : Tokens x h) (he : h.exclusive = true) :
    Tokens (x.complete M h) h := by
  have hone := roused_wakeUpCommon (M := M) hx.inv (fun w hw => hx.waiter_isTask hw)
    (fun w hw => ((hx.enlisted.mem h w).mp hw).2.trans he)
    fun w hw => (hx.fits w.task).of_head ((hx.enlisted.mem h w).mp hw).1 he
  have hdone : uadd (x.done h) 1 ≤ x.done h + 1 := Nat.mod_le _ _
  rw [Tokens] at ht ⊢
  simp only [WaitSys.complete, WaitSys.wakeUp, Function.update_self]
  omega

/-- What waking a queue keeps. -/
lemma WaitInv.rouse (hx : WaitInv x) (hr : Rouses x.sys x'.sys) (hw : x'.waiters = x.waiters)
    (hp : x'.place = x.place) (ht : ∀ h, h.exclusive = true → Tokens x' h ∨ x'.done h ≤ x.done h) :
    WaitInv x' := by
  refine ⟨hx.toWaitOk.rouse hr rfl hw hp, fun hs => ?_, fun h he => ?_⟩
  · rw [WaitSys.here, hp, hr.curr] at hs
    rw [hr.curr]
    exact hr.stays (hx.ready hs)
  · exact (ht h he).elim id fun hd => (hx.tokens h he).mono (congrFun hw h) hd fun w _ => hr.stays

lemma WaitInv.complete (hx : WaitInv x) (he : h.exclusive = true) : WaitInv (x.complete M h) := by
  refine hx.rouse ?_ rfl rfl fun k hke => ?_
  · exact Rouses.wakeUpCommon _ _ hx.inv fun w hw => hx.waiter_isTask hw
  · rcases eq_or_ne k h with rfl | hk
    · exact Or.inl (Tokens.complete hx.toWaitOk (hx.tokens k he) he)
    · refine Or.inr ?_
      simp only [WaitSys.complete, WaitSys.wakeUp, Function.update_of_ne hk]
      exact le_rfl

/-! ### The functions that wait -/

/-- The running task stands in no queue but that of its place. -/
lemma WaitOk.others_kept (hx : WaitOk x) {k : Head} (hk : x.here.head ≠ some k) {w : Waiter}
    (hw : w ∈ x.waiters k) : w.task ≠ x.sys.curr := fun hc =>
  hk (by rw [WaitSys.here, ← hc, ((hx.enlisted.mem k w).mp hw).1])

/-- The first half of `wait_for_completion`, from a place in no queue. -/
lemma WaitInv.waitForCompletion (hx : WaitInv x) (hin : x.sys.InProcess) (hno : x.here.head = none)
    (hfits : x.here.Fits .uninterruptible) (he : h.exclusive = true)
    (hown : ∀ f, h = .vfork f → x.sys.curr = f) : WaitInv (x.waitForCompletion h) := by
  have htask : x.sys.IsTask x.sys.curr := hx.inv.queued _ (hx.inv.curr hin.1)
  simp only [WaitSys.waitForCompletion]
  split_ifs with hd
  · have h₁ := hx.toWaitOk.setState hin (by decide) hfits
    have hjoin : Enlisted
        (Function.update x.waiters h (x.waiters h ++ [⟨x.sys.curr, true⟩]))
        (Function.update x.place x.sys.curr (.asking h)) := by
      refine hx.enlisted.join hno rfl hown ?_
      rw [he]
      exact List.perm_append_singleton _ _
    refine ⟨h₁.move (.asking h) (fun _ => htask) ⟨he, Or.inr (x.setCurrentState_state _)⟩ hjoin rfl
      rfl rfl, fun hs => ?_, fun k hke => ?_⟩
    · rw [WaitSys.goto_here] at hs
      exact absurd hs id
    · rcases eq_or_ne k h with rfl | hk
      · exact Tokens.of_done hd
      · refine (hx.tokens k hke).mono (Function.update_of_ne hk ..) le_rfl fun w hw hr => ?_
        have hne := hx.others_kept (by rw [hno]; simp) hw
        exact (congrArg Task.state (x.setCurrentState_of_ne _ hne)).trans hr
  · refine ⟨hx.toWaitOk.move .away (fun hne => absurd rfl hne) trivial
      (hx.enlisted.stay hno.symm) rfl rfl rfl, fun hs => ?_, fun k hke => ?_⟩
    · rw [WaitSys.takeDone, WaitSys.goto_here] at hs
      exact absurd hs id
    · refine (hx.tokens k hke).mono rfl ?_ fun w _ hr => hr
      rcases eq_or_ne k h with rfl | hk
      · simp only [WaitSys.takeDone, WaitSys.goto, Function.update_self]
        omega
      · simp only [WaitSys.takeDone, WaitSys.goto, Function.update_of_ne hk]
        exact le_rfl

/-- The loop of `wait_for_completion`. -/
lemma WaitInv.waitAgain (hx : WaitInv x) (hh : x.here = .asked h) : WaitInv (x.waitAgain h) := by
  have hne : x.here ≠ .away := by simp [hh]
  have hin := hx.inProcess hne
  have htask : x.sys.IsTask x.sys.curr := hx.isTask _ hne
  have hfits := hx.fits x.sys.curr
  rw [show x.place x.sys.curr = .asked h from hh] at hfits
  have he : h.exclusive = true := hfits.1
  simp only [WaitSys.waitAgain]
  split_ifs with hd
  · have h₁ : WaitOk (x.setCurrentState .uninterruptible) :=
      hx.toWaitOk.setState hin (by decide) (by rw [hh]; exact ⟨he, Or.inr rfl⟩)
    have hstay : Enlisted x.waiters (Function.update x.place x.sys.curr (.asking h)) :=
      hx.enlisted.stay (congrArg Place.head hh).symm
    refine ⟨h₁.move (.asking h) (fun _ => htask) ⟨he, Or.inr (x.setCurrentState_state _)⟩ hstay rfl
      rfl rfl, fun hs => ?_, fun k hke => ?_⟩
    · rw [WaitSys.goto_here] at hs
      exact absurd hs id
    · rcases eq_or_ne k h with rfl | hk
      · exact Tokens.of_done hd
      · refine (hx.tokens k hke).mono rfl le_rfl fun w hw hr => ?_
        have hne := hx.others_kept (by rw [hh]; exact fun hc => hk (Option.some.inj hc).symm) hw
        exact (congrArg Task.state (x.setCurrentState_of_ne _ hne)).trans hr
  · have hrun := hx.ready (by rw [hh]; trivial)
    have hleave : Enlisted
        (Function.update x.waiters h ((x.waiters h).erase ⟨x.sys.curr, true⟩))
        (Function.update x.place x.sys.curr .away) := by
      have := hx.enlisted.leave (p := x.sys.curr) (congrArg Place.head hh) Place.head_away
      rwa [he] at this
    refine ⟨hx.toWaitOk.move .away (fun hne => absurd rfl hne) trivial hleave rfl rfl rfl,
      fun hs => ?_, fun k hke => ?_⟩
    · rw [WaitSys.takeDone, WaitSys.goto_here] at hs
      exact absurd hs id
    · rcases eq_or_ne k h with rfl | hk
      · -- the one that leaves is running, so there is one less on both sides
        have hmem : (⟨x.sys.curr, true⟩ : Waiter) ∈ x.waiters k :=
          (hx.enlisted.mem k _).mpr ⟨congrArg Place.head hh, he.symm⟩
        have ht := hx.tokens k hke
        have hcount : roused x.sys ((x.waiters k).erase ⟨x.sys.curr, true⟩) + 1
            = roused x.sys (x.waiters k) := by
          have hperm := List.perm_cons_erase hmem
          rw [roused, roused, hperm.countP_eq, List.countP_cons]
          simp [hrun]
        have hlen := List.length_erase_of_mem hmem
        have hpos := List.length_pos_of_mem hmem
        rw [Tokens] at ht ⊢
        simp only [WaitSys.takeDone, WaitSys.goto, WaitSys.removeWaitQueue, Function.update_self]
        omega
      · refine (hx.tokens k hke).mono (Function.update_of_ne hk ..) ?_ fun w _ hr => hr
        simp only [WaitSys.takeDone, WaitSys.goto, WaitSys.removeWaitQueue, Function.update_of_ne hk]
        exact le_rfl

/-- `sleep_on` and `interruptible_sleep_on` up to `SLEEP_ON_HEAD`. -/
lemma WaitInv.sleepOn (hx : WaitInv x) (hb : x.CanBlock) {st : TaskState}
    (hst : st = .interruptible ∨ st = .uninterruptible) (q : ℕ) :
    WaitInv ((x.setCurrentState st).goto (.dozing st q)) := by
  obtain ⟨hin, haway⟩ := hb
  have htask : x.sys.IsTask x.sys.curr := hx.inv.queued _ (hx.inv.curr hin.1)
  have hz : st ≠ .zombie := by rcases hst with rfl | rfl <;> decide
  have h₁ := hx.toWaitOk.setState hin hz (by rw [haway]; trivial)
  have hstay : Enlisted x.waiters (Function.update x.place x.sys.curr (.dozing st q)) :=
    hx.enlisted.stay (congrArg Place.head haway).symm
  refine ⟨h₁.move (.dozing st q) (fun _ => htask) ⟨hst, Or.inr (x.setCurrentState_state _)⟩ hstay rfl
    rfl rfl, fun hs => ?_, fun k hke => ?_⟩
  · rw [WaitSys.goto_here] at hs
    exact absurd hs id
  · refine (hx.tokens k hke).mono rfl le_rfl fun w hw hr => ?_
    have hne := hx.others_kept (by rw [haway]; simp [Place.head]) hw
    exact (congrArg Task.state (x.setCurrentState_of_ne _ hne)).trans hr

/-- A call of `schedule`, once nobody is at a place that is left before it. -/
lemma WaitOk.scheduled (hx : WaitOk x) (hheld : ∀ p, ¬ (x.place p).Held) {s' : Sys}
    (hs : x.sys.schedule M = some s') (ht : ∀ h, h.exclusive = true → Tokens x h) :
    WaitInv { x with sys := s' } := by
  obtain ⟨t, ht', hinv, hlive, hidle, -⟩ := hx.inv.schedule M
  obtain rfl := Option.some.inj (ht'.symm.trans hs)
  have hst := hx.inv.schedule_states hs
  have htask : ∀ p, x.place p ≠ .away → t.IsTask p := fun p hp => by
    rw [Sys.IsTask, hlive, hidle]
    exact hx.isTask p hp
  refine ⟨hx.of_sys hinv htask (fun p _ => hst p) (fun p hp => absurd hp (hheld p)) rfl rfl rfl,
    fun hsl => hx.inv.schedule_state hs (htask _ (Place.ne_away_of_slept hsl)).2, fun k hke => ?_⟩
  refine (ht k hke).mono rfl le_rfl fun w _ hr => ?_
  rcases hst w.task with he | he
  · exact he.trans hr
  · exact he

/-- Nobody else is at a place that is left before a call of `schedule`. -/
lemma WaitOk.goto_not_held (hx : WaitOk x) {pl : Place} (hpl : ¬ pl.Held) (p : Tid) :
    ¬ (Function.update x.place x.sys.curr pl p).Held := by
  by_cases hp : p = x.sys.curr
  · rw [hp, Function.update_self]
    exact hpl
  · rw [Function.update_of_ne hp]
    exact fun hh => hp (hx.held p hh)

/-- **The call of `schedule`** in a function that waits. -/
lemma WaitInv.park (hx : WaitInv x) (hs : x.park M = some x') : WaitInv x' := by
  have hsame : ∀ (y : WaitSys) (k : Head), k.exclusive = true → y.sys = x.sys → y.done = x.done →
      y.waiters k = x.waiters k → Tokens y k := fun y k hke hsys hd hw =>
    (hx.tokens k hke).mono hw (congrFun hd k).le fun w _ hr => by rw [hsys]; exact hr
  cases hh : x.here with
  | asking h =>
      simp only [WaitSys.park, hh] at hs
      obtain ⟨s', hsched, rfl⟩ := Option.map_eq_some_iff.mp hs
      have hne : x.here ≠ .away := by simp [hh]
      have hfits := hx.fits x.sys.curr
      rw [show x.place x.sys.curr = .asking h from hh] at hfits
      have h₁ : WaitOk (x.goto (.asked h)) :=
        hx.toWaitOk.move (.asked h) (fun _ => hx.isTask _ hne) hfits
          (hx.enlisted.stay (congrArg Place.head hh).symm) rfl rfl rfl
      exact h₁.scheduled (hx.goto_not_held id) hsched fun k hke => hsame _ k hke rfl rfl rfl
  | dozing st q =>
      simp only [WaitSys.park, hh] at hs
      obtain ⟨s', hsched, rfl⟩ := Option.map_eq_some_iff.mp hs
      have hne : x.here ≠ .away := by simp [hh]
      have hfits := hx.fits x.sys.curr
      rw [show x.place x.sys.curr = .dozing st q from hh] at hfits
      have hjoin : Enlisted
          (Function.update x.waiters (.queue q) (⟨x.sys.curr, false⟩ :: x.waiters (.queue q)))
          (Function.update x.place x.sys.curr (.dozed st q)) :=
        hx.enlisted.join (congrArg Place.head hh) rfl (fun f hf => by simp at hf) (List.Perm.refl _)
      have h₁ : WaitOk ((x.addWaitQueue (.queue q) ⟨x.sys.curr, false⟩).goto (.dozed st q)) :=
        hx.toWaitOk.move (.dozed st q) (fun _ => hx.isTask _ hne) hfits hjoin rfl rfl rfl
      refine h₁.scheduled (hx.goto_not_held id) hsched fun k hke => hsame _ k hke rfl rfl ?_
      exact Function.update_of_ne (fun hk => by rw [hk] at hke; exact absurd hke Bool.false_ne_true) ..
  | _ => simp [WaitSys.park, hh] at hs

/-- The end of `sleep_on` and `interruptible_sleep_on`. -/
lemma WaitInv.wakeFromDoze (hx : WaitInv x) {st : TaskState} {q : ℕ} (hh : x.here = .dozed st q) :
    WaitInv ((x.removeWaitQueue (.queue q) ⟨x.sys.curr, false⟩).goto .away) := by
  have hleave : Enlisted
      (Function.update x.waiters (.queue q) ((x.waiters (.queue q)).erase ⟨x.sys.curr, false⟩))
      (Function.update x.place x.sys.curr .away) :=
    hx.enlisted.leave (congrArg Place.head hh) Place.head_away
  refine ⟨hx.toWaitOk.move .away (fun hne => absurd rfl hne) trivial hleave rfl rfl rfl,
    fun hs => ?_, fun k hke => ?_⟩
  · rw [WaitSys.goto_here] at hs
    exact absurd hs id
  · refine (hx.tokens k hke).mono ?_ le_rfl fun w _ hr => hr
    exact Function.update_of_ne (fun hk => by rw [hk] at hke; exact absurd hke Bool.false_ne_true) ..

/-! ### Operations of the scheduler -/

/-- A task that is in none of the functions that wait puts nobody to sleep who is in one. -/
lemma WaitOk.away_state (hx : WaitOk x) {o : Op} {s' : Sys} (haway : x.here = .away)
    (hs : x.sys.exec M o = some s') (p : Tid) (hp : x.place p ≠ .away) :
    (s'.task p).state = (x.sys.task p).state ∨ (s'.task p).state = .running := by
  rcases exec_state hx.inv hs (Or.inl (hx.isTask p hp)) with he | he | ⟨rfl, -⟩
  · exact Or.inl he
  · exact Or.inr he
  · exact absurd haway hp

/-- While the running task is in a function that waits, tasks are woken at most. -/
lemma WaitOk.rouses_op (hx : WaitOk x) {o : Op} {s' : Sys} (hne : x.here ≠ .away)
    (hok : x.Allows o) (hs : x.sys.exec M o = some s') : Rouses x.sys s' := by
  cases o with
  | elapse => exact .of_exec hx.inv hs rfl rfl rfl rfl
  | tick => exact .of_exec hx.inv hs rfl rfl rfl rfl
  | wake q => exact .of_exec hx.inv hs rfl rfl rfl rfl
  | signal q b => exact .of_exec hx.inv hs rfl rfl rfl rfl
  | _ => cases hh : x.here <;> simp [WaitSys.Allows, hh] at hok hne

/-- What an operation leaves of the functions that wait. -/
lemma WaitSys.afterOp_eq (x : WaitSys) (o : Op) (s' : Sys) : (x.afterOp o s').sys = s'
    ∧ (x.afterOp o s').waiters = x.waiters ∧ (x.afterOp o s').done = x.done
    ∧ (x.afterOp o s').place = x.place := by
  cases o <;> exact ⟨rfl, rfl, rfl, rfl⟩

/-- An operation of a task that is in none of the functions that wait. -/
lemma WaitInv.of_away (hx : WaitInv x) {o : Op} {s' : Sys} (haway : x.here = .away)
    (hs : x.sys.exec M o = some s') : WaitInv { x with sys := s' } := by
  have hstep := exec_step hx.inv hs
  have hst := hx.toWaitOk.away_state haway hs
  have htask : ∀ p, x.place p ≠ .away → s'.IsTask p := fun p hp =>
    exec_isTask hx.inv hs (hx.isTask p hp) ((hx.fits p).not_zombie hp)
  refine ⟨hx.toWaitOk.of_sys hstep.inv htask hst (fun p hp => ?_) rfl rfl rfl, fun hsl => ?_,
    fun k hke => ?_⟩
  · have hpc := hx.held p hp
    rw [hpc] at hp
    exact absurd haway (Place.ne_away_of_held hp)
  · have hne := Place.ne_away_of_slept hsl
    cases hsw : o.switches with
    | true => exact exec_switches hx.inv hs hsw (htask _ hne).2
    | false =>
        rw [WaitSys.here, hstep.curr hsw] at hne
        exact absurd haway hne
  · refine (hx.tokens k hke).mono rfl le_rfl fun w hw hr => ?_
    rcases hst _ (hx.waiter hw) with he | he
    · exact he.trans hr
    · exact he

/-- Only `vfork_done` changes. -/
lemma WaitInv.congr (hx : WaitInv x) (hsys : x'.sys = x.sys) (hw : x'.waiters = x.waiters)
    (hd : x'.done = x.done) (hp : x'.place = x.place) : WaitInv x' := by
  refine hx.rouse ?_ hw hp fun k _ => Or.inr (congrFun hd k).le
  rw [hsys]
  exact Rouses.refl hx.inv

/-- **An operation of the scheduler.** -/
lemma WaitInv.op (hx : WaitInv x) {o : Op} {s' : Sys} (hok : x.Allows o)
    (hs : x.sys.exec M o = some s') : WaitInv (x.afterOp o s') := by
  obtain ⟨hsys, hw, hd, hp⟩ := x.afterOp_eq o s'
  by_cases haway : x.here = .away
  · exact (hx.of_away haway hs).congr hsys hw hd hp
  · have hr := hx.toWaitOk.rouses_op haway hok hs
    rw [← hsys] at hr
    exact hx.rouse hr hw hp fun k _ => Or.inr (congrFun hd k).le

/-- **`do_fork` with `CLONE_VFORK`.** -/
lemma WaitInv.vfork (hx : WaitInv x) (hb : x.CanBlock) {flags : ForkFlags} {c : Tid}
    (hc : x.sys.IsFresh c) (hs : x.vfork M flags c = some x') : WaitInv x' := by
  obtain ⟨s', hfork, rfl⟩ := Option.map_eq_some_iff.mp hs
  obtain ⟨hin, haway⟩ := hb
  have hexec : x.sys.exec M (.fork flags c) = some s' := (if_pos ⟨hin.2, hc⟩).trans hfork
  have hy := hx.of_away haway hexec
  have hcurr : s'.curr = x.sys.curr := (exec_step hx.inv hexec).curr rfl
  have hempty : x.waiters (.vfork x.sys.curr) = [] := by
    refine List.eq_nil_iff_forall_not_mem.mpr fun w hw => ?_
    have hhead := ((hx.enlisted.mem _ w).mp hw).1
    rw [hx.enlisted.own _ _ hhead, show x.place x.sys.curr = .away from haway] at hhead
    exact absurd hhead (by simp [Place.head])
  have hsame : Function.update x.waiters (.vfork x.sys.curr) [] = x.waiters :=
    Function.update_eq_self_iff.mpr hempty.symm
  have hz : (s'.task x.sys.curr).state ≠ .zombie := by
    rcases exec_state hx.inv hexec hx.inv.known_curr with he | he | ⟨-, he⟩
    · rw [he]
      exact hin.2
    · simp [he]
    · exact absurd he Bool.false_ne_true
  have htask : s'.IsTask s'.curr := hy.inv.queued _ (hy.inv.curr (by
    rw [hcurr, (exec_step hx.inv hexec).idle]
    exact hin.1))
  refine ⟨hy.toWaitOk.move .forked (fun _ => htask) (by rw [hcurr]; exact hz)
    (hy.enlisted.stay (by rw [hcurr]; exact (congrArg Place.head haway).symm)) rfl hsame
    (by rw [hcurr]), fun hsl => ?_, fun k hke => ?_⟩
  · simp only [WaitSys.here, hcurr, Function.update_self] at hsl
    exact absurd hsl id
  · rcases eq_or_ne k (.vfork x.sys.curr) with rfl | hk
    · exact Tokens.of_done (Function.update_self ..)
    · exact (hy.tokens k hke).mono (congrFun hsame k) (Function.update_of_ne hk ..).le fun w _ hr => hr

/-! ### Steps and runs -/

/-- **Every step keeps the invariant.** -/
theorem WaitInv.step (hx : WaitInv x) {o : WaitOp} (hs : x.exec M o = some x') : WaitInv x' := by
  cases o with
  | op o =>
      obtain ⟨hok, hs⟩ := Option.ite_none_right_eq_some.mp hs
      obtain ⟨s', hexec, rfl⟩ := Option.map_eq_some_iff.mp hs
      exact hx.op hok hexec
  | wakeUp q mode n =>
      obtain rfl := Option.some.inj hs
      exact hx.rouse (Rouses.wakeUpCommon _ _ hx.inv fun w hw => hx.waiter_isTask hw) rfl rfl
        fun _ _ => Or.inr le_rfl
  | complete c =>
      obtain rfl := Option.some.inj hs
      exact hx.complete rfl
  | waitForCompletion c =>
      obtain ⟨⟨hin, haway⟩, hs⟩ := Option.ite_none_right_eq_some.mp hs
      obtain rfl := Option.some.inj hs
      exact hx.waitForCompletion hin (by rw [haway]; rfl) (by rw [haway]; trivial) rfl
        fun f hf => by simp at hf
  | sleepOn st q =>
      obtain ⟨⟨hb, hst⟩, hs⟩ := Option.ite_none_right_eq_some.mp hs
      obtain rfl := Option.some.inj hs
      exact hx.sleepOn hb hst q
  | vfork flags c =>
      obtain ⟨⟨hb, -, hc⟩, hs⟩ := Option.ite_none_right_eq_some.mp hs
      exact hx.vfork hb hc hs
  | waitVfork =>
      obtain ⟨hh, hs⟩ := Option.ite_none_right_eq_some.mp hs
      obtain rfl := Option.some.inj hs
      have hin := hx.inProcess (by simp [hh])
      exact hx.waitForCompletion hin (by rw [hh]; rfl)
        (by rw [hh]; exact (by decide : TaskState.uninterruptible ≠ .zombie)) rfl
        fun f hf => Head.vfork.inj hf
  | park => exact hx.park hs
  | resume =>
      cases hh : x.here with
      | asked h =>
          obtain rfl : x.waitAgain h = x' := by simpa [WaitSys.exec, WaitSys.resume, hh] using hs
          exact hx.waitAgain hh
      | dozed st q =>
          obtain rfl : (x.removeWaitQueue (.queue q) ⟨x.sys.curr, false⟩).goto .away = x' := by
            simpa [WaitSys.exec, WaitSys.resume, hh] using hs
          exact hx.wakeFromDoze hh
      | _ => simp [WaitSys.exec, WaitSys.resume, hh] at hs
  | mmRelease =>
      obtain ⟨-, hs⟩ := Option.ite_none_right_eq_some.mp hs
      obtain rfl := Option.some.inj hs
      rw [WaitSys.mmRelease]
      cases hv : x.vforkDone x.sys.curr with
      | none => exact hx
      | some f =>
          have hy : WaitInv { x with vforkDone := Function.update x.vforkDone x.sys.curr none } :=
            hx.congr rfl rfl rfl rfl
          exact hy.complete rfl

lemma WaitInv.booted (M : Arch) : WaitInv (WaitSys.booted M) := by
  refine ⟨⟨booted_inv M, fun p hp => absurd rfl hp, fun p => trivial, fun p hp => absurd hp id, ?_⟩,
    fun hs => absurd hs id, fun h _ => Tokens.of_done rfl⟩
  exact ⟨fun h w => iff_of_false List.not_mem_nil fun hc => absurd hc.1 (by simp [WaitSys.booted, Place.head]),
    fun h => List.nodup_nil, fun p f hf => absurd hf (by simp [WaitSys.booted, Place.head])⟩

lemma waitInv_of_run {ops : List WaitOp}
    (h : run (WaitSys.exec M) ops (WaitSys.booted M) = some x) : WaitInv x :=
  run_induct (P := WaitInv) (fun _ _ _ hx hs => hx.step hs) (WaitInv.booted M) h

/-- A waiter that is running is queued to run. -/
lemma WaitOk.queued (hx : WaitOk x) {w : Waiter} (hw : w ∈ x.waiters h)
    (hr : (x.sys.task w.task).state = .running) : (x.sys.task w.task).array ≠ none := by
  have ht := hx.waiter_isTask hw
  by_cases hc : w.task = x.sys.curr
  · rw [hc]
    exact hx.inv.curr (hc ▸ ht.2)
  · exact (hx.inv.awake w.task ht hc).mp hr

/-- **No completion is lost.**  In every reachable state the queue of a completion holds the tasks inside
`wait_for_completion`, each once and as an exclusive waiter, and as many of them are runnable as `done`
counts, or all. -/
theorem tokens_of_run {ops : List WaitOp}
    (h : run (WaitSys.exec M) ops (WaitSys.booted M) = some x) {k : Head} (hk : k.exclusive = true) :
    (∀ w, w ∈ x.waiters k
        ↔ w.exclusive = true ∧ (x.place w.task = .asking k ∨ x.place w.task = .asked k))
      ∧ (x.waiters k).Nodup
      ∧ min (x.done k) (x.waiters k).length ≤ (x.waiters k).countP fun w =>
        (x.sys.task w.task).state = .running ∧ (x.sys.task w.task).array ≠ none := by
  have hx := waitInv_of_run h
  refine ⟨fun w => ?_, hx.enlisted.nodup k, (hx.tokens k hk).trans ?_⟩
  · rw [hx.enlisted.mem, hk, and_comm]
    refine and_congr_right fun _ => ?_
    cases hp : x.place w.task with
    | dozed st q =>
        refine iff_of_false (fun hc => ?_) (by simp)
        rw [← Option.some.inj hc] at hk
        exact absurd hk Bool.false_ne_true
    | _ => simp [Place.head]
  · refine List.countP_mono_left fun w hw hr => decide_eq_true ?_
    have hrun := of_decide_eq_true hr
    exact ⟨hrun, hx.queued hw hrun⟩

end

/-- Two tasks wait for a completion, and the idle task calls `complete` twice. -/
def completionRun : List WaitOp :=
  [.op (.fork ⟨false, false⟩ 1), .op .schedule, .op (.fork ⟨false, false⟩ 2),
    .waitForCompletion 5, .park, .waitForCompletion 5, .park, .complete 5, .complete 5]

/-- Both of them are runnable then. -/
theorem tokens_completionRun : ∃ x,
    run (WaitSys.exec .hz100) completionRun (WaitSys.booted .hz100) = some x ∧ x.sys.curr = 0
    ∧ 2 ≤ (x.waiters (.completion 5)).countP fun w =>
      (x.sys.task w.task).state = .running ∧ (x.sys.task w.task).array ≠ none := by
  have hrun : ((run (WaitSys.exec .hz100) completionRun (WaitSys.booted .hz100)).any fun x =>
      decide (x.sys.curr = 0 ∧ x.done (.completion 5) = 2
        ∧ (x.waiters (.completion 5)).length = 2)) = true := by
    decide +kernel
  obtain ⟨x, hx, hdec⟩ := (Option.any_eq_true _ _).mp hrun
  obtain ⟨hcurr, hdone, hlen⟩ := of_decide_eq_true hdec
  have htokens := (tokens_of_run hx (k := .completion 5) rfl).2.2
  rw [hdone, hlen] at htokens
  exact ⟨x, hx, hcurr, htokens⟩

section

variable {M : Arch} {x x' : WaitSys}

/-! ### Conservation -/

namespace WaitSys

/-- A call of `complete`. -/
def completes (c : ℕ) (_ : WaitSys) : WaitOp → ℕ
  | .complete c' => if c' = c then 1 else 0
  | _ => 0

/-- A return of `wait_for_completion`. -/
def returns (c : ℕ) (x : WaitSys) : WaitOp → ℕ
  | .waitForCompletion c' => if c' = c ∧ x.done (.completion c) ≠ 0 then 1 else 0
  | .resume => if x.here = .asked (.completion c) ∧ x.done (.completion c) ≠ 0 then 1 else 0
  | _ => 0

end WaitSys

/-- `done` counts the completions that nobody has returned for. -/
lemma returns_add_done {c : ℕ} {o : WaitOp} (hs : x.exec M o = some x')
    (hlt : x.done (.completion c) + x.completes c o < uintSize) :
    x.returns c o + x'.done (.completion c) = x.done (.completion c) + x.completes c o := by
  have hwait : ∀ {k : Head} {y : WaitSys}, y.done = x.done →
      (y.takeDone k).done (.completion c)
        = if k = .completion c then x.done (.completion c) - 1 else x.done (.completion c) := by
    intro k y hy
    simp only [WaitSys.takeDone, WaitSys.goto, hy]
    split_ifs with hk
    · rw [hk, Function.update_self]
    · exact Function.update_of_ne (fun he => hk he.symm) ..
  cases o with
  | op o =>
      obtain ⟨-, hs⟩ := Option.ite_none_right_eq_some.mp hs
      obtain ⟨s', -, rfl⟩ := Option.map_eq_some_iff.mp hs
      cases o <;> simp [WaitSys.afterOp, WaitSys.returns, WaitSys.completes]
  | wakeUp q mode n =>
      obtain rfl := Option.some.inj hs
      simp [WaitSys.wakeUp, WaitSys.returns, WaitSys.completes]
  | complete c' =>
      obtain rfl := Option.some.inj hs
      simp only [WaitSys.returns, WaitSys.completes, WaitSys.complete, WaitSys.wakeUp] at hlt ⊢
      by_cases hc : c' = c
      · subst hc
        rw [if_pos rfl] at hlt ⊢
        rw [Function.update_self, uadd_of_lt hlt, Nat.zero_add]
      · rw [if_neg hc, Function.update_of_ne fun he => hc (Head.completion.inj he).symm]
        omega
  | waitForCompletion c' =>
      obtain ⟨-, hs⟩ := Option.ite_none_right_eq_some.mp hs
      obtain rfl := Option.some.inj hs
      simp only [WaitSys.waitForCompletion, WaitSys.returns, WaitSys.completes]
      by_cases hd : x.done (.completion c') = 0
      · rw [if_pos hd, if_neg fun hc => hc.2 (hc.1 ▸ hd), Nat.zero_add]
        rfl
      · rw [if_neg hd, hwait rfl]
        by_cases hc : c' = c
        · subst hc
          rw [if_pos ⟨rfl, hd⟩, if_pos rfl]
          omega
        · rw [if_neg fun hx => hc hx.1, if_neg fun he => hc (Head.completion.inj he)]
          omega
  | sleepOn st q =>
      obtain ⟨-, hs⟩ := Option.ite_none_right_eq_some.mp hs
      obtain rfl := Option.some.inj hs
      simp [WaitSys.setCurrentState, WaitSys.goto, WaitSys.returns, WaitSys.completes]
  | vfork flags c' =>
      obtain ⟨-, hs⟩ := Option.ite_none_right_eq_some.mp hs
      obtain ⟨s', -, rfl⟩ := Option.map_eq_some_iff.mp hs
      simp [WaitSys.returns, WaitSys.completes]
  | waitVfork =>
      obtain ⟨-, hs⟩ := Option.ite_none_right_eq_some.mp hs
      obtain rfl := Option.some.inj hs
      simp only [WaitSys.waitForCompletion, WaitSys.returns, WaitSys.completes]
      split_ifs
      · simp [WaitSys.goto, WaitSys.setCurrentState, WaitSys.addWaitQueueTail]
      · simp [hwait rfl]
  | park =>
      have hdone : x'.done = x.done := by
        cases hh : x.here with
        | asking k =>
            simp only [WaitSys.exec, WaitSys.park, hh] at hs
            obtain ⟨s', -, rfl⟩ := Option.map_eq_some_iff.mp hs
            rfl
        | dozing st q =>
            simp only [WaitSys.exec, WaitSys.park, hh] at hs
            obtain ⟨s', -, rfl⟩ := Option.map_eq_some_iff.mp hs
            rfl
        | _ => simp [WaitSys.exec, WaitSys.park, hh] at hs
      simp [hdone, WaitSys.returns, WaitSys.completes]
  | resume =>
      cases hh : x.here with
      | asked k =>
          obtain rfl : x.waitAgain k = x' := by simpa [WaitSys.exec, WaitSys.resume, hh] using hs
          simp only [WaitSys.waitAgain, WaitSys.returns, WaitSys.completes, hh, Place.asked.injEq]
          by_cases hd : x.done k = 0
          · rw [if_pos hd, if_neg fun hc => hc.2 (hc.1 ▸ hd), Nat.zero_add]
            rfl
          · have htake : ((x.removeWaitQueue k ⟨x.sys.curr, true⟩).takeDone k).done (.completion c)
                = if k = .completion c then x.done (.completion c) - 1
                  else x.done (.completion c) := hwait rfl
            rw [if_neg hd, htake]
            by_cases hc : k = .completion c
            · subst hc
              rw [if_pos ⟨rfl, hd⟩, if_pos rfl]
              omega
            · rw [if_neg fun hx => hc hx.1, if_neg hc]
              omega
      | dozed st q =>
          obtain rfl : (x.removeWaitQueue (.queue q) ⟨x.sys.curr, false⟩).goto .away = x' := by
            simpa [WaitSys.exec, WaitSys.resume, hh] using hs
          simp [WaitSys.goto, WaitSys.removeWaitQueue, WaitSys.returns, WaitSys.completes, hh]
      | _ => simp [WaitSys.exec, WaitSys.resume, hh] at hs
  | mmRelease =>
      obtain ⟨-, hs⟩ := Option.ite_none_right_eq_some.mp hs
      obtain rfl := Option.some.inj hs
      rw [WaitSys.mmRelease]
      cases x.vforkDone x.sys.curr with
      | none => simp [WaitSys.returns, WaitSys.completes]
      | some f => simp [WaitSys.complete, WaitSys.wakeUp, WaitSys.returns, WaitSys.completes]

/-- **Completions are conserved.**  As long as `complete` is called fewer than `2 ^ 32` times on a
completion, its `done` counts the calls that no return of `wait_for_completion` has used up. -/
theorem returns_of_run {ops : List WaitOp}
    (h : run (WaitSys.exec M) ops (WaitSys.booted M) = some x) (c : ℕ)
    (hlt : tally (WaitSys.exec M) (WaitSys.completes c) ops (WaitSys.booted M) < uintSize) :
    tally (WaitSys.exec M) (WaitSys.returns c) ops (WaitSys.booted M) + x.done (.completion c)
      = tally (WaitSys.exec M) (WaitSys.completes c) ops (WaitSys.booted M) := by
  have := tally_add_below (N := uintSize) (μ := fun x => x.done (.completion c))
    (fun _ _ _ hs hlt => returns_add_done hs hlt) h (by simpa [WaitSys.booted] using hlt)
  simpa [WaitSys.booted] using this

end

/-- Of the two calls the first task uses one, and the other is left. -/
theorem returns_completionRun : ∃ x,
    run (WaitSys.exec .hz100) (completionRun ++ [.op .schedule, .resume]) (WaitSys.booted .hz100)
      = some x
    ∧ tally (WaitSys.exec .hz100) (WaitSys.returns 5) (completionRun ++ [.op .schedule, .resume])
        (WaitSys.booted .hz100) + x.done (.completion 5) = 2 ∧ x.done (.completion 5) = 1 := by
  have hrun : ((run (WaitSys.exec .hz100) (completionRun ++ [.op .schedule, .resume])
      (WaitSys.booted .hz100)).any fun x => decide (x.done (.completion 5) = 1)) = true := by
    decide +kernel
  have hcalls : tally (WaitSys.exec .hz100) (WaitSys.completes 5)
      (completionRun ++ [.op .schedule, .resume]) (WaitSys.booted .hz100) = 2 := by
    decide +kernel
  obtain ⟨x, hx, hdec⟩ := (Option.any_eq_true _ _).mp hrun
  have hreturns := returns_of_run hx 5 (by rw [hcalls]; decide)
  exact ⟨x, hx, hreturns.trans hcalls, of_decide_eq_true hdec⟩

end Os234123.Sched
