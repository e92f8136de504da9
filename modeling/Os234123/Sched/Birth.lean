import Os234123.Sched.Choice

/-!
`do_fork` step by step.

* `ClassOk`: what a record needs before it may be queued;
* `Copied`: the child between the copy of its parent and the sharing of the slice;
* `inherit_classOk`: sharing makes a child of the class of its parent, if parent and child
  agree on whether they are SHORT;
* `forkShare_shared`, `Inv.forkWake`: the runqueue stays in order, and the child is queued.
-/

namespace Os234123.Sched

open Buckets

/-! ### Records of children -/

/-- The record of a task that may be queued: markers and priority fit the policy. -/
structure ClassOk (t : Task) : Prop where
  short : t.policy = .short → (t.isShort = 1 ∨ t.isShort = -1)
    ∧ maxRtPrio ≤ t.prio ∧ t.prio < maxPrio
  overdue : t.IsOverdue → t.prio = maxPrio - 1
  usual : t.policy ≠ .short → t.isShort = 0 ∨ t.isShort = -1
  rt : t.policy = .fifo ∨ t.policy = .rr → t.prio < maxRtPrio
  other : t.policy = .other → maxRtPrio ≤ t.prio
  static : maxRtPrio ≤ t.staticPrio ∧ t.staticPrio < maxPrio

lemma TaskOk.classOk {active expired : ArrayId} {t : Task} (h : TaskOk active expired t) :
    ClassOk t := by
  refine ⟨fun hp => ⟨?_, h.usual (Or.inr hp)⟩, h.overdue, h.isShort_ne_one,
    fun hp => (h.rt hp).1, fun hp => (h.usual (Or.inl hp)).1, h.static⟩
  by_cases h1 : t.isShort = 1
  · exact Or.inl h1
  · exact Or.inr (h.isShort_eq_neg_one hp h1)

lemma IdleOk.classOk {t : Task} (h : IdleOk t) : ClassOk t where
  short := by simp [h.policy]
  overdue := by simp [Task.IsOverdue, h.policy]
  usual := fun _ => Or.inl h.isShort
  rt := by simp [h.policy]
  other := fun _ => by rw [h.prio]; decide
  static := h.static

lemma RqInv.classOk {s : Sys} (h : RqInv s) {p : Tid} (hp : s.Known p) : ClassOk (s.task p) := by
  rcases hp with hp | rfl
  · exact (h.tasks p hp).classOk
  · exact h.idle.classOk

/-- A child whose parent has not yet shared its slice. -/
structure Copied (t : Task) : Prop where
  off : t.array = none
  rt : t.policy = .fifo ∨ t.policy = .rr → t.prio < maxRtPrio
  other : t.policy = .other → maxRtPrio ≤ t.prio
  static : maxRtPrio ≤ t.staticPrio ∧ t.staticPrio < maxPrio

lemma childOf_copied {t : Task} (h : ClassOk t) : Copied (Sys.childOf t) :=
  ⟨rfl, h.rt, h.other, h.static⟩

/-- The policy the child copied fits the class its parent is in when the slice is shared: both
are SHORT or neither is, or the child is an ordinary task and the parent overdue, so that the
marker it takes over is one an ordinary task may carry. -/
def Agree (child t : Task) : Prop :=
  (child.policy = .short ↔ t.policy = .short) ∨ child.policy = .other ∧ t.IsOverdue

instance (child t : Task) : Decidable (Agree child t) := inferInstanceAs (Decidable (_ ∨ _))

/-- Sharing makes the child a task in order, if its policy fits the class of its parent. -/
lemma inherit_classOk {t child : Task} (h : ClassOk t) (hc : Copied child) (ha : Agree child t)
    {j : ℕ} : ClassOk (Sys.inherit t child j) := by
  rcases ha with hpol | ⟨hother, hp, ho⟩
  · by_cases hp : t.policy = .short
    · have hcp := hpol.mpr hp
      obtain ⟨h1, h2⟩ := h.short hp
      refine ⟨fun _ => ?_, fun ho => ?_, ?_, ?_, ?_, ?_⟩ <;>
        simp_all [Sys.inherit, Task.IsOverdue]
      · exact h.overdue ⟨hp, ho⟩
      · exact hc.static
    · have hcp := (not_congr hpol).mpr hp
      have h1 := h.usual hp
      refine ⟨?_, ?_, fun _ => ?_, ?_, ?_, ?_⟩ <;> simp_all [Sys.inherit, Task.IsOverdue]
      · rcases h1 with h1 | h1 <;> simp [h1]
      · exact hc.rt
      · exact hc.other
      · exact hc.static
  · have h2 := (h.short hp).2
    refine ⟨?_, ?_, ?_, ?_, ?_, ?_⟩ <;> simp_all [Sys.inherit, Task.IsOverdue]
    exact hc.static

@[simp] lemma inherit_array (t child : Task) (j : ℕ) :
    (Sys.inherit t child j).array = child.array := by
  simp only [Sys.inherit]
  split_ifs <;> rfl

@[simp] lemma inherit_policy (t child : Task) (j : ℕ) :
    (Sys.inherit t child j).policy = child.policy := by
  simp only [Sys.inherit]
  split_ifs <;> rfl

@[simp] lemma inherit_state (t child : Task) (j : ℕ) :
    (Sys.inherit t child j).state = child.state := by
  simp only [Sys.inherit]
  split_ifs <;> rfl

lemma halve_same (t : Task) : SameKey t (Sys.halve t) ∧ (Sys.halve t).state = t.state := by
  simp only [Sys.halve]
  split_ifs <;> exact ⟨⟨rfl, rfl, rfl, rfl, rfl⟩, rfl⟩

/-! ### Cutting the sleep averages -/

/-- The record `cutSleepAvg` leaves the child with: runnable, at a priority of its class. -/
structure Cut (t t' : Task) : Prop extends SameCore t t' where
  state : t'.state = .running
  array : t'.array = t.array
  staticPrio : t'.staticPrio = t.staticPrio
  prio : t'.prio = t.prio ∨ (t.policy ≠ .short ∧ ¬ t.IsRt ∧ maxRtPrio ≤ t'.prio
    ∧ t'.prio < maxPrio)
  other : t.policy = .other → maxRtPrio ≤ t.prio → maxRtPrio ≤ t'.prio ∧ t'.prio < maxPrio

/-- Parent and child after `cutSleepAvg`; nothing else changes. -/
lemma cutSleepAvg_frame (M : Arch) {s : Sys} {p : Tid} (hp : p ≠ s.curr) : ∃ T,
    s.cutSleepAvg M p = { s with task := T } ∧ Cut (s.task p) (T p)
      ∧ (∃ avg, T s.curr = { s.task s.curr with sleepAvg := avg })
      ∧ ∀ q, q ≠ p → q ≠ s.curr → T q = s.task q := by
  have hrt : ∀ t : Task, Task.IsRt { t with state := .running } ↔ t.IsRt := fun _ => Iff.rfl
  simp only [Sys.cutSleepAvg, Sys.modTask_task_self, Sys.modTask_curr, hrt]
  by_cases h : (s.task p).IsRt
  · rw [if_neg (not_not.mpr h)]
    refine ⟨_, rfl, ?_, ⟨(s.task s.curr).sleepAvg, ?_⟩, fun q hq _ => ?_⟩
    · rw [Function.update_self]
      exact ⟨⟨rfl, rfl, rfl, rfl⟩, rfl, rfl, rfl, Or.inl rfl,
        fun _ hge => absurd h (not_lt.mpr hge)⟩
    · rw [Function.update_of_ne hp.symm]
    · rw [Function.update_of_ne hq]
  rw [if_pos h]
  by_cases hsh : (s.task p).policy = .short
  · simp only [Sys.modTask, Function.update_self, Function.update_of_ne hp,
      Function.update_of_ne hp.symm, hsh, ne_eq, not_true_eq_false, if_false]
    refine ⟨_, rfl, ?_, ⟨(s.task s.curr).sleepAvg * parentPenalty / 100, ?_⟩,
      fun q hq hqc => ?_⟩
    · rw [Function.update_self]
      exact ⟨⟨hsh.symm, rfl, rfl, rfl⟩, rfl, rfl, rfl, Or.inl rfl, fun ho => by simp [hsh] at ho⟩
    · rw [Function.update_of_ne hp.symm, Function.update_self]
    · rw [Function.update_of_ne hq, Function.update_of_ne hqc, Function.update_of_ne hq]
  · simp only [Sys.modTask, Function.update_self, Function.update_of_ne hp,
      Function.update_of_ne hp.symm, ne_eq, hsh, not_false_eq_true, if_true]
    refine ⟨_, rfl, ?_, ⟨(s.task s.curr).sleepAvg * parentPenalty / 100, ?_⟩,
      fun q hq hqc => ?_⟩
    · rw [Function.update_self]
      have hb := Task.effectivePrio_bounds M { s.task p with
        state := .running, sleepAvg := (s.task p).sleepAvg * childPenalty / 100 }
      exact ⟨⟨rfl, rfl, rfl, rfl⟩, rfl, rfl, rfl, Or.inr ⟨hsh, h, hb⟩, fun _ _ => hb⟩
    · rw [Function.update_of_ne hp.symm, Function.update_of_ne hp.symm, Function.update_self]
    · rw [Function.update_of_ne hq, Function.update_of_ne hq, Function.update_of_ne hqc,
        Function.update_of_ne hq]

lemma Cut.taskOk {active expired : ArrayId} {t t' : Task} (h : Cut t t') (ht : ClassOk t)
    (hoff : t.array = none) : TaskOk active expired t' := by
  have ha := h.array.trans hoff
  by_cases hp : t.policy = .short
  · have hprio : t'.prio = t.prio := h.prio.resolve_right fun hc => hc.1 hp
    have hp' := h.policy.trans hp
    obtain ⟨h1, h2⟩ := ht.short hp
    rcases h1 with h1 | h1
    · exact TaskOk.of_regular hp' (h.isShort.trans h1) (Or.inl ha) (hprio ▸ h2)
        (h.staticPrio ▸ ht.static)
    · exact TaskOk.of_overdue hp' (h.isShort.trans h1) (Or.inl ha)
        (hprio.trans (ht.overdue ⟨hp, h1⟩)) (h.staticPrio ▸ ht.static)
  · have hs := h.isShort ▸ ht.usual hp
    by_cases ho : t.policy = .other
    · exact TaskOk.of_other (h.policy.trans ho) hs (Or.inl ha) (h.other ho (ht.other ho))
        (h.staticPrio ▸ ht.static)
    · have hrt : t.policy = .fifo ∨ t.policy = .rr := by
        cases hpol : t.policy <;> simp_all
      have hlt := ht.rt hrt
      have hprio : t'.prio = t.prio := h.prio.resolve_right fun hc => hc.2.1 hlt
      refine ⟨Or.inr (Or.inr ⟨h.policy ▸ hp, hs, Or.inl ha⟩), fun _ => ⟨hprio ▸ hlt, by simp [ha]⟩,
        ?_, fun hc => absurd (h.policy ▸ hc.1) hp, h.staticPrio ▸ ht.static⟩
      rw [h.policy]
      exact fun hc => absurd hc (by simp [ho, hp])

/-! ### The three parts of a fork -/

namespace RqInv

variable {M : Arch} {s s' : Sys} {c : Tid}

/-- A change to a record the system does not know yet, and to fields of the others that the
invariant does not read. -/
lemma mapUnknown (h : RqInv s) (hc : ¬ s.Known c) {T : Tid → Task} (hoff : (T c).array = none)
    (hT : ∀ q, q ≠ c → SameKey (s.task q) (T q) ∧ (T q).state = (s.task q).state) :
    RqInv { s with task := T } := by
  have hci : s.idle ≠ c := fun hi => hc (Or.inr hi.symm)
  have hcoff : (s.task c).array = none := by
    by_contra hne
    exact hc (Or.inl (h.queued c hne))
  have h₁ := h.mapKey (g := fun q => if q = c then s.task c else T q) (fun q => ?_) ?_
  · have hloc : ({ s with task := T } : Sys).locOf
        = ({ s with task := fun q => if q = c then s.task c else T q } : Sys).locOf := by
      funext q
      by_cases hq : q = c
      · simp [Sys.locOf, hq, hoff, hcoff]
      · simp [Sys.locOf, hq]
    refine ⟨hloc ▸ h₁.queues.of_arr rfl, h.nrRunning, h.ends, fun q hq => ?_, fun q hq => ?_, ?_,
      h.unlisted⟩
    · have hqc : q ≠ c := fun he => hc (he ▸ Or.inl hq)
      exact (h.tasks q hq).congr (hT q hqc).1
    · have hqc : q ≠ c := fun he => hq (he ▸ hoff)
      exact h.queued q ((hT q hqc).1.array ▸ hq)
    · simpa [hci] using h₁.idle
  · by_cases hq : q = c
    · simp [hq, SameKey.refl]
    · simpa [hq] using (hT q hq).1
  · simp [hci, (hT _ hci).2, h.idle.state]

lemma modUnknown (h : RqInv s) (hc : ¬ s.Known c) {f : Task → Task}
    (hf : (f (s.task c)).array = none) : RqInv (s.modTask c f) := by
  refine h.mapUnknown hc (by rwa [Function.update_self]) fun q hq => ?_
  rw [Function.update_of_ne hq]
  exact ⟨SameKey.refl _, rfl⟩

/-- A task in order that stands on no queue may be listed. -/
lemma list (h : RqInv s) (hc : c ≠ s.idle) (hoff : (s.task c).array = none)
    (ht : TaskOk s.active s.expired (s.task c)) :
    RqInv { s with live := Function.update s.live c true } := by
  refine ⟨h.queues.of_arr rfl, h.nrRunning, h.ends, fun q hq => ?_, fun q hq => ?_, h.idle, ?_⟩
  · by_cases hqc : q = c
    · exact hqc ▸ ht
    · refine h.tasks q ⟨?_, hq.2⟩
      simpa [Function.update_of_ne hqc] using hq.1
  · have hqc : q ≠ c := fun he => hq (he ▸ hoff)
    have hlive := h.queued q hq
    exact ⟨by simpa [Function.update_of_ne hqc] using hlive.1, hlive.2⟩
  · simpa [Function.update_of_ne hc.symm] using h.unlisted

/-- The child takes its share, and the parent's record changes in ways the queues do not
see. -/
lemma share (h : RqInv s) (hc : ¬ s.Known c) (hoff : (s.task c).array = none) {t : Task} {j : ℕ}
    {g : Task → Task} (hg : ∀ u, SameKey u (g u) ∧ (g u).state = u.state) :
    RqInv ((s.modTask c fun u => Sys.inherit t u j).modTask s.curr g) := by
  have h₁ : RqInv (s.modTask c fun u => Sys.inherit t u j) :=
    h.modUnknown hc (by rw [inherit_array, hoff])
  refine h₁.modKey (hg _).1 fun hi => ?_
  rw [(hg _).2, hi]
  exact h₁.idle.state

end RqInv

/-- What `forkShare` does: parent and child share the slice, and a parent left with none is
charged a tick. -/
inductive Shared (M : Arch) (s : Sys) (c : Tid) : Sys → Prop where
  | halved (h0 : (s.task s.curr).timeSlice ≠ 0)
      (h : (Sys.halve (s.task s.curr)).timeSlice ≠ 0) :
      Shared M s c ((s.modTask c fun t => Sys.inherit (s.task s.curr) t s.jiffies).modTask
        s.curr Sys.halve)
  | charged (h0 : (s.task s.curr).timeSlice ≠ 0)
      (h : (Sys.halve (s.task s.curr)).timeSlice = 0) :
      Shared M s c (((s.modTask c fun t => Sys.inherit (s.task s.curr) t s.jiffies).modTask
        s.curr fun t => { Sys.halve t with timeSlice := 1 }).schedulerTick M)

lemma forkShare_shared {M : Arch} {s s' : Sys} {c : Tid} (hc : c ≠ s.curr)
    (h : s.forkShare M c = some s') : Shared M s c s' := by
  have hne := Sys.modTask_task_of_ne s c
    (fun t => Sys.inherit (s.task s.curr) t s.jiffies) hc.symm
  simp only [Sys.forkShare, Sys.modTask_task_self, Sys.modTask_modTask, hne] at h
  split_ifs at h with h0 h1 <;> obtain rfl := Option.some.inj h
  · exact .charged h0 h1
  · exact .halved h0 h1

/-- What sharing its slice leaves a parent with record `t`. -/
inductive ShareOf (M : Arch) (active expired : ArrayId) (t : Task) : Task → Prop where
  | halved (h : (Sys.halve t).timeSlice ≠ 0) : ShareOf M active expired t (Sys.halve t)
  | spared (b : Bool) (h : (Sys.halve t).timeSlice = 0) :
      ShareOf M active expired t { Sys.halve t with timeSlice := 1, needResched := b }
  | charged {t' : Task} (h : (Sys.halve t).timeSlice = 0)
      (ht : TickOf M active expired { Sys.halve t with timeSlice := 1 } t') :
      ShareOf M active expired t t'

lemma halve_isShort (t : Task) : (Sys.halve t).isShort = t.isShort := (halve_same t).1.isShort

lemma TickOf.isShort_one {M : Arch} {active expired : ArrayId} {t t' : Task}
    (h : TickOf M active expired t t') (h1 : t'.isShort = 1) : t.isShort = 1 := by
  cases h with
  | turnOverdue => simp [Sys.turnOverdue] at h1
  | _ => exact h1

namespace ShareOf

variable {M : Arch} {active expired : ArrayId} {t t' : Task}

lemma isShort_one (h : ShareOf M active expired t t') (h1 : t'.isShort = 1) : t.isShort = 1 := by
  cases h with
  | halved _ => exact halve_isShort t ▸ h1
  | spared _ _ => exact halve_isShort t ▸ h1
  | charged _ ht => exact halve_isShort t ▸ ht.isShort_one h1

lemma queued (h : ShareOf M active expired t t') (ha : t.array ≠ none) : t'.array ≠ none := by
  have hh : (Sys.halve t).array ≠ none := (halve_same t).1.array ▸ ha
  cases h with
  | halved _ => exact hh
  | spared _ _ => exact hh
  | charged _ ht => exact ht.queued hh

end ShareOf

namespace Shared

variable {M : Arch} {s s' : Sys} {c : Tid}

lemma rqInv (h : RqInv s) (hc : ¬ s.Known c) (hoff : (s.task c).array = none)
    (hs : Shared M s c s') : RqInv s' := by
  cases hs with
  | halved _ _ => exact h.share hc hoff halve_same
  | charged _ _ =>
      refine (h.share hc hoff fun u => ?_).schedulerTick
      obtain ⟨h1, h2⟩ := halve_same u
      exact ⟨⟨h1.array, h1.prio, h1.policy, h1.isShort, h1.staticPrio⟩, h2⟩

lemma frame (hcc : c ≠ s.curr) (hs : Shared M s c s') : s'.live = s.live ∧ s'.idle = s.idle
    ∧ s'.curr = s.curr ∧ s'.task c = Sys.inherit (s.task s.curr) (s.task c) s.jiffies
    ∧ ∀ q, q ≠ c → q ≠ s.curr → s'.task q = s.task q := by
  have hne : ∀ f g : Task → Task, ∀ q, q ≠ c → q ≠ s.curr →
      ((s.modTask c f).modTask s.curr g).task q = s.task q := fun f g q hq hqc => by
    rw [Sys.modTask_task_of_ne _ _ _ hqc, Sys.modTask_task_of_ne _ _ _ hq]
  have hself : ∀ f g : Task → Task, ((s.modTask c f).modTask s.curr g).task c = f (s.task c) :=
    fun f g => by rw [Sys.modTask_task_of_ne _ _ _ hcc, Sys.modTask_task_self]
  cases hs with
  | halved _ _ => exact ⟨rfl, rfl, rfl, hself _ _, hne _ _⟩
  | charged _ _ =>
      obtain ⟨h1, h2, h3, -⟩ := Sys.schedulerTick_frame (M := M)
        (s := (s.modTask c fun t => Sys.inherit (s.task s.curr) t s.jiffies).modTask s.curr
          fun t => { Sys.halve t with timeSlice := 1 })
      refine ⟨h3, h2, h1, ?_, fun q hq hqc => ?_⟩
      · rw [Sys.schedulerTick_task_of_ne (by exact hcc), hself]
      · rw [Sys.schedulerTick_task_of_ne (by exact hqc), hne _ _ q hq hqc]

/-- The parent once the slice is shared. -/
lemma parent (h : RqInv s) (hc : ¬ s.Known c) (hcc : c ≠ s.curr)
    (hoff : (s.task c).array = none) (hs : Shared M s c s') :
    ShareOf M s.active s.expired (s.task s.curr) (s'.task s.curr) := by
  have hself : ∀ f g : Task → Task, ((s.modTask c f).modTask s.curr g).task s.curr
      = g (s.task s.curr) := fun f g => by
    rw [Sys.modTask_task_self, Sys.modTask_task_of_ne _ _ _ hcc.symm]
  cases hs with
  | halved _ h1 =>
      rw [hself]
      exact .halved h1
  | charged _ h1 =>
      set s₁ := (s.modTask c fun t => Sys.inherit (s.task s.curr) t s.jiffies).modTask s.curr
        fun t => { Sys.halve t with timeSlice := 1 } with hs₁
      have h₁ : RqInv s₁ := h.share hc hoff fun u => by
        obtain ⟨h1, h2⟩ := halve_same u
        exact ⟨⟨h1.array, h1.prio, h1.policy, h1.isShort, h1.staticPrio⟩, h2⟩
      have htask : s₁.task s.curr = { Sys.halve (s.task s.curr) with timeSlice := 1 } := hself _ _
      by_cases hch : s₁.Charged s.curr
      · have ht := Sys.schedulerTick_charged (M := M) h₁ hch
        rw [htask] at ht
        exact .charged h1 ht
      · obtain ⟨b, hb⟩ := Sys.schedulerTick_uncharged (M := M) hch
        rw [hb, htask]
        exact .spared b h1

/-- A child of a task that is still a regular SHORT task is one itself. -/
lemma match_one (h : RqInv s) (hc : ¬ s.Known c) (hcc : c ≠ s.curr)
    (hoff : (s.task c).array = none) (hs : Shared M s c s')
    (h1 : (s'.task s.curr).isShort = 1) : (s'.task c).isShort = 1 := by
  have hp := (hs.parent h hc hcc hoff).isShort_one h1
  rw [(hs.frame hcc).2.2.2.1]
  simp [Sys.inherit, hp]

lemma inv (h : Inv s) (hc : ¬ s.Known c) (hoff : (s.task c).array = none)
    (hs : Shared M s c s') : Inv s' := by
  have hcc : c ≠ s.curr := fun he => hc (he ▸ h.known_curr)
  obtain ⟨hlive, hidle, hcurr, -, hother⟩ := hs.frame hcc
  refine ⟨hs.rqInv h.toRqInv hc hoff, fun hne => ?_, fun q hq hqc => ?_⟩
  · rw [hcurr] at hne ⊢
    rw [hidle] at hne
    exact (hs.parent h.toRqInv hc hcc hoff).queued (h.curr hne)
  · rw [Sys.IsTask, hlive, hidle] at hq
    rw [hcurr] at hqc
    rw [hother q (fun he => hc (he ▸ Or.inl hq)) hqc]
    exact h.awake q hq hqc

end Shared

/-- Every record but that of `c` is kept, and `c` is now listed. -/
structure Named (c : Tid) (s s' : Sys) : Prop where
  live : s'.live = Function.update s.live c true
  idle : s'.idle = s.idle
  curr : s'.curr = s.curr
  kept : ∀ q, q ≠ c → Kept (s.task q) (s'.task q)
  off : ∀ q, q ≠ c → ¬ s.Known q → s'.task q = s.task q

namespace Named

variable {c : Tid} {s s' s'' : Sys}

lemma known_of_ne (h : Named c s s') {q : Tid} (hq : q ≠ c) : s'.Known q ↔ s.Known q := by
  rw [Sys.Known, Sys.Known, Sys.IsTask, Sys.IsTask, h.live, h.idle, Function.update_of_ne hq]

lemma isTask (h : Named c s s') (hc : c ≠ s.idle) : s'.IsTask c := by
  rw [Sys.IsTask, h.live, h.idle, Function.update_self]
  exact ⟨rfl, hc⟩

lemma quiet (h : Named c s s') (hq : Quiet (some c) s' s'') : Named c s s'' where
  live := hq.live.trans h.live
  idle := hq.idle.trans h.idle
  curr := hq.curr.trans h.curr
  kept := fun q hqc => (h.kept q hqc).trans (hq.kept q fun he => hqc (Option.some.inj he).symm)
  off := fun q hqc hk =>
    (hq.off q ((not_congr (h.known_of_ne hqc)).mpr hk)).trans (h.off q hqc hk)

/-- The invariant with the new task, once it is queued and runnable. -/
lemma inv (h : Named c s s') (hs : Inv s) (hc : ¬ s.Known c) (hs' : RqInv s')
    (hst : (s'.task c).state = .running) (hqd : (s'.task c).array ≠ none) : Inv s' := by
  refine ⟨hs', fun hne => ?_, fun q hq hqc => ?_⟩
  · rw [h.curr, h.idle] at hne
    rw [h.curr]
    have hcc : s.curr ≠ c := fun he => hc (he ▸ hs.known_curr)
    exact (h.kept _ hcc).queued.mpr (hs.curr hne)
  · by_cases hqc' : q = c
    · exact hqc' ▸ iff_of_true hst hqd
    · rw [Sys.IsTask, h.live, h.idle, Function.update_of_ne hqc'] at hq
      exact (h.kept q hqc').awake.mpr (hs.awake q hq (h.curr ▸ hqc))

end Named

section

variable (M : Arch) {s : Sys} {c : Tid}

omit M in
lemma linkChild_self (s : Sys) (flags : ForkFlags) (c : Tid) : ∃ pO pP,
    (s.linkChild flags c).task c = { s.task c with pOpptr := pO, pPptr := pP } :=
  ⟨if flags.cloneParent then (s.task s.curr).pOpptr else s.curr,
    if flags.cloneParent then (s.task s.curr).pPptr else s.curr, Function.update_self ..⟩

omit M in
lemma linkChild_of_ne (s : Sys) (flags : ForkFlags) {q : Tid} (hq : q ≠ c) :
    (s.linkChild flags c).task q = s.task q := Function.update_of_ne hq ..

/-- The child once it is linked to its parent, listed, and runnable. -/
lemma cut_named (h : Inv s) (hc : ¬ s.Known c) (hcls : ClassOk (s.task c))
    (hoff : (s.task c).array = none) (flags : ForkFlags) :
    let s₂ := (s.linkChild flags c).cutSleepAvg M c
    RqInv s₂ ∧ Named c s s₂ ∧ SameCore (s.task c) (s₂.task c)
      ∧ (s₂.task c).state = .running ∧ (s₂.task c).array = none := by
  intro s₂
  have hcc : c ≠ s.curr := fun he => hc (he ▸ h.known_curr)
  have hci : c ≠ s.idle := fun he => hc (Or.inr he)
  set s₁ := s.linkChild flags c with hs₁
  obtain ⟨T, heq, hcut, ⟨avg, hcurr⟩, hother⟩ := cutSleepAvg_frame M (s := s₁) hcc
  have hs₂ : s₂ = { s₁ with task := T } := heq
  obtain ⟨pO, pP, htask⟩ := linkChild_self s flags c
  have hne : ∀ q, q ≠ c → s₁.task q = s.task q := fun q hq => linkChild_of_ne s flags hq
  have hcurr' : T s.curr = { s.task s.curr with sleepAvg := avg } := by
    rw [← hne s.curr hcc.symm]
    exact hcurr
  have hT : ∀ q, q ≠ c → Kept (s.task q) (T q) ∧ SameKey (s.task q) (T q) := by
    intro q hq
    by_cases hqc : q = s.curr
    · rw [hqc, hcurr']
      exact ⟨⟨⟨rfl, rfl, rfl, rfl⟩, rfl, Iff.rfl⟩, ⟨rfl, rfl, rfl, rfl, rfl⟩⟩
    · rw [show T q = s.task q from (hother q hq hqc).trans (hne q hq)]
      exact ⟨Kept.refl _, SameKey.refl _⟩
  have hcut' : Cut { s.task c with pOpptr := pO, pPptr := pP } (T c) := htask ▸ hcut
  have hTc : (T c).array = none := hcut'.array.trans hoff
  have hcls' : ClassOk { s.task c with pOpptr := pO, pPptr := pP } :=
    ⟨hcls.short, hcls.overdue, hcls.usual, hcls.rt, hcls.other, hcls.static⟩
  have hmap : RqInv { s with task := T } :=
    h.toRqInv.mapUnknown hc hTc fun q hq => ⟨(hT q hq).2, (hT q hq).1.state⟩
  rw [hs₂]
  refine ⟨hmap.list hci hTc (hcut'.taskOk hcls' hoff), ⟨rfl, rfl, rfl, fun q hq => (hT q hq).1,
    fun q hq hk => ?_⟩, ⟨hcut'.policy, hcut'.isShort, hcut'.requestedTime, hcut'.timeSlice⟩,
    hcut'.state, hTc⟩
  have hqc : q ≠ s.curr := fun he => hk (he ▸ h.known_curr)
  exact (hother q hq hqc).trans (hne q hq)

omit M in
/-- A regular SHORT child enters at the head of its queue. -/
lemma RqInv.enqueueShortChild (h : RqInv s) (hc : s.IsTask c) (hoff : (s.task c).array = none)
    (hcls : TaskOk s.active s.expired (s.task c)) (h1 : (s.task c).isShort = 1) :
    RqInv { s.enqueueFirst c .shortActive with nrRunning := s.nrRunning + 1 } := by
  have hsh : (s.task c).policy = .short := by
    by_contra hp
    have := hcls.isShort_ne_one hp
    omega
  exact h.enqueue hc hoff
    (TaskOk.of_regular hsh h1 (Or.inr rfl) (hcls.usual (Or.inr hsh)) hcls.static)
    (List.Perm.refl _)

/-- The child of a regular SHORT task goes to the head of its queue, and the father to the tail
of his. -/
lemma queueShortChild_named (h : RqInv s) {f : Tid} (hf : s.Known f) (hfq : (s.task f).array ≠ none)
    (hfc : f ≠ c) (hc : s.IsTask c) (hoff : (s.task c).array = none)
    (hcls : TaskOk s.active s.expired (s.task c)) (h1 : (s.task c).isShort = 1) :
    let s₂ := s.queueShortChild M f c
    RqInv s₂ ∧ Quiet (some c) s s₂ ∧ SameCore (s.task c) (s₂.task c)
      ∧ (s₂.task c).state = (s.task c).state ∧ (s₂.task c).array ≠ none := by
  intro s₂
  set s₁ : Sys := { s.enqueueFirst c .shortActive with nrRunning := s.nrRunning + 1 } with hs₁
  have hs₂ : s₂ = (s₁.deactivateTask f).activateTask M f := rfl
  clear_value s₂
  subst hs₂
  set s₂ := (s₁.deactivateTask f).activateTask M f with hs₂
  have h₁ : RqInv s₁ := h.enqueueShortChild hc hoff hcls h1
  have hother : ∀ q, q ≠ c → s₁.task q = s.task q := fun q hq => Function.update_of_ne hq ..
  have hself : s₁.task c = { s.task c with array := some .shortActive } := Function.update_self ..
  have hq₁ : Quiet (some c) s s₁ := by
    set l := c :: (s.arr .shortActive).queue (s.task c).prio
    exact .of_others (s.enqueueAs_live c .shortActive l) (s.enqueueAs_idle c .shortActive l)
      (s.enqueueAs_curr c .shortActive l) (Or.inl hc) hother
  obtain ⟨a, ha⟩ := Option.ne_none_iff_exists'.mp hfq
  have hf₁ : s₁.Known f := (hq₁.known f).mpr hf
  have ha₁ : (s₁.task f).array = some a := by rw [hother f hfc, ha]
  have hp₁ := h₁.isTask_of_array ha₁
  have hd := Quiet.deactivate (s := s₁) hf₁
  have hq₂ : Quiet (some f) s₁ s₂ := hd.andActivate M hf₁
  have hfself : Kept (s₁.task f) (s₂.task f) := by
    have hcore := activateTask_core M (s₁.deactivateTask f) f
    have hst := activateTask_state M (s₁.deactivateTask f) f
    rw [deactivateTask_self] at hcore hst
    have hoff₁ : SameCore (s₁.task f) { s₁.task f with array := none } := ⟨rfl, rfl, rfl, rfl⟩
    exact ⟨hoff₁.trans hcore,
      hst, iff_of_true (activateTask_queued M _ f) (by simp [ha₁])⟩
  have hkept := (hq₂.strengthen hfself).kept c (by simp)
  rw [hself] at hkept
  refine ⟨(h₁.deactivate ha₁).activate M (RqInv.isTask_deactivate.mpr hp₁) (by
    rw [deactivateTask_self]), hq₁.trans (hq₂.strengthen hfself).weaken, ?_, hkept.state,
    hkept.queued.mpr (Option.some_ne_none _)⟩
  exact ⟨hkept.policy, hkept.isShort, hkept.requestedTime, hkept.timeSlice⟩

/-- **Waking the child.**  The runqueue stays in order and the child is runnable and queued, if
a child of a regular SHORT task is one itself. -/
theorem Inv.forkWake (h : Inv s) (hc : ¬ s.Known c) (hcls : ClassOk (s.task c))
    (hoff : (s.task c).array = none)
    (hmatch : (s.task s.curr).isShort = 1 → (s.task c).isShort = 1) (flags : ForkFlags) :
    Inv (s.forkWake M flags c) ∧ Named c s (s.forkWake M flags c)
      ∧ SameCore (s.task c) ((s.forkWake M flags c).task c)
      ∧ ((s.forkWake M flags c).task c).state = .running
      ∧ ((s.forkWake M flags c).task c).array ≠ none := by
  have hcc : c ≠ s.curr := fun he => hc (he ▸ h.known_curr)
  have hci : c ≠ s.idle := fun he => hc (Or.inr he)
  -- whichever way the child is woken, a reschedule of the parent may follow
  have hfinal : ∀ s₃ : Sys, RqInv s₃ → Named c s s₃ → SameCore (s.task c) (s₃.task c) →
      (s₃.task c).state = .running → (s₃.task c).array ≠ none →
      let s₄ := if flags.cloneVfork then s₃ else s₃.reschedTask s.curr
      Inv s₄ ∧ Named c s s₄ ∧ SameCore (s.task c) (s₄.task c) ∧ (s₄.task c).state = .running
        ∧ (s₄.task c).array ≠ none := by
    intro s₃ h₃ hn hcore hst hqd s₄
    have hi := hn.inv h hc h₃ hst hqd
    by_cases hv : flags.cloneVfork = true
    · simp only [s₄, if_pos hv]
      exact ⟨hi, hn, hcore, hst, hqd⟩
    · have hk := reschedTask_kept s₃ s.curr c
      have hq : Quiet none s₃ (s₃.reschedTask s.curr) :=
        Quiet.reschedTask ((hn.known_of_ne hcc.symm).mpr h.known_curr)
      simp only [s₄, if_neg hv]
      exact ⟨hi.of_quiet hq h₃.reschedTask, hn.quiet hq.weaken, hcore.trans hk.toSameCore,
        hk.state.trans hst, hk.queued.mpr hqd⟩
  obtain ⟨h₂, hn, hcore, hst, hoff₂⟩ := cut_named M h hc hcls hoff flags
  have hc₂ := hn.isTask hci
  have hcurr := linkChild_of_ne s flags hcc.symm
  have hchild : ((s.linkChild flags c).task c).isShort = (s.task c).isShort := by
    obtain ⟨pO, pP, htask⟩ := linkChild_self s flags c
    rw [htask]
  simp only [Sys.forkWake, hcurr, Sys.wakeUpShortForkedProcess, Sys.wakeUpForkedProcess, hchild]
  set s₂ := (s.linkChild flags c).cutSleepAvg M c with hs₂
  clear_value s₂
  by_cases h1 : (s.task s.curr).isShort = 1
  · have hc1 := hmatch h1
    have hne : s.curr ≠ s.idle := fun hi => by simp [hi, h.idle.isShort] at h1
    obtain ⟨h₃, hq, hcore₃, hst₃, hqd₃⟩ := queueShortChild_named M h₂
      ((hn.known_of_ne hcc.symm).mpr h.known_curr)
      ((hn.kept _ hcc.symm).queued.mpr (h.curr hne)) hcc.symm hc₂ hoff₂ (h₂.tasks c hc₂)
      (hcore.isShort.trans hc1)
    rw [if_pos h1, if_neg (not_not.mpr hc1)]
    exact hfinal _ h₃ (hn.quiet hq) (hcore.trans hcore₃) (hst₃.trans hst) hqd₃
  · rw [if_neg h1]
    exact hfinal _ (h₂.activate M hc₂ hoff₂) (hn.quiet (Quiet.activate M (Or.inl hc₂)))
      (hcore.trans (activateTask_core M _ c)) ((activateTask_state M _ c).trans hst)
      (activateTask_queued M _ c)

/-- A record the system does not know is nothing to the invariant. -/
lemma Inv.modUnknown (h : Inv s) (hc : ¬ s.Known c) {f : Task → Task}
    (hf : (f (s.task c)).array = none) : Inv (s.modTask c f) := by
  have hne : ∀ q, s.Known q → (s.modTask c f).task q = s.task q := fun q hq =>
    Sys.modTask_task_of_ne _ _ _ fun he => hc (he ▸ hq)
  refine ⟨h.toRqInv.modUnknown hc hf, fun hi => ?_, fun q hq hqc => ?_⟩
  · rw [Sys.modTask_curr, hne _ h.known_curr]
    exact h.curr hi
  · rw [hne q (Or.inl hq)]
    exact h.awake q hq hqc

/-- What `do_fork` does when nothing comes in between. -/
structure Forked (M : Arch) (c : Tid) (s s' : Sys) : Prop where
  live : s'.live = Function.update s.live c true
  idle : s'.idle = s.idle
  curr : s'.curr = s.curr
  child : SameCore (Sys.inherit (s.task s.curr) (Sys.childOf (s.task s.curr)) s.jiffies)
    (s'.task c)
  parent : ∃ t, ShareOf M s.active s.expired (s.task s.curr) t ∧ SameCore t (s'.task s.curr)
  kept : ∀ q, q ≠ c → q ≠ s.curr → Kept (s.task q) (s'.task q)
  off : ∀ q, q ≠ c → ¬ s.Known q → s'.task q = s.task q
  state : (s'.task c).state = .running
  queued : (s'.task c).array ≠ none

/-- **`do_fork` in one step.** -/
theorem Inv.doFork {s' : Sys} (h : Inv s) (hc : ¬ s.Known c) {flags : ForkFlags}
    (hs : s.doFork M flags c = some s') : Inv s' ∧ Forked M c s s' := by
  have hcc : c ≠ s.curr := fun he => hc (he ▸ h.known_curr)
  obtain ⟨s₁, hshare, rfl⟩ := Option.map_eq_some_iff.mp hs
  set s₀ := s.forkCopy c with hs₀
  have h₀ : Inv s₀ := h.modUnknown hc rfl
  have hself : s₀.task c = Sys.childOf (s.task s.curr) := Sys.modTask_task_self ..
  have hcurr : s₀.task s.curr = s.task s.curr := Sys.modTask_task_of_ne _ _ _ hcc.symm
  have hoff : (s₀.task c).array = none := by rw [hself]; rfl
  have hsh : Shared M s₀ c s₁ := forkShare_shared hcc hshare
  have h₁ : Inv s₁ := hsh.inv h₀ hc hoff
  obtain ⟨hlive, hidle, hcurr₁, hchild, hother⟩ := hsh.frame (s := s₀) hcc
  rw [show s₀.curr = s.curr from rfl, hcurr, hself] at hchild
  have hknown : ∀ q, s₁.Known q ↔ s.Known q := fun q => by
    rw [Sys.Known, Sys.Known, Sys.IsTask, Sys.IsTask, hlive, hidle]
    rfl
  have hcls : ClassOk (s₁.task c) := by
    rw [hchild]
    have hf := h.toRqInv.classOk h.known_curr
    exact inherit_classOk hf (childOf_copied hf) (Or.inl Iff.rfl)
  obtain ⟨h₂, hn, hcore, hst, hqd⟩ := h₁.forkWake M ((not_congr (hknown c)).mpr hc) hcls
    (by rw [hchild, inherit_array]; rfl)
    (fun h1 => hsh.match_one h₀.toRqInv hc hcc hoff (hcurr₁ ▸ h1)) flags
  refine ⟨h₂, ⟨?_, hn.idle.trans hidle, hn.curr.trans hcurr₁, hchild ▸ hcore,
    ⟨s₁.task s.curr, ?_, (hn.kept _ hcc.symm).toSameCore⟩, fun q hq hqc => ?_, fun q hq hk => ?_,
    hst, hqd⟩⟩
  · rw [hn.live, hlive]
    rfl
  · exact hcurr ▸ hsh.parent h₀.toRqInv hc hcc hoff
  · have hq₁ : s₁.task q = s.task q :=
      (hother q hq hqc).trans (Sys.modTask_task_of_ne _ _ _ hq)
    exact hq₁ ▸ hn.kept q hq
  · have hqc : q ≠ s.curr := fun he => hk (he ▸ h.known_curr)
    rw [hn.off q hq ((not_congr (hknown q)).mpr hk), hother q hq hqc]
    exact Sys.modTask_task_of_ne _ _ _ hq

end

end Os234123.Sched
