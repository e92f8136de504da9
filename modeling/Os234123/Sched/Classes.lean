import Os234123.Sched.Slices

/-!
Scheduling classes over a whole run.

* `TaskClass`, `Moves`: the classes, and the moves between them;
* `Step.moves`: an operation makes no other move;
* `WasShort`: a task has been SHORT in its own life, and `wasShort_marker`: its record remembers
  it;
* `charge`, `overdue_balance`: the ticks an overdue task is charged are taken off its slice;
* `reach_classesOk`: the three together, in every reachable state.
-/

namespace Os234123.Sched

open Machine

/-! ### Moves between the classes -/

/-- The class of a task: its policy, the SHORT one divided into regular and overdue. -/
inductive TaskClass where
  | other
  | fifo
  | rr
  | regular
  | overdue
  deriving DecidableEq, Repr

namespace TaskClass

/-- A class other than the SHORT ones. -/
def Usual (k : TaskClass) : Prop := k = .other ∨ k = .fifo ∨ k = .rr

end TaskClass

/-- The class of a record. -/
def Task.classOf (t : Task) : TaskClass :=
  match t.policy with
  | .other => .other
  | .fifo => .fifo
  | .rr => .rr
  | .short => if t.isShort = 1 then .regular else .overdue

/-- The operations that call `scheduler_tick`: the timer, and a fork by a parent with a single
jiffy left. -/
def Op.ticks : Op → Prop
  | .tick => True
  | .fork _ _ => True
  | _ => False

/-- The moves between classes, each with the operations that can make it. -/
inductive Moves : Op → TaskClass → TaskClass → Prop where
  | stay {o : Op} {k : TaskClass} : Moves o k k
  | request {pid policy : ℤ} {param : ParamPtr} :
      Moves (.setscheduler pid policy param) .other .regular
  | exhaust {o : Op} (ho : o.ticks) : Moves o .regular .overdue
  | release {o : Op} (ho : o.ticks) : Moves o .overdue .other
  | usual {pid policy : ℤ} {param : ParamPtr} {k k' : TaskClass} (hk : k.Usual) (hk' : k'.Usual) :
      Moves (.setscheduler pid policy param) k k'

lemma SameCore.classOf {t t' : Task} (h : SameCore t t') : t'.classOf = t.classOf := by
  rw [Task.classOf, Task.classOf, h.policy, h.isShort]

lemma Task.classOf_usual {t : Task} (h : t.policy ≠ .short) : t.classOf.Usual := by
  rw [Task.classOf, TaskClass.Usual]
  cases hp : t.policy <;> simp_all

lemma Task.IsRegular.classOf {t : Task} (h : t.IsRegular) : t.classOf = .regular := by
  simp [Task.classOf, h.1, h.2]

lemma Task.IsOverdue.classOf {t : Task} (h : t.IsOverdue) : t.classOf = .overdue := by
  simp [Task.classOf, h.1, h.2]

/-- The moves a tick makes. -/
lemma TickOf.moves {M : Arch} {active expired : ArrayId} {t t' : Task} {o : Op} (ho : o.ticks)
    (h : TickOf M active expired t t') : Moves o t.classOf t'.classOf := by
  cases h with
  | spend avg _ => exact .stay
  | refillRr _ hp => exact .stay
  | refillOther avg a _ hp _ => exact .stay
  | turnOverdue avg _ hp =>
      generalize hu : ({ Sys.turnOverdue M { t with timeSlice := 0, sleepAvg := avg } with
        array := some .overdue } : Task) = u
      have hov : u.IsOverdue := hu ▸ ⟨hp.1, rfl⟩
      rw [hp.classOf, hov.classOf]
      exact .exhaust ho
  | turnOther avg _ hp =>
      rw [hp.classOf]
      exact .release ho

/-- The moves of sharing a slice. -/
lemma ShareOf.moves {M : Arch} {active expired : ArrayId} {t t' : Task} {o : Op} (ho : o.ticks)
    (h : ShareOf M active expired t t') : Moves o t.classOf t'.classOf := by
  obtain ⟨hpol, his, -, -⟩ := SliceOk.halve_core t
  have hsame : ∀ u : Task, u.policy = (Sys.halve t).policy → u.isShort = (Sys.halve t).isShort →
      u.classOf = t.classOf := fun u h1 h2 => by
    rw [Task.classOf, Task.classOf, h1, h2, hpol, his]
  cases h with
  | halved _ => exact hsame _ rfl rfl ▸ .stay
  | spared b _ =>
      rw [hsame { Sys.halve t with timeSlice := 1, needResched := b } rfl rfl]
      exact .stay
  | charged _ ht =>
      rw [← hsame { Sys.halve t with timeSlice := 1 } rfl rfl]
      exact ht.moves ho

/-- The moves of an accepted change of parameters. -/
lemma Accepts.moves {M : Arch} {s : Sys} {p : Tid} {pol : Policy} {lp : SchedParam}
    (h : Accepts M s p pol lp) (hcls : ClassOk (s.task p)) {pid policy : ℤ} {param : ParamPtr} :
    Moves (.setscheduler pid policy param) (s.task p).classOf
      (Sys.newParams M (s.task p) pol lp).classOf := by
  obtain ⟨hstay, hover, honly, -⟩ : ¬ _ ∧ ¬ _ ∧ ¬ _ ∧ ¬ _ := by
    simpa only [Sys.BadShort, not_or] using h.short
  by_cases hp : pol = .short
  · subst hp
    rw [newParams_short, shortParams_eq]
    by_cases hps : (s.task p).policy = .short
    · have h1 : (s.task p).isShort = 1 :=
        ((hcls.short hps).1).resolve_right fun h2 => hover ⟨hps, h2⟩
      rw [Task.IsRegular.classOf ⟨hps, h1⟩]
      simp only [Task.classOf, hps, h1, if_true]
      exact .stay
    · have ho : (s.task p).policy = .other := by
        by_contra hne
        exact honly ⟨rfl, hne, hps⟩
      simp only [Task.classOf, ho]
      exact .request
  · have hps : (s.task p).policy ≠ .short := fun hps => hstay ⟨hps, hp⟩
    rw [newParams_of_ne M _ hp]
    exact .usual (Task.classOf_usual hps) (Task.classOf_usual hp)

/-- **An operation moves a task between classes only along the allowed moves.** -/
lemma Step.moves {M : Arch} {s s' : Sys} {o : Op} {p : Tid} (h : Inv s) (hstep : Step M s o s')
    (hp : s.Known p) : Moves o (s.task p).classOf (s'.task p).classOf := by
  have heff := hstep.effect p hp
  generalize s'.task p = t at heff
  cases heff with
  | keep _ hsame => exact hsame.classOf ▸ .stay
  | tick _ ht => exact ht.moves trivial
  | share _ ht hsame => exact hsame.classOf ▸ ht.moves trivial
  | change _ _ hacc hsame => exact hsame.classOf ▸ hacc.moves (h.toRqInv.classOk hp)
  | credit _ _ hsame =>
      rw [hsame.classOf]
      exact .stay

/-! ### Having been SHORT -/

/-- Task `p` was SHORT at some point of the run and has not been created since: it was SHORT in
its own life. -/
def WasShort (M : Arch) (ops : List Op) (p : Tid) : Prop :=
  ∃ pre post s, ops = pre ++ post ∧ run (Sys.exec M) pre (Sys.booted M) = some s
    ∧ s.live p = true ∧ (s.task p).policy = .short ∧ ∀ o ∈ post, o.child ≠ some p

/-- One more operation: the task is SHORT now, or it was there before and had been SHORT. -/
lemma wasShort_snoc {M : Arch} {ops : List Op} {o : Op} {s : Sys} {p : Tid}
    (h : run (Sys.exec M) (ops ++ [o]) (Sys.booted M) = some s) :
    WasShort M (ops ++ [o]) p ↔ (s.live p = true ∧ (s.task p).policy = .short)
      ∨ o.child ≠ some p ∧ WasShort M ops p := by
  constructor
  · rintro ⟨pre, post, s₁, heq, hs₁, hlive, hpol, hpost⟩
    rcases List.eq_nil_or_concat post with rfl | ⟨post', o', rfl⟩
    · rw [List.append_nil] at heq
      rw [heq, hs₁] at h
      obtain rfl := Option.some.inj h
      exact Or.inl ⟨hlive, hpol⟩
    · rw [List.concat_eq_append, ← List.append_assoc] at heq
      obtain ⟨rfl, ho⟩ := List.append_inj' heq rfl
      obtain rfl := List.singleton_inj.mp ho
      refine Or.inr ⟨hpost o (by simp), pre, post', s₁, rfl, hs₁, hlive, hpol, fun o' ho' => ?_⟩
      exact hpost o' (by simp [ho'])
  · rintro (⟨hlive, hpol⟩ | ⟨hne, pre, post, s₁, rfl, hs₁, hlive, hpol, hpost⟩)
    · exact ⟨ops ++ [o], [], s, (List.append_nil _).symm, h, hlive, hpol, by simp⟩
    · refine ⟨pre, post ++ [o], s₁, List.append_assoc .., hs₁, hlive, hpol, fun o' ho' => ?_⟩
      rcases List.mem_append.mp ho' with ho' | ho'
      · exact hpost o' ho'
      · exact List.mem_singleton.mp ho' ▸ hne

/-- The record of a task remembers whether it was ever SHORT. -/
def Remembers (t : Task) (was : Prop) : Prop :=
  (t.policy = .short → was) ∧ (t.policy ≠ .short → (t.isShort = -1 ↔ was))

lemma Remembers.congr {t t' : Task} {was : Prop} (h : Remembers t was) (hs : SameCore t t') :
    Remembers t' was := by
  rw [Remembers, hs.policy, hs.isShort]
  exact h

/-- A task that comes out of a move of its class remembers what it knew before, and that it is
SHORT now. -/
lemma Remembers.of_moves {t t' : Task} {was : Prop} (h : Remembers t was)
    (hstay : t.policy ≠ .short → t'.policy ≠ .short → t'.isShort = t.isShort)
    (hout : t.policy = .short → t'.policy ≠ .short → t'.isShort = -1) :
    Remembers t' (t'.policy = .short ∨ was) := by
  refine ⟨Or.inl, fun hp => ?_⟩
  by_cases hps : t.policy = .short
  · exact iff_of_true (hout hps hp) (Or.inr (h.1 hps))
  · rw [hstay hps hp, h.2 hps]
    simp [hp]

/-- What an operation does to the memory of a task that was there before. -/
lemma Effect.remembers {M : Arch} {s : Sys} {o : Op} {p : Tid} {t : Task} {was : Prop}
    (he : Effect M s p o t) (h : Remembers (s.task p) was) :
    Remembers t (t.policy = .short ∨ was) := by
  have htick : ∀ {active expired u u'}, TickOf M active expired u u' →
      u.policy = (s.task p).policy → u.isShort = (s.task p).isShort →
      Remembers u' (u'.policy = .short ∨ was) := by
    intro active expired u u' ht hpol his
    refine h.of_moves (fun hps hp => ?_) fun hps hp => ?_
    · rw [← hpol] at hps
      rw [← his]
      cases ht with
      | turnOverdue _ _ hreg => exact absurd hreg.1 hps
      | turnOther _ _ hov => exact absurd hov.1 hps
      | _ => rfl
    · rw [← hpol] at hps
      cases ht with
      | turnOther _ _ hov => exact hov.2
      | _ => exact absurd hps hp
  cases he with
  | keep _ hsame =>
      exact h.of_moves (fun _ _ => hsame.isShort) fun hps hp => absurd (hsame.policy.trans hps) hp
  | tick _ ht => exact htick ht rfl rfl
  | share _ ht hsame =>
      obtain ⟨hpol, his, -, -⟩ := SliceOk.halve_core (s.task p)
      rw [hsame.policy]
      refine Remembers.congr ?_ hsame
      cases ht with
      | charged _ ht => exact htick ht hpol his
      | _ => exact h.of_moves (fun _ _ => his) fun hps hp => absurd (hpol.trans hps) hp
  | @change pid policy lp pol t hfind hok hacc hsame =>
      obtain ⟨hstay, -, -, -⟩ : ¬ _ ∧ ¬ _ ∧ ¬ _ ∧ ¬ _ := by
        simpa only [Sys.BadShort, not_or] using hacc.short
      rw [hsame.policy]
      refine Remembers.congr ?_ hsame
      by_cases hp : pol = .short
      · subst hp
        have hps : (Sys.newParams M (s.task p) .short lp).policy = .short := by
          rw [newParams_short]
        exact ⟨Or.inl, fun hne => absurd hps hne⟩
      · rw [newParams_of_ne M _ hp]
        exact h.of_moves (fun _ _ => rfl) fun hps _ => absurd ⟨hps, hp⟩ hstay
  | credit _ _ hsame =>
      exact h.of_moves (fun _ _ => hsame.isShort) fun hps hp => absurd (hsame.policy.trans hps) hp

/-- A new child remembers nothing of what its parent was. -/
lemma inherit_remembers {t : Task} (h : ClassOk t) (j : ℕ) :
    Remembers (Sys.inherit t (Sys.childOf t) j) (t.policy = .short) := by
  refine ⟨fun hp => by simpa [Sys.childOf] using hp, fun hp => ?_⟩
  have hps : t.policy ≠ .short := by simpa [Sys.childOf] using hp
  have h0 := h.usual hps
  refine iff_of_false ?_ hps
  by_cases h1 : t.isShort = -1
  · simp [Sys.inherit, hps, h1]
  · simp [Sys.inherit, h1]

/-- **The record of every listed task remembers its own past.** -/
theorem wasShort_marker {M : Arch} {ops : List Op} {s : Sys}
    (h : run (Sys.exec M) ops (Sys.booted M) = some s) {p : Tid} (hp : s.live p = true) :
    Remembers (s.task p) (WasShort M ops p) := by
  induction ops using List.reverseRecOn generalizing s with
  | nil =>
      obtain rfl := Option.some.inj h
      simp [booted_live] at hp
  | append_singleton ops o ih =>
      obtain ⟨s₁, hs₁, hs⟩ := run_snoc_eq_some.mp h
      have hinv := reach_inv hs₁
      have hstep := exec_step hinv hs
      have hiff := wasShort_snoc (p := p) h
      have hk : s.Known p := Or.inl (hstep.inv.toRqInv.isTask_of_live hp)
      rcases hstep.known_or_child hk with hk₁ | hc
      · have hlive₁ : s₁.live p = true := by
          rcases hk₁ with ht | hi
          · exact ht.1
          · rw [hi, ← hstep.idle, hstep.inv.unlisted] at hp
            exact absurd hp (by simp)
        have hne : o.child ≠ some p := fun hc => (hstep.child p hc).1 hk₁
        have hr := (hstep.effect p hk₁).remembers (ih hs₁ hlive₁)
        simpa [hiff, hp, hne] using hr
      · obtain ⟨-, hf⟩ := hstep.child p hc
        have hr := (inherit_remembers (hinv.toRqInv.classOk hinv.known_curr)
          s₁.jiffies).congr hf.child
        have hpol : (s.task p).policy = (s₁.task s₁.curr).policy := by
          rw [hf.child.policy, inherit_policy]
          rfl
        simpa [hiff, hp, hc, hpol] using hr

/-- `sys_was_short` tells what the record remembers. -/
lemma sysWasShort_iff {s : Sys} {was : Tid → Prop}
    (hr : ∀ p, s.live p = true → Remembers (s.task p) (was p)) (pid : ℤ) :
    s.sysWasShort pid = some 1 ↔ 0 < pid ∧ s.live pid.toNat = true
      ∧ (s.task pid.toNat).policy ≠ .short ∧ was pid.toNat := by
  simp only [Sys.sysWasShort]
  by_cases hpid : 0 < pid ∧ s.live pid.toNat = true
  swap
  · rw [if_neg hpid]
    exact iff_of_false (by simp) fun hc => hpid ⟨hc.1, hc.2.1⟩
  rw [if_pos hpid]
  by_cases hp : (s.task pid.toNat).policy = .short
  · simp [hp]
  · rw [if_neg hp, Option.some.injEq, neg_eq_iff_eq_neg, (hr _ hpid.2).2 hp]
    simp [hpid.1, hpid.2, hp]

/-! ### The ticks of an overdue task -/

/-- The ticks an operation charges task `p`, its own forks apart. -/
def charge (p : Tid) (s : Sys) : Op → ℕ
  | .tick => if s.Charged p then 1 else 0
  | _ => 0

/-- Task `p` is not the one that forks or reaps. -/
def Childless (p : Tid) (s : Sys) : Op → Prop
  | .fork _ _ => s.curr ≠ p
  | .reap _ => s.curr ≠ p
  | _ => True

instance (p : Tid) (s : Sys) (o : Op) : Decidable (Childless p s o) := by
  unfold Childless
  induction o using Op.casesOn <;> infer_instance

/-- Task `p` is overdue, and neither forks nor reaps. -/
def OverdueAlone (p : Tid) (s : Sys) (o : Op) : Prop :=
  s.IsTask p ∧ (s.task p).IsOverdue ∧ Childless p s o

instance (p : Tid) (s : Sys) (o : Op) : Decidable (OverdueAlone p s o) :=
  inferInstanceAs (Decidable (_ ∧ _))

/-- What is left of the slice of an overdue task. -/
def overdueLeft (p : Tid) (s : Sys) : ℕ :=
  if (s.task p).IsOverdue then (s.task p).timeSlice else 0

/-- A regular SHORT task that turns overdue starts with twice its request. -/
lemma Effect.turned {M : Arch} {s : Sys} {o : Op} {p : Tid} {t : Task} (he : Effect M s p o t)
    (hreg : (s.task p).IsRegular) (hov : t.IsOverdue) :
    t.requestedTime = (s.task p).requestedTime
      ∧ t.timeSlice = 2 * (s.task p).requestedTime * M.HZ / 1000 := by
  have hstay : t.isShort ≠ (s.task p).isShort := fun h => by
    have h1 := hreg.2
    have h2 := hov.2
    omega
  have htick : ∀ {active expired u u'}, TickOf M active expired u u' →
      u.isShort = (s.task p).isShort → u.requestedTime = (s.task p).requestedTime →
      u'.isShort = t.isShort → u'.requestedTime = (s.task p).requestedTime
        ∧ u'.timeSlice = 2 * (s.task p).requestedTime * M.HZ / 1000 := by
    intro active expired u u' ht his hreq hu'
    cases ht with
    | turnOverdue _ _ _ => exact ⟨hreq, by rw [← hreq]; rfl⟩
    | _ => exact absurd (hu'.symm.trans his) hstay
  cases he with
  | keep _ hsame => exact absurd hsame.isShort hstay
  | tick _ ht => exact htick ht rfl rfl rfl
  | share _ ht hsame =>
      obtain ⟨-, his, hreq, -⟩ := SliceOk.halve_core (s.task p)
      cases ht with
      | charged _ ht =>
          obtain ⟨h1, h2⟩ := htick ht his hreq hsame.isShort.symm
          exact ⟨hsame.requestedTime.trans h1, hsame.timeSlice.trans h2⟩
      | _ => exact absurd (hsame.isShort.trans his) hstay
  | @change pid policy lp pol t hfind hok hacc hsame =>
      by_cases hp : pol = .short
      · subst hp
        refine absurd (hsame.isShort.trans ?_) hstay
        rw [newParams_short, shortParams_eq]
        simp [hreg.1]
      · have hpol := hsame.policy.symm.trans hov.1
        rw [newParams_of_ne M _ hp] at hpol
        exact absurd hpol hp
  | credit _ _ hsame => exact absurd hsame.isShort hstay

/-- An overdue task with something left of its slice, or one that has left the class. -/
def RunsOut (t : Task) : Prop :=
  t.IsOverdue ∧ 1 ≤ t.timeSlice ∧ t.timeSlice < uintSize ∨ t.policy = .other

/-- One step of an overdue task: what it is charged is taken off its slice, until it turns
OTHER. -/
lemma Effect.overdue {M : Arch} {s s' : Sys} {o : Op} {p : Tid} (he : Effect M s p o (s'.task p))
    (hok : OverdueAlone p s o) (hpos : 1 ≤ (s.task p).timeSlice)
    (hlt : (s.task p).timeSlice < uintSize) :
    RunsOut (s'.task p) ∧ charge p s o + overdueLeft p s' = overdueLeft p s := by
  obtain ⟨-, hov, hch⟩ := hok
  have hleft : overdueLeft p s = (s.task p).timeSlice := if_pos hov
  have hsame : ∀ {t}, SameCore (s.task p) t → t.IsOverdue ∧ 1 ≤ t.timeSlice
      ∧ t.timeSlice < uintSize := fun {t} h => by
    rw [Task.IsOverdue, h.policy, h.isShort, h.timeSlice]
    exact ⟨hov, hpos, hlt⟩
  rw [hleft]
  simp only [overdueLeft]
  generalize s'.task p = t at he
  cases he with
  | keep hn h =>
      obtain ⟨h1, h2, h3⟩ := hsame h
      refine ⟨Or.inl ⟨h1, h2, h3⟩, ?_⟩
      have h0 : charge p s o = 0 := by
        cases o with
        | tick => exact if_neg hn
        | _ => rfl
      rw [if_pos h1, h0, h.timeSlice, Nat.zero_add]
  | tick hc ht =>
      have hspend : usub (s.task p).timeSlice 1 = (s.task p).timeSlice - 1 := usub_of_le hlt hpos
      have h1 : charge p s .tick = 1 := if_pos hc
      rw [h1]
      cases ht with
      | spend avg hne =>
          rw [if_pos ⟨hov.1, hov.2⟩, hspend]
          rw [hspend] at hne
          refine ⟨Or.inl ⟨⟨hov.1, hov.2⟩, Nat.one_le_iff_ne_zero.mpr hne,
            (Nat.sub_le _ _).trans_lt hlt⟩, ?_⟩
          show 1 + ((s.task p).timeSlice - 1) = (s.task p).timeSlice
          omega
      | refillRr _ hp => exact absurd (hp.symm.trans hov.1) (by decide)
      | refillOther _ _ _ hp _ => exact absurd (hp.symm.trans hov.1) (by decide)
      | turnOverdue _ _ hreg => exact absurd (hreg.2.symm.trans hov.2) (by decide)
      | turnOther avg hz _ =>
          refine ⟨Or.inr rfl, ?_⟩
          rw [if_neg fun h => absurd h.1 (by simp [Sys.turnOther])]
          omega
  | share hp _ _ => exact absurd hp.symm hch
  | change _ _ hacc _ =>
      exact absurd (Or.inr (Or.inl ⟨hov.1, hov.2⟩)) hacc.short
  | credit hp _ _ => exact absurd hp.symm hch

/-- **The balance of an overdue task**: as long as it is overdue, the ticks it has been charged
and what is left of its slice add up to the slice it started with, and it leaves the class for
`SCHED_OTHER`. -/
theorem overdue_balance {M : Arch} {ops : List Op} {s s' : Sys} {p : Tid} (h : Inv s)
    (hov : (s.task p).IsOverdue) (hpos : 1 ≤ (s.task p).timeSlice)
    (hlt : (s.task p).timeSlice < uintSize)
    (hok : Along (Sys.exec M) (OverdueAlone p) ops s)
    (hrun : run (Sys.exec M) ops s = some s') :
    ((s'.task p).IsOverdue ∨ (s'.task p).policy = .other)
      ∧ tally (Sys.exec M) (charge p) ops s + overdueLeft p s' = (s.task p).timeSlice := by
  have hstep : ∀ s o s', Inv s ∧ RunsOut (s.task p) → OverdueAlone p s o →
      s.exec M o = some s' → (Inv s' ∧ RunsOut (s'.task p))
        ∧ charge p s o + overdueLeft p s' = overdueLeft p s := by
    rintro s o s' ⟨hi, hP⟩ hok hs
    have hst := exec_step hi hs
    obtain ⟨-, h1, h2⟩ := hP.resolve_right fun ho =>
      absurd (ho.symm.trans hok.2.1.1) (by decide)
    obtain ⟨hP', hbal⟩ := (hst.effect p (Or.inl hok.1)).overdue hok h1 h2
    exact ⟨⟨hst.inv, hP'⟩, hbal⟩
  have hinit : Inv s ∧ RunsOut (s.task p) := ⟨h, Or.inl ⟨hov, hpos, hlt⟩⟩
  refine ⟨?_, ?_⟩
  · exact (run_induct_along (fun s o s' hP hok hs => (hstep s o s' hP hok hs).1) hinit hok
      hrun).2.imp_left fun h => h.1
  · rw [tally_add_eq hstep hinit hok hrun]
    exact if_pos hov

/-! ### Every reachable state -/

lemma TickOf.requestedTime {M : Arch} {active expired : ArrayId} {t t' : Task}
    (h : TickOf M active expired t t') : t'.requestedTime = t.requestedTime := by
  cases h <;> rfl

/-- Requests stay within the maximum. -/
lemma Effect.request {M : Arch} {s : Sys} {o : Op} {p : Tid} {t : Task} (he : Effect M s p o t)
    (h : (s.task p).requestedTime ≤ 3000) : t.requestedTime ≤ 3000 := by
  cases he with
  | keep _ hsame => exact hsame.requestedTime ▸ h
  | tick _ ht => exact ht.requestedTime ▸ h
  | share _ ht hsame =>
      obtain ⟨-, -, hreq, -⟩ := SliceOk.halve_core (s.task p)
      rw [hsame.requestedTime]
      cases ht with
      | charged _ ht => exact ht.requestedTime.trans hreq ▸ h
      | _ => exact hreq ▸ h
  | @change pid policy lp pol t hfind hok hacc hsame =>
      rw [hsame.requestedTime]
      by_cases hp : pol = .short
      · subst hp
        have hr := hacc.request
        simp only [Sys.BadRequest, true_and, not_or, not_lt] at hr
        rw [newParams_short, shortParams_eq, if_neg (show ¬ lp.requestedTime.toNat = 0 by omega)]
        show lp.requestedTime.toNat ≤ 3000
        omega
      · rw [newParams_of_ne M _ hp]
        exact h
  | credit _ _ hsame => exact hsame.requestedTime ▸ h

lemma reach_request {M : Arch} {ops : List Op} {s : Sys}
    (h : run (Sys.exec M) ops (Sys.booted M) = some s) {p : Tid} (hp : s.Known p) :
    (s.task p).requestedTime ≤ 3000 := by
  refine (run_induct (P := fun s => Inv s ∧ ∀ p, s.Known p → (s.task p).requestedTime ≤ 3000)
    (fun s o s' hP hs => ?_) ⟨booted_inv M, fun p hp => ?_⟩ h).2 p hp
  · have hstep := exec_step hP.1 hs
    refine ⟨hstep.inv, fun q hq => ?_⟩
    rcases hstep.known_or_child hq with hk | hc
    · exact (hstep.effect q hk).request (hP.2 q hk)
    · obtain ⟨-, hf⟩ := hstep.child q hc
      rw [hf.child.requestedTime]
      exact hP.2 _ hP.1.known_curr
  · by_cases h0 : p = 0
    · rw [h0, booted_idle_task]
      exact Nat.zero_le _
    · rw [booted_task M h0]
      exact Nat.zero_le _

/-- What the classes of the tasks do from the state `s` that the run `ops` leads to. -/
structure ClassesOk (M : Arch) (ops : List Op) (s : Sys) : Prop where
  moves : ∀ o s' p, s.exec M o = some s' → s.Known p →
    Moves o (s.task p).classOf (s'.task p).classOf
  wasShort : ∀ pid : ℤ, s.sysWasShort pid = some 1 ↔ 0 < pid ∧ s.live pid.toNat = true
    ∧ (s.task pid.toNat).policy ≠ .short ∧ WasShort M ops pid.toNat
  overdue : ∀ o s₁ p, s.exec M o = some s₁ → s.IsTask p → (s.task p).IsRegular →
    (s₁.task p).IsOverdue → 1 ≤ 2 * (s.task p).requestedTime * M.HZ / 1000 →
    ∀ ops' s₂, Along (Sys.exec M) (OverdueAlone p) ops' s₁ →
      run (Sys.exec M) ops' s₁ = some s₂ → ¬ (s₂.task p).IsOverdue →
      (s₂.task p).policy = .other ∧ tally (Sys.exec M) (charge p) ops' s₁
        = 2 * (s.task p).requestedTime * M.HZ / 1000

/-- **Classes over a whole run**: the moves between them, what `sys_was_short` says, and the
ticks an overdue task is charged. -/
theorem reach_classesOk {M : Arch} {ops : List Op} {s : Sys}
    (h : run (Sys.exec M) ops (Sys.booted M) = some s) : ClassesOk M ops s where
  moves := fun o s' p hs hp => (exec_step (reach_inv h) hs).moves (reach_inv h) hp
  wasShort := sysWasShort_iff fun p hp => wasShort_marker h hp
  overdue := by
    intro o s₁ p hs hp hreg hov hpos ops' s₂ hok hrun hout
    have hstep := exec_step (reach_inv h) hs
    obtain ⟨-, hslice⟩ := (hstep.effect p (Or.inl hp)).turned hreg hov
    have hlt : 2 * (s.task p).requestedTime * M.HZ / 1000 < uintSize := by
      have h1 := Nat.mul_le_mul_right M.HZ (Nat.mul_le_mul_left 2 (reach_request h (Or.inl hp)))
      have h2 := M.HZ_int
      simp only [uintSize]
      omega
    obtain ⟨hend, hbal⟩ := overdue_balance hstep.inv hov (hslice ▸ hpos) (hslice ▸ hlt) hok hrun
    refine ⟨hend.resolve_left hout, ?_⟩
    rwa [overdueLeft, if_neg hout, Nat.add_zero, hslice] at hbal

/-- A run in which a task becomes SHORT, uses up its request of one jiffy, is overdue for two
and turns OTHER. -/
def shortLifeRun : List Op :=
  [.fork ⟨false, false⟩ 1, .schedule, .setscheduler 0 5 (.readable ⟨0, 10⟩), .tick, .tick, .tick]

theorem classesOk_shortLifeRun : ∃ s,
    run (Sys.exec .hz100) shortLifeRun (Sys.booted .hz100) = some s
      ∧ ClassesOk .hz100 shortLifeRun s ∧ s.sysWasShort 1 = some 1 := by
  have hrun : ((run (Sys.exec .hz100) shortLifeRun (Sys.booted .hz100)).any fun s =>
      decide (s.sysWasShort 1 = some 1)) = true := by
    decide +kernel
  obtain ⟨s, hs, hwas⟩ := (Option.any_eq_true _ _).mp hrun
  exact ⟨s, hs, reach_classesOk hs, of_decide_eq_true hwas⟩

end Os234123.Sched
