import Os234123.Family.Jobs

/-!
Orphaned process groups: the other half of `exit_notify`.

* `WillBecomeOrphanedPgrp`, `HasStoppedJobs`: the two tests of `kernel/exit.c`;
* `JobSys.exitNotify`: `exit_notify` with its two checks, which also returns the groups it sends
  `SIGHUP` and `SIGCONT`;
* `KillsGroup`: what it relies on `kill_pg` for, which is a call of `kernel/signal.c`;
* `AdoptRound`, `adoptLoop_round`: what one round of its loop does, and what all of them do;
* `hungUp_of_run`: a group is sent the signals exactly when the exit may have cut its last tie to the
  outside, it is orphaned afterwards and has stopped jobs.
-/

namespace Os234123.Family

open Linked Machine

/-- The signals `exit_notify` sends to a group. -/
inductive Signal where
  | hup
  | cont
  deriving DecidableEq, Repr

namespace JobSys

variable (killPg : ℤ → Signal → JobSys → JobSys) (x : JobSys)

/-! ### The tests -/

/-- `will_become_orphaned_pgrp`. -/
def WillBecomeOrphanedPgrp (pgrp : ℤ) (ignored : Option Addr) : Prop :=
  ∀ p ∈ x.sys.eachTask,
    ¬ (some p = ignored ∨ (x.sys.task p).pgrp ≠ pgrp ∨ (x.sys.task p).state = .zombie
      ∨ (x.sys.task (x.sys.pPptr p)).pid = 1) →
    ¬ ((x.sys.task (x.sys.pPptr p)).pgrp ≠ pgrp ∧ x.session (x.sys.pPptr p) = x.session p)

instance (pgrp : ℤ) (ignored : Option Addr) : Decidable (x.WillBecomeOrphanedPgrp pgrp ignored) :=
  inferInstanceAs (Decidable (∀ p ∈ x.sys.eachTask, _))

/-- `is_orphaned_pgrp`. -/
def IsOrphanedPgrp (pgrp : ℤ) : Prop := x.WillBecomeOrphanedPgrp pgrp none

instance (pgrp : ℤ) : Decidable (x.IsOrphanedPgrp pgrp) :=
  inferInstanceAs (Decidable (x.WillBecomeOrphanedPgrp pgrp none))

/-- `has_stopped_jobs`. -/
def HasStoppedJobs (pgrp : ℤ) : Prop :=
  ∃ p ∈ x.sys.eachTask, (x.sys.task p).pgrp = pgrp ∧ (x.sys.task p).state = .stopped

instance (pgrp : ℤ) : Decidable (x.HasStoppedJobs pgrp) :=
  inferInstanceAs (Decidable (∃ p ∈ x.sys.eachTask, _))

/-! ### The exit -/

/-- The group is sent `SIGHUP` and then `SIGCONT`. -/
def hangUp (pgrp : ℤ) : JobSys := killPg pgrp .cont (killPg pgrp .hup x)

/-- Case i of `exit_notify`: the group of `c`, whose only tie to the outside may be its parent. -/
def checkOwn (c : Addr) : JobSys × List ℤ :=
  let t := x.sys.pPptr c
  let pgrp := (x.sys.task c).pgrp
  if (x.sys.task t).pgrp ≠ pgrp ∧ x.session t = x.session c
      ∧ x.WillBecomeOrphanedPgrp pgrp (some c) ∧ x.HasStoppedJobs pgrp
  then (x.hangUp killPg pgrp, [pgrp]) else (x, [])

/-- Case ii: the group of the child `p` of `c`, which has just got its new parent. -/
def checkChild (c p : Addr) : JobSys × List ℤ :=
  let pgrp := (x.sys.task p).pgrp
  if pgrp ≠ (x.sys.task c).pgrp ∧ x.session p = x.session c
      ∧ x.IsOrphanedPgrp pgrp ∧ x.HasStoppedJobs pgrp
  then (x.hangUp killPg pgrp, [pgrp]) else (x, [])

/-- The loop of `exit_notify`, with the groups it has signalled. -/
def adoptLoop (c : Addr) : ℕ → JobSys → JobSys × List ℤ
  | 0, x => (x, [])
  | n + 1, x =>
      match x.sys.pCptr c with
      | none => (x, [])
      | some p =>
          let (x, sent) := ({ x with sys := x.sys.adoptChild c p } : JobSys).checkChild killPg c p
          let (x, sent') := adoptLoop c n x
          (x, sent ++ sent')

/-- `exit_notify` with its checks, and the groups it has signalled. -/
def exitNotify (c : Addr) : JobSys × List ℤ :=
  let x : JobSys := { x with sys := x.sys.forgetOriginalParent c }
  let parent := x.sys.pPptr c
  let (x, sent) := x.checkOwn killPg c
  let x : JobSys := { x with
    sys := x.sys.modTask c fun t =>
      { t with exitSignal := Sys.exitSignalOf t (x.sys.task parent), state := .zombie } }
  let (x, sent') := adoptLoop killPg c x.sys.fresh x
  ({ x with sys := x.sys.goto c .gone }, sent ++ sent')

/-- The exit of `c` as one step. -/
def exitCall (c : Addr) (code : ℤ) : JobSys × List ℤ :=
  ({ x with sys := x.sys.exitBegin c code } : JobSys).exitNotify killPg c

end JobSys

/-! ### What signals do -/

/-- Two states of the tree with the same tasks in the same groups and sessions. -/
structure SameIds (x y : JobSys) : Prop where
  each : y.sys.eachTask = x.sys.eachTask
  session : y.session = x.session
  ids : ∀ q, (y.sys.task q).pid = (x.sys.task q).pid ∧ (y.sys.task q).pgrp = (x.sys.task q).pgrp

/-- The same of them are zombies. -/
structure SameMembers (x y : JobSys) : Prop extends SameIds x y where
  zombie : ∀ q, (y.sys.task q).state = .zombie ↔ (x.sys.task q).state = .zombie

/-- Some of the tasks may have been continued. -/
structure SameJobs (x y : JobSys) : Prop extends SameMembers x y where
  stopped : ∀ q, (y.sys.task q).state = .stopped → (x.sys.task q).state = .stopped

/-- What `exit_notify` relies on `kill_pg` for: it writes the records of the group only, it ends and
stops no task at once, and `SIGCONT` continues the stopped tasks of a group above 0.  For 0 and below
it may do nothing. -/
structure KillsGroup (killPg : ℤ → Signal → JobSys → JobSys) : Prop where
  same : ∀ g σ x, (killPg g σ x).sys = { x.sys with task := (killPg g σ x).sys.task }
  jobs : ∀ g σ x, SameJobs x (killPg g σ x)
  outside : ∀ g σ x q, (x.sys.task q).pgrp ≠ g → (killPg g σ x).sys.task q = x.sys.task q
  cont : ∀ g x q, 0 < g → q ∈ x.sys.eachTask → (x.sys.task q).pgrp = g →
    ((killPg g .cont x).sys.task q).state ≠ .stopped

/-- A tie between `q` and its parent `a` that connects the group of `q` to the outside. -/
def JobSys.Ties (x : JobSys) (a q : Addr) : Prop :=
  (x.sys.task a).pid ≠ 1 ∧ (x.sys.task a).pgrp ≠ (x.sys.task q).pgrp ∧ x.session a = x.session q

/-- `q` is a child whose group the loop checks. -/
def JobSys.Checks (x : JobSys) (c q : Addr) (g : ℤ) : Prop :=
  (x.sys.task q).pgrp = g ∧ g ≠ (x.sys.task c).pgrp ∧ x.session q = x.session c

section

variable {killPg : ℤ → Signal → JobSys → JobSys} {x y z : JobSys} {a c p q : Addr} {g : ℤ}
  {sent : List ℤ}

/-- The test, by the ties of the members. -/
lemma willBecomeOrphanedPgrp_iff {ignored : Option Addr} : x.WillBecomeOrphanedPgrp g ignored
    ↔ ∀ q ∈ x.sys.eachTask, (x.sys.task q).pgrp = g → some q ≠ ignored →
      (x.sys.task q).state ≠ .zombie → ¬ x.Ties (x.sys.pPptr q) q := by
  refine forall₂_congr fun q _ => ?_
  constructor
  · rintro h hg hi hz ⟨hpid, hpg, hse⟩
    exact h (by tauto) ⟨hg ▸ hpg, hse⟩
  · rintro h hno ⟨hpg, hse⟩
    simp only [not_or, not_not] at hno
    obtain ⟨hi, hg, hz, hpid⟩ := hno
    exact h hg hi hz ⟨hpid, hg ▸ hpg, hse⟩

namespace SameIds

lemma trans (h : SameIds x y) (h' : SameIds y z) : SameIds x z :=
  ⟨h'.each.trans h.each, h'.session.trans h.session,
    fun q => ⟨(h'.ids q).1.trans (h.ids q).1, (h'.ids q).2.trans (h.ids q).2⟩⟩

lemma ties (h : SameIds x y) : y.Ties a q ↔ x.Ties a q := by
  rw [JobSys.Ties, JobSys.Ties, (h.ids a).1, (h.ids a).2, (h.ids q).2, h.session]

lemma checks (h : SameIds x y) : y.Checks c q g ↔ x.Checks c q g := by
  rw [JobSys.Checks, JobSys.Checks, (h.ids q).2, (h.ids c).2, h.session]

end SameIds

namespace SameMembers

lemma symm (h : SameMembers x y) : SameMembers y x :=
  ⟨⟨h.each.symm, h.session.symm, fun q => ⟨(h.ids q).1.symm, (h.ids q).2.symm⟩⟩,
    fun q => (h.zombie q).symm⟩

lemma trans (h : SameMembers x y) (h' : SameMembers y z) : SameMembers x z :=
  ⟨h.toSameIds.trans h'.toSameIds, fun q => (h'.zombie q).trans (h.zombie q)⟩

/-- A group that is orphaned in one of two states is so in the other, if every tie a member has there
is one that it has here. -/
lemma willBecomeOrphaned (h : SameMembers x y) {i i' : Option Addr}
    (hx : x.WillBecomeOrphanedPgrp g i)
    (hq : ∀ q ∈ x.sys.eachTask, (x.sys.task q).pgrp = g → some q ≠ i' →
      (x.sys.task q).state ≠ .zombie → x.Ties (y.sys.pPptr q) q →
      some q ≠ i ∧ x.Ties (x.sys.pPptr q) q) : y.WillBecomeOrphanedPgrp g i' := by
  rw [willBecomeOrphanedPgrp_iff] at hx ⊢
  intro q hqe hg hi hz htie
  rw [h.each] at hqe
  rw [(h.ids q).2] at hg
  rw [Ne, h.zombie q] at hz
  rw [h.ties] at htie
  obtain ⟨hi', htie'⟩ := hq q hqe hg hi hz htie
  exact hx q hqe hg hi' hz htie'

end SameMembers

namespace SameJobs

lemma refl (x : JobSys) : SameJobs x x :=
  ⟨⟨⟨rfl, rfl, fun _ => ⟨rfl, rfl⟩⟩, fun _ => Iff.rfl⟩, fun _ => id⟩

lemma trans (h : SameJobs x y) (h' : SameJobs y z) : SameJobs x z :=
  ⟨h.toSameMembers.trans h'.toSameMembers, fun q hq => h.stopped q (h'.stopped q hq)⟩

lemma hasStoppedJobs (h : SameJobs x y) (hy : y.HasStoppedJobs g) : x.HasStoppedJobs g := by
  obtain ⟨q, hq, hg, hs⟩ := hy
  exact ⟨q, h.each ▸ hq, (h.ids q).2 ▸ hg, h.stopped q hs⟩

end SameJobs

/-- The lists of groups of two stages have no group twice if each has none and they share none. -/
lemma nodup_groups_append {sent' : List ℤ} (h : (sent.filter fun g => 0 < g).Nodup)
    (h' : (sent'.filter fun g => 0 < g).Nodup) (hdis : ∀ g ∈ sent, 0 < g → g ∉ sent') :
    ((sent ++ sent').filter fun g => 0 < g).Nodup := by
  rw [List.filter_append]
  refine List.Nodup.append h h' fun g hg hg' => ?_
  obtain ⟨hg, hpos⟩ := List.mem_filter.mp hg
  exact hdis g hg (of_decide_eq_true hpos) (List.mem_filter.mp hg').1

namespace KillsGroup

/-- After both signals no member of the group is stopped, and no other group is touched. -/
lemma hangUp (hk : KillsGroup killPg) (x : JobSys) (g : ℤ) :
    (x.hangUp killPg g).sys = { x.sys with task := (x.hangUp killPg g).sys.task }
      ∧ SameJobs x (x.hangUp killPg g) ∧ (0 < g → ¬ (x.hangUp killPg g).HasStoppedJobs g)
      ∧ ∀ q, (x.sys.task q).pgrp ≠ g → (x.hangUp killPg g).sys.task q = x.sys.task q := by
  have h₁ := hk.jobs g .hup x
  have h₂ := hk.jobs g .cont (killPg g .hup x)
  refine ⟨?_, h₁.trans h₂, fun hpos => ?_, fun q hq => ?_⟩
  · rw [JobSys.hangUp, hk.same, hk.same g .hup]
  · rintro ⟨q, hq, hg, hst⟩
    exact hk.cont g _ q hpos (h₂.each ▸ hq) ((h₂.ids q).2 ▸ hg) hst
  · have hq₁ : ((killPg g .hup x).sys.task q).pgrp ≠ g := by rwa [(h₁.ids q).2]
    rw [JobSys.hangUp, hk.outside g .cont _ q hq₁, hk.outside g .hup x q hq]

end KillsGroup

/-- What a check of the group `g` does: nothing, or both signals. -/
structure Checked (x : JobSys) (cond : Prop) (g : ℤ) (y : JobSys) (sent : List ℤ) : Prop where
  same : y.sys = { x.sys with task := y.sys.task }
  jobs : SameJobs x y
  done : cond ∧ sent = [g] ∧ (0 < g → ¬ y.HasStoppedJobs g) ∨ ¬ cond ∧ sent = []
  kept : ∀ h, h ∉ sent → x.HasStoppedJobs h → y.HasStoppedJobs h

lemma KillsGroup.checked (hk : KillsGroup killPg) (x : JobSys) (cond : Prop) [Decidable cond] (g : ℤ) :
    Checked x cond g (if cond then (x.hangUp killPg g, [g]) else (x, [])).1
      (if cond then (x.hangUp killPg g, [g]) else (x, [])).2 := by
  split
  · next hc =>
      obtain ⟨hsame, hjobs, hnone, hout⟩ := hk.hangUp x g
      refine ⟨hsame, hjobs, Or.inl ⟨hc, rfl, hnone⟩, fun h hh => ?_⟩
      rintro ⟨q, hq, hg, hst⟩
      have hne : (x.sys.task q).pgrp ≠ g := by
        rw [hg]
        exact fun he => hh (List.mem_singleton.mpr he)
      refine ⟨q, hjobs.each ▸ hq, ?_, ?_⟩
      · rw [hout q hne, hg]
      · rw [hout q hne, hst]
  · next hc => exact ⟨rfl, .refl x, Or.inr ⟨hc, rfl⟩, fun _ _ hh => hh⟩

namespace Checked

variable {cond : Prop}

/-- A group that is signalled has no stopped jobs afterwards. -/
lemma quiet {g' : ℤ} (h : Checked x cond g y sent) (hg' : g' ∈ sent) (hpos : 0 < g') :
    ¬ y.HasStoppedJobs g' := by
  rcases h.done with ⟨-, he, hnone⟩ | ⟨-, he⟩
  · rw [he, List.mem_singleton] at hg'
    subst hg'
    exact hnone hpos
  · rw [he] at hg'
    exact absurd hg' List.not_mem_nil

lemma nodup (h : Checked x cond g y sent) : (sent.filter fun g => 0 < g).Nodup := by
  refine List.Nodup.filter _ ?_
  rcases h.done with ⟨-, he, -⟩ | ⟨-, he⟩
  · rw [he]
    exact List.nodup_singleton g
  · rw [he]
    exact List.nodup_nil

end Checked

/-! ### The loop -/

/-- What the loop does with the children `K` of `c`: they get their new parents, and the groups of
some of them are signalled. -/
structure Adopted (c : Addr) (K : List Addr) (x y : JobSys) (sent : List ℤ) : Prop where
  jobs : SameJobs x y
  pOpptr : y.sys.pOpptr = x.sys.pOpptr
  pPptr : ∀ q, y.sys.pPptr q = if q ∈ K then x.sys.pOpptr q else x.sys.pPptr q
  kept : ∀ g, g ∉ sent → x.HasStoppedJobs g → y.HasStoppedJobs g
  quiet : ∀ g ∈ sent, 0 < g → ¬ y.HasStoppedJobs g
  nodup : (sent.filter fun g => 0 < g).Nodup
  cause : ∀ g ∈ sent, x.HasStoppedJobs g ∧ (∃ q ∈ K, x.Checks c q g)
    ∧ ((∀ q ∈ K, ¬ x.Ties (x.sys.pOpptr q) q) → y.IsOrphanedPgrp g)
  found : ∀ g, (∃ q ∈ K, x.Checks c q g) → x.HasStoppedJobs g → y.IsOrphanedPgrp g → g ∈ sent

variable {K l order : List Addr} {kids : Addr → List Addr}

lemma Adopted.nil (c : Addr) (x : JobSys) : Adopted c [] x x [] where
  jobs := .refl x
  pOpptr := rfl
  pPptr := fun q => by simp
  kept := fun _ _ h => h
  quiet := fun g hg => absurd hg List.not_mem_nil
  nodup := List.nodup_nil
  cause := fun g hg => absurd hg List.not_mem_nil
  found := fun g ⟨q, hq, _⟩ => absurd hq List.not_mem_nil

/-- A round before the check: the child has its new parent. -/
lemma sameJobs_adoptChild (x : JobSys) (c p : Addr) :
    SameJobs x { x with sys := x.sys.adoptChild c p }
      ∧ ∀ g, x.HasStoppedJobs g → ({ x with sys := x.sys.adoptChild c p } : JobSys).HasStoppedJobs g := by
  have htask := (sameRest_adoptChild x.sys c p).task
  refine ⟨⟨⟨⟨rfl, rfl, fun q => ?_⟩, fun q => ?_⟩, fun q hq => ?_⟩, fun g => ?_⟩
  · obtain ⟨b, hb, -⟩ := htask q
    exact ⟨by rw [hb], by rw [hb]⟩
  · obtain ⟨b, hb, -⟩ := htask q
    rw [hb]
  · obtain ⟨b, hb, -⟩ := htask q
    rwa [hb] at hq
  · rintro ⟨q, hqe, hg, hst⟩
    obtain ⟨b, hb, -⟩ := htask q
    exact ⟨q, hqe, by rw [hb, hg], by rw [hb, hst]⟩

/-- **One round and the rounds after it.** -/
lemma Adopted.cons {x₁ x₂ : JobSys} {sent₁ : List ℤ} (hx₁ : x₁ = { x with sys := x.sys.adoptChild c p })
    (hp : p ∉ l) (hpar : ∀ q ∈ p :: l, x.sys.pPptr q = c)
    (hcheck : Checked x₁ (x₁.Checks c p g ∧ x₁.IsOrphanedPgrp g ∧ x₁.HasStoppedJobs g) g x₂ sent₁)
    (hg : g = (x.sys.task p).pgrp) (h : Adopted c l x₂ y sent) :
    Adopted c (p :: l) x y (sent₁ ++ sent) := by
  obtain ⟨h₁, hst₁⟩ : SameJobs x x₁ ∧ ∀ g, x.HasStoppedJobs g → x₁.HasStoppedJobs g :=
    hx₁ ▸ sameJobs_adoptChild x c p
  have h₂ : SameJobs x x₂ := h₁.trans hcheck.jobs
  have hO : x₂.sys.pOpptr = x.sys.pOpptr := by rw [hcheck.same, hx₁]; rfl
  have hP₁ : x₁.sys.pPptr = Function.update x.sys.pPptr p (x.sys.pOpptr p) := by rw [hx₁]; rfl
  have hP₂ : x₂.sys.pPptr = x₁.sys.pPptr := by rw [hcheck.same]
  have hP : ∀ q, y.sys.pPptr q = if q ∈ p :: l then x.sys.pOpptr q else x.sys.pPptr q := by
    intro q
    rw [h.pPptr, hO, hP₂, hP₁]
    by_cases hqp : q = p
    · simp [hqp, hp]
    · simp [hqp]
  -- a child that the rounds to come do not check has no tie to `c`
  have hlater : ∀ q g', (x.sys.task q).pgrp = g' → q ∈ l → ¬ x.Checks c q g' → g' ≠ (x.sys.task c).pgrp →
      ¬ x.Ties (x₁.sys.pPptr q) q := by
    rintro q g' hqg hql hno hgc ⟨-, -, hse⟩
    have hqp : q ≠ p := fun he => hp (he ▸ hql)
    rw [hP₁, Function.update_of_ne hqp, hpar q (List.mem_cons_of_mem _ hql)] at hse
    exact hno ⟨hqg, hgc, hse.symm⟩
  refine ⟨h₂.trans h.jobs, h.pOpptr.trans hO, hP, fun g' hg' hst => ?_, fun g' hg' => ?_, ?_,
    fun g' hg' => ?_, fun g' hch hst hor => ?_⟩
  · rw [List.mem_append, not_or] at hg'
    exact h.kept g' hg'.2 (hcheck.kept g' hg'.1 (hst₁ g' hst))
  · rcases List.mem_append.mp hg' with hs | hs
    · exact fun hpos hst => hcheck.quiet hs hpos (h.jobs.hasStoppedJobs hst)
    · exact h.quiet g' hs
  · refine nodup_groups_append hcheck.nodup h.nodup fun g' hs hpos hs' => ?_
    exact hcheck.quiet hs hpos (h.cause g' hs').1
  · rcases List.mem_append.mp hg' with hs | hs
    · rcases hcheck.done with ⟨⟨hch, hor, hst⟩, he, -⟩ | ⟨-, he⟩
      · rw [he, List.mem_singleton] at hs
        subst hs
        refine ⟨h₁.hasStoppedJobs hst, ⟨p, List.mem_cons_self, h₁.checks.mp hch⟩, fun hno => ?_⟩
        refine (hcheck.jobs.trans h.jobs).willBecomeOrphaned hor fun q _ _ _ _ htie => ?_
        refine ⟨Option.some_ne_none q, ?_⟩
        by_cases hql : q ∈ p :: l
        · rw [hP, if_pos hql, h₁.ties] at htie
          exact absurd htie (hno q hql)
        · have hqp : q ≠ p := fun he => hql (he ▸ List.mem_cons_self)
          rwa [hP, if_neg hql, ← Function.update_of_ne hqp (x.sys.pOpptr p) x.sys.pPptr, ← hP₁] at htie
      · rw [he] at hs
        exact absurd hs List.not_mem_nil
    · obtain ⟨hst, ⟨q, hq, hch⟩, hor⟩ := h.cause g' hs
      refine ⟨h₂.hasStoppedJobs hst, ⟨q, List.mem_cons_of_mem _ hq, h₂.checks.mp hch⟩, fun hno => ?_⟩
      refine hor fun r hr => ?_
      rw [hO, h₂.ties]
      exact hno r (List.mem_cons_of_mem _ hr)
  · rw [List.mem_append]
    by_cases hs₁ : g' ∈ sent₁
    · exact Or.inl hs₁
    by_cases hex : ∃ q ∈ l, x.Checks c q g'
    · obtain ⟨q, hq, hc⟩ := hex
      exact Or.inr (h.found g' ⟨q, hq, h₂.checks.mpr hc⟩ (hcheck.kept g' hs₁ (hst₁ g' hst)) hor)
    · -- `p` is the last child of the group that is checked: no tie is left at its check
      obtain ⟨q, hq, hc⟩ := hch
      obtain rfl : q = p := (List.mem_cons.mp hq).resolve_right fun hql => hex ⟨q, hql, hc⟩
      obtain rfl : g' = g := hc.1.symm.trans hg.symm
      have hor₁ : x₁.IsOrphanedPgrp g' := by
        refine (hcheck.jobs.trans h.jobs).toSameMembers.symm.willBecomeOrphaned hor
          fun r _ hrg _ _ htie => ⟨Option.some_ne_none r, ?_⟩
        have hback := (h₂.trans h.jobs).toSameMembers
        rw [(hback.ids r).2] at hrg
        rw [hback.ties] at htie ⊢
        have hrl : r ∉ l := fun hrl =>
          hlater r g' hrg hrl (fun hcr => hex ⟨r, hrl, hcr⟩) hc.2.1 htie
        rw [hP₁] at htie
        rw [hP]
        by_cases hrq : r = q
        · rw [if_pos (by simp [hrq])]
          rwa [hrq, Function.update_self, ← hrq] at htie
        · rw [if_neg (by simp [hrq, hrl])]
          rwa [Function.update_of_ne hrq] at htie
      rcases hcheck.done with ⟨-, he, -⟩ | ⟨hno, -⟩
      · exact Or.inl (by rw [he, List.mem_singleton])
      · exact absurd ⟨h₁.checks.mpr hc, hor₁, hst₁ g' hst⟩ hno

/-- The links in the middle of the loop do not depend on the records. -/
lemma Loop.withTask {s s' : Sys} (h : Loop c s order kids) (hs : s' = { s with task := s'.task }) :
    Loop c s' order kids := by
  rw [hs]
  exact ⟨h.ring, h.lists, h.rest, h.nodup, h.parent⟩

lemma Checked.iff {cond cond' : Prop} (h : Checked x cond g y sent) (hc : cond ↔ cond') :
    Checked x cond' g y sent := by
  rwa [propext hc] at h

/-- The check of the group of a child. -/
lemma KillsGroup.checkChild (hk : KillsGroup killPg) (x : JobSys) (c p : Addr) :
    Checked x (x.Checks c p (x.sys.task p).pgrp ∧ x.IsOrphanedPgrp (x.sys.task p).pgrp
        ∧ x.HasStoppedJobs (x.sys.task p).pgrp) (x.sys.task p).pgrp
      (x.checkChild killPg c p).1 (x.checkChild killPg c p).2 := by
  refine (hk.checked x _ _).iff ?_
  rw [JobSys.Checks, and_iff_right rfl, and_assoc]

/-- **The loop of `exit_notify`**, given enough rounds. -/
theorem adoptLoop_adopted (hk : KillsGroup killPg) {n : ℕ} (h : Loop c x.sys order kids)
    (hn : (kids c).length ≤ n) (hne : ∀ p ∈ kids c, x.sys.pOpptr p ≠ c) :
    Adopted c (kids c) x (JobSys.adoptLoop killPg c n x).1 (JobSys.adoptLoop killPg c n x).2 := by
  induction n generalizing x kids with
  | zero =>
      rw [List.length_eq_zero_iff.mp (Nat.le_zero.mp hn)]
      exact .nil c x
  | succ n ih =>
      cases hl : kids c with
      | nil =>
          have hc : x.sys.pCptr c = none := by rw [h.rest.1, hl]; rfl
          simp only [JobSys.adoptLoop, hc]
          exact .nil c x
      | cons p l =>
          have hc : x.sys.pCptr c = some p := by rw [h.rest.1, hl]; rfl
          have hp : x.sys.pOpptr p ≠ c := hne p (by simp [hl])
          have hpl : p ∉ l := (List.nodup_cons.mp (hl ▸ h.nodup c)).1
          set x₁ : JobSys := { x with sys := x.sys.adoptChild c p } with hx₁
          have hcheck := hk.checkChild x₁ c p
          have hround := (h.adoptChild hl hp).withTask hcheck.same
          have hkc : Function.update (Function.update kids c l) (x.sys.pOpptr p)
              (p :: kids (x.sys.pOpptr p)) c = l := by
            rw [Function.update_of_ne hp.symm, Function.update_self]
          have hrest := ih hround (by rw [hkc]; rw [hl] at hn; simpa using hn) fun q hq => by
            rw [hcheck.same]
            exact hne q (hl ▸ List.mem_cons_of_mem _ (hkc ▸ hq))
          rw [hkc] at hrest
          have hpg : (x₁.sys.task p).pgrp = (x.sys.task p).pgrp :=
            ((sameJobs_adoptChild x c p).1.ids p).2
          simp only [JobSys.adoptLoop, hc]
          refine hrest.cons hx₁ hpl (fun q hq => h.parent c q (hl ▸ hq)) hcheck hpg

/-! ### The exit -/

/-- The exit of `c` may cut the last tie of the group to the outside: the tie of `c` to its parent, or
that of a child to `c`. -/
def JobSys.Cuts (x : JobSys) (c : Addr) (g : ℤ) : Prop :=
  ((x.sys.task c).pgrp = g ∧ (x.sys.task (x.sys.pPptr c)).pgrp ≠ g
      ∧ x.session (x.sys.pPptr c) = x.session c)
    ∨ ∃ q, x.sys.Listed q ∧ x.sys.pPptr q = c ∧ x.Checks c q g

/-- A group without `c` is one in which `c` has died. -/
lemma willBecomeOrphanedPgrp_zombie {f : Task → Task} (hpid : ∀ t, (f t).pid = t.pid) (hpg : ∀ t, (f t).pgrp = t.pgrp)
    (hz : ∀ t, (f t).state = .zombie) :
    ({ x with sys := x.sys.modTask c f } : JobSys).IsOrphanedPgrp g
      ↔ x.WillBecomeOrphanedPgrp g (some c) := by
  have hids : ∀ q, ((x.sys.modTask c f).task q).pid = (x.sys.task q).pid
      ∧ ((x.sys.modTask c f).task q).pgrp = (x.sys.task q).pgrp := fun q => by
    by_cases hq : q = c
    · rw [hq, Sys.modTask_task_self]
      exact ⟨hpid _, hpg _⟩
    · rw [Sys.modTask_task_of_ne _ _ _ hq]
      exact ⟨rfl, rfl⟩
  rw [JobSys.IsOrphanedPgrp, willBecomeOrphanedPgrp_iff, willBecomeOrphanedPgrp_iff]
  refine forall₂_congr fun q _ => ?_
  simp only [JobSys.Ties, (hids _).1, (hids _).2]
  refine imp_congr_right fun _ => ?_
  by_cases hq : q = c
  · simp [hq, hz]
  · simp [hq, Sys.modTask]

/-- The stages of `exit_notify` by `c`: `xf` after `forget_original_parent`, `xo` after the check of
its own group, `xz` when it is a zombie, `y` after the loop over its children `K`. -/
structure Stages (x : JobSys) (c : Addr) (K : List Addr) (xf xo xz y : JobSys)
    (sent sent' : List ℤ) : Prop where
  forgotten : SameJobs x xf
  stopped : ∀ g, x.HasStoppedJobs g → xf.HasStoppedJobs g
  forgottenPptr : xf.sys.pPptr = x.sys.pPptr
  forgottenOpptr : ∀ q ∈ K, xf.sys.pOpptr q = Sys.newParent (x.sys.reaperOf c) q
  own : Checked xf ((x.sys.task (x.sys.pPptr c)).pgrp ≠ (x.sys.task c).pgrp
      ∧ x.session (x.sys.pPptr c) = x.session c
      ∧ xf.WillBecomeOrphanedPgrp (x.sys.task c).pgrp (some c)
      ∧ xf.HasStoppedJobs (x.sys.task c).pgrp) (x.sys.task c).pgrp xo sent
  dead : ∀ g, (xz.IsOrphanedPgrp g ↔ xo.WillBecomeOrphanedPgrp g (some c))
    ∧ (xz.HasStoppedJobs g ↔ xo.HasStoppedJobs g)
  deadIds : SameIds x xz
  deadZombie : ∀ q, q ≠ c → ((xz.sys.task q).state = .zombie ↔ (x.sys.task q).state = .zombie)
  deadPptr : xz.sys.pPptr = x.sys.pPptr
  deadOpptr : xz.sys.pOpptr = xf.sys.pOpptr
  loop : Adopted c K xz y sent'
  mem : ∀ q, q ∈ K ↔ x.sys.Listed q ∧ x.sys.pPptr q = c

lemma exitNotify_stages (hk : KillsGroup killPg) (h : Wf x.sys) (hi : HasInit x.sys)
    (hc : x.sys.Listed c) (hx : (x.sys.task c).exiting = true)
    (hst : (x.sys.task c).state ≠ .stopped) :
    ∃ K xf xo xz y sent sent', Stages x c K xf xo xz y sent sent'
      ∧ x.exitNotify killPg c = ({ y with sys := y.sys.goto c .gone }, sent ++ sent') := by
  set xf : JobSys := { x with sys := x.sys.forgetOriginalParent c } with hxf
  have htask : ∀ q, (xf.sys.task q).pid = (x.sys.task q).pid
      ∧ (xf.sys.task q).pgrp = (x.sys.task q).pgrp ∧ (xf.sys.task q).state = (x.sys.task q).state := by
    intro q
    simp only [hxf, Sys.forgetOriginalParent]
    split_ifs <;> exact ⟨rfl, rfl, rfl⟩
  have hforgot : SameJobs x xf :=
    ⟨⟨⟨rfl, rfl, fun q => ⟨(htask q).1, (htask q).2.1⟩⟩, fun q => by rw [(htask q).2.2]⟩,
      fun q hq => (htask q).2.2 ▸ hq⟩
  have hstopped : ∀ g, x.HasStoppedJobs g → xf.HasStoppedJobs g := by
    rintro g ⟨q, hq, hg, hs⟩
    exact ⟨q, hq, (htask q).2.1.trans hg, (htask q).2.2.trans hs⟩
  have hown : Checked xf _ (xf.sys.task c).pgrp (xf.checkOwn killPg c).1 (xf.checkOwn killPg c).2 :=
    hk.checked xf _ _
  rw [(htask c).2.1, (htask (xf.sys.pPptr c)).2.1] at hown
  set xo := (xf.checkOwn killPg c).1 with hxo
  have hxxo : SameJobs x xo := hforgot.trans hown.jobs
  set f : Task → Task := fun t =>
    { t with exitSignal := Sys.exitSignalOf t (xo.sys.task (xf.sys.pPptr c)), state := .zombie } with hf
  set xz : JobSys := { xo with sys := xo.sys.modTask c f } with hxz
  have hids : SameIds x xz := by
    refine ⟨hxxo.each, hxxo.session, fun q => ?_⟩
    have hq := hxxo.ids q
    by_cases hqc : q = c
    · rw [hqc] at hq ⊢
      simpa only [hxz, Sys.modTask_task_self] using hq
    · simpa only [hxz, Sys.modTask_task_of_ne _ _ _ hqc] using hq
  -- the children of `c`
  obtain ⟨order, kids, hsh, hord, hcover⟩ := h.lists
  have hmem : ∀ q, q ∈ kids c ↔ x.sys.Listed q ∧ x.sys.pPptr q = c := by
    intro q
    constructor
    · exact fun hq => ⟨(hcover q).mp ⟨c, hq⟩, hsh.parent c q hq⟩
    · rintro ⟨hq, hqc⟩
      obtain ⟨a, ha⟩ := (hcover q).mpr hq
      exact hqc ▸ hsh.parent a q ha ▸ ha
  have hloop : Loop c xf.sys order kids :=
    ⟨hsh.ring, fun a _ => hsh.lists a, ⟨(hsh.lists c).1, none, (hsh.lists c).2⟩, hsh.nodup, hsh.parent⟩
  have hloopz : Loop c xz.sys order kids := (hloop.withTask hown.same).withTask rfl
  have hop : xz.sys.pOpptr = xf.sys.pOpptr :=
    (congrArg Sys.pOpptr hown.same :)
  have hnew : ∀ q ∈ kids c, xf.sys.pOpptr q = Sys.newParent (x.sys.reaperOf c) q := by
    intro q hq
    obtain ⟨hlq, hpq⟩ := (hmem q).mp hq
    have horphan : x.sys.IsOrphan c q :=
      h.isOrphan_iff.mpr ⟨hlq, (h.untraced q (Or.inr hlq)).1.trans hpq⟩
    exact if_pos horphan
  have hlen : (kids c).length ≤ xz.sys.fresh := by
    have hfresh : xz.sys.fresh = x.sys.fresh := (congrArg Sys.fresh hown.same :)
    rw [hfresh]
    exact h.length_le (hsh.nodup c) fun q hq => ((hmem q).mp hq).1
  have hadopt := adoptLoop_adopted hk hloopz hlen fun q hq => by
    rw [hop, hnew q hq]
    exact (h.newParent_alive hi hc hx q).2
  refine ⟨kids c, xf, xo, xz, _, _, _, ⟨hforgot, hstopped, rfl, hnew, hown, fun g => ⟨?_, ?_⟩,
    hids, fun q hqc => ?_, ?_, hop, hadopt, hmem⟩, rfl⟩
  · exact willBecomeOrphanedPgrp_zombie (fun _ => rfl) (fun _ => rfl) fun _ => rfl
  · -- `c` itself is not stopped, neither before nor after
    have hco : (xo.sys.task c).state ≠ .stopped := fun hs => hst (hxxo.stopped c hs)
    refine exists_congr fun q => and_congr_right fun _ => ?_
    by_cases hqc : q = c
    · rw [hqc, hxz, Sys.modTask_task_self]
      exact iff_of_false (by simp [hf]) fun hs => hco hs.2
    · rw [hxz, Sys.modTask_task_of_ne _ _ _ hqc]
  · rw [hxz, Sys.modTask_task_of_ne _ _ _ hqc, hxxo.zombie]
  · exact (congrArg Sys.pPptr hown.same :)

namespace Stages

variable {xf xo xz : JobSys} {sent' : List ℤ}

lemma pPptr (st : Stages x c K xf xo xz y sent sent') (q : Addr) :
    y.sys.pPptr q = if q ∈ K then Sys.newParent (x.sys.reaperOf c) q else x.sys.pPptr q := by
  rw [st.loop.pPptr, st.deadOpptr, st.deadPptr]
  split
  · next hq => exact st.forgottenOpptr q hq
  · rfl

lemma xo_pPptr (st : Stages x c K xf xo xz y sent sent') : xo.sys.pPptr = x.sys.pPptr :=
  (congrArg Sys.pPptr st.own.same :).trans st.forgottenPptr

/-- A group with stopped jobs that its first check has not signalled still has them. -/
lemma stopped_loop (st : Stages x c K xf xo xz y sent sent') (hs : x.HasStoppedJobs g)
    (hg : g ∉ sent) : xz.HasStoppedJobs g :=
  (st.dead g).2.mpr (st.own.kept g hg (st.stopped g hs))

/-- The group of `c`, if it is orphaned in the end, is so without `c` before the loop. -/
lemma orphaned_own (st : Stages x c K xf xo xz y sent sent')
    (ho : y.IsOrphanedPgrp (x.sys.task c).pgrp) :
    xf.WillBecomeOrphanedPgrp (x.sys.task c).pgrp (some c) := by
  have hxz : xz.IsOrphanedPgrp (x.sys.task c).pgrp := by
    refine st.loop.jobs.toSameMembers.symm.willBecomeOrphaned ho fun q _ hqg _ _ htie =>
      ⟨Option.some_ne_none q, ?_⟩
    rw [(st.loop.jobs.ids q).2, (st.deadIds.ids q).2] at hqg
    rw [st.loop.jobs.ties, st.deadIds.ties, st.deadPptr] at htie
    have hqK : q ∉ K := by
      intro hqK
      rw [((st.mem q).mp hqK).2] at htie
      exact htie.2.1 hqg.symm
    rw [st.pPptr, if_neg hqK, st.loop.jobs.ties, st.deadIds.ties]
    exact htie
  refine st.own.jobs.toSameMembers.symm.willBecomeOrphaned ((st.dead _).1.mp hxz)
    fun q _ _ hqi _ htie => ⟨hqi, ?_⟩
  rwa [st.xo_pPptr, ← st.forgottenPptr]

/-- **A group that is orphaned in the end and may have been cut off** is signalled. -/
lemma found (st : Stages x c K xf xo xz y sent sent') (hs : x.HasStoppedJobs g)
    (hcut : x.Cuts c g) (ho : y.IsOrphanedPgrp g) : g ∈ sent ++ sent' := by
  rw [List.mem_append]
  by_cases hg : g ∈ sent
  · exact Or.inl hg
  rcases hcut with ⟨rfl, hpg, hse⟩ | ⟨q, hq, hqc, hch⟩
  · rcases st.own.done with ⟨-, he, -⟩ | ⟨hno, -⟩
    · exact Or.inl (by rw [he, List.mem_singleton])
    · exact absurd ⟨hpg, hse, st.orphaned_own ho, st.stopped _ hs⟩ hno
  · exact Or.inr (st.loop.found g ⟨q, (st.mem q).mpr ⟨hq, hqc⟩, st.deadIds.checks.mpr hch⟩
      (st.stopped_loop hs hg) ho)

/-- **A group that the exit orphans** is one that it may have cut off. -/
lemma cuts (st : Stages x c K xf xo xz y sent sent') (h : Links x.sys)
    (hno : ¬ x.IsOrphanedPgrp g) (ho : y.IsOrphanedPgrp g) : x.Cuts c g := by
  by_contra hcut
  refine hno (willBecomeOrphanedPgrp_iff.mpr fun q hq hqg _ hz htie => hcut ?_)
  by_cases hqc : q = c
  · subst hqc
    exact Or.inl ⟨hqg, hqg ▸ htie.2.1, htie.2.2⟩
  by_cases hqp : x.sys.pPptr q = c
  · rw [hqp] at htie
    exact Or.inr ⟨q, h.mem_eachTask.mp hq, hqp, hqg, hqg ▸ htie.2.1.symm, htie.2.2.symm⟩
  · -- a tie that the exit does not touch
    have hids := st.deadIds.trans st.loop.jobs.toSameIds
    have hzy : (y.sys.task q).state ≠ .zombie := by
      rwa [Ne, st.loop.jobs.zombie, st.deadZombie q hqc]
    have hqK : q ∉ K := fun hqK => hqp ((st.mem q).mp hqK).2
    refine absurd ?_ (willBecomeOrphanedPgrp_iff.mp ho q (hids.each ▸ hq)
      ((hids.ids q).2.trans hqg) (Option.some_ne_none q) hzy)
    rwa [st.pPptr, if_neg hqK, hids.ties]

/-- A group that is signalled may have been cut off, and has stopped jobs. -/
lemma only (st : Stages x c K xf xo xz y sent sent') (hg : g ∈ sent ++ sent') :
    x.HasStoppedJobs g ∧ x.Cuts c g := by
  rcases List.mem_append.mp hg with hs | hs
  · rcases st.own.done with ⟨⟨hpg, hse, -, hst⟩, he, -⟩ | ⟨-, he⟩
    · rw [he, List.mem_singleton] at hs
      subst hs
      exact ⟨st.forgotten.hasStoppedJobs hst, Or.inl ⟨rfl, hpg, hse⟩⟩
    · rw [he] at hs
      exact absurd hs List.not_mem_nil
  · obtain ⟨hst, ⟨q, hq, hch⟩, -⟩ := st.loop.cause g hs
    obtain ⟨hlq, hqc⟩ := (st.mem q).mp hq
    refine ⟨(st.forgotten.trans st.own.jobs).hasStoppedJobs ((st.dead g).2.mp hst),
      Or.inr ⟨q, hlq, hqc, st.deadIds.checks.mp hch⟩⟩

/-- If the children go to `init`, a group that is signalled is orphaned in the end. -/
lemma orphaned (st : Stages x c K xf xo xz y sent sent') (hi : HasInit x.sys)
    (hr : x.sys.reaperOf c = childReaper) (hg : g ∈ sent ++ sent') : y.IsOrphanedPgrp g := by
  have hnew : ∀ q, Sys.newParent (x.sys.reaperOf c) q = childReaper := fun q => by
    rw [Sys.newParent, hr]
    split <;> rfl
  have hinit : ∀ q, ¬ x.Ties childReaper q := fun q htie => htie.1 hi.pid
  rcases List.mem_append.mp hg with hs | hs
  · rcases st.own.done with ⟨⟨-, -, hor, -⟩, he, -⟩ | ⟨-, he⟩
    · rw [he, List.mem_singleton] at hs
      subst hs
      have hxo : xo.WillBecomeOrphanedPgrp (x.sys.task c).pgrp (some c) := by
        refine st.own.jobs.willBecomeOrphaned hor fun q _ _ hqi _ htie => ⟨hqi, ?_⟩
        rwa [st.forgottenPptr, ← st.xo_pPptr]
      refine st.loop.jobs.willBecomeOrphaned ((st.dead _).1.mpr hxo) fun q _ _ _ _ htie =>
        ⟨Option.some_ne_none q, ?_⟩
      rw [st.deadIds.ties, st.pPptr] at htie
      rw [st.deadIds.ties, st.deadPptr]
      split at htie
      · rw [hnew] at htie
        exact absurd htie (hinit q)
      · exact htie
    · rw [he] at hs
      exact absurd hs List.not_mem_nil
  · refine (st.loop.cause g hs).2.2 fun q hq => ?_
    rw [st.deadIds.ties, st.deadOpptr, st.forgottenOpptr q hq, hnew]
    exact hinit q

/-- No group above 0 is signalled twice: its stopped jobs were continued. -/
lemma nodup (st : Stages x c K xf xo xz y sent sent') :
    ((sent ++ sent').filter fun g => 0 < g).Nodup := by
  refine nodup_groups_append st.own.nodup st.loop.nodup fun g hs hpos hs' => ?_
  exact st.own.quiet hs hpos ((st.dead g).2.mp (st.loop.cause g hs').1)

end Stages

/-- The groups `sent` for which the exit of `c`, which leads from `x` to `y`, calls `kill_pg` are the
right ones; `reaper` is the task its children go to. -/
structure HangsUp (x : JobSys) (c reaper : Addr) (y : JobSys) (sent : List ℤ) : Prop where
  orphaned : ∀ g, x.HasStoppedJobs g → ¬ x.IsOrphanedPgrp g → y.IsOrphanedPgrp g → g ∈ sent
  cut : ∀ g ∈ sent, x.HasStoppedJobs g ∧ x.Cuts c g
  iff : reaper = childReaper →
    ∀ g, g ∈ sent ↔ x.HasStoppedJobs g ∧ x.Cuts c g ∧ y.IsOrphanedPgrp g
  nodup : (sent.filter fun g => 0 < g).Nodup

/-- **`exit_notify`** signals the right groups. -/
lemma exitNotify_hangsUp (hk : KillsGroup killPg) (h : Wf x.sys) (hi : HasInit x.sys)
    (hc : x.sys.Listed c) (hx : (x.sys.task c).exiting = true)
    (hst : (x.sys.task c).state ≠ .stopped) :
    HangsUp x c (x.sys.reaperOf c) (x.exitNotify killPg c).1 (x.exitNotify killPg c).2 := by
  obtain ⟨K, xf, xo, xz, y, sent, sent', st, he⟩ := exitNotify_stages hk h hi hc hx hst
  rw [he]
  refine ⟨fun g hs hno ho => ?_, fun g hg => st.only hg, fun hr g => ⟨fun hg => ?_, ?_⟩, st.nodup⟩
  · exact st.found hs (st.cuts h.toLinks hno ho) ho
  · exact ⟨(st.only hg).1, (st.only hg).2, st.orphaned hi hr hg⟩
  · rintro ⟨hs, hcut, ho⟩
    exact st.found hs hcut ho

/-- The start of `do_exit` changes no group. -/
lemma HangsUp.exitBegin {reaper : Addr} {code : ℤ}
    (h : HangsUp { x with sys := x.sys.exitBegin c code } c reaper y sent) :
    HangsUp x c reaper y sent := by
  set x₀ : JobSys := { x with sys := x.sys.exitBegin c code }
  have htask : ∀ q, (x₀.sys.task q).pid = (x.sys.task q).pid
      ∧ (x₀.sys.task q).pgrp = (x.sys.task q).pgrp ∧ (x₀.sys.task q).state = (x.sys.task q).state := by
    intro q
    by_cases hq : q = c
    · rw [hq]
      simp [x₀, Sys.exitBegin, Sys.goto]
    · simp [x₀, Sys.exitBegin, Sys.goto, Sys.modTask_task_of_ne _ _ _ hq]
  have hst : ∀ g, x₀.HasStoppedJobs g ↔ x.HasStoppedJobs g := fun g =>
    exists_congr fun q => and_congr_right fun _ => by rw [(htask q).2.1, (htask q).2.2]
  have hor : ∀ g, x₀.IsOrphanedPgrp g ↔ x.IsOrphanedPgrp g := fun g =>
    forall₂_congr fun q _ => by
      rw [(htask q).2.1, (htask q).2.2, (htask (x₀.sys.pPptr q)).1, (htask (x₀.sys.pPptr q)).2.1]
      rfl
  have hcut : ∀ g, x₀.Cuts c g ↔ x.Cuts c g := fun g => by
    simp only [JobSys.Cuts, JobSys.Checks, (htask _).2.1]
    rfl
  refine ⟨fun g hs hno ho => ?_, fun g hg => ?_, fun hr g => ?_, h.nodup⟩
  · exact h.orphaned g ((hst g).mpr hs) (fun hx => hno ((hor g).mp hx)) ho
  · exact ⟨(hst g).mp (h.cut g hg).1, (hcut g).mp (h.cut g hg).2⟩
  · rw [h.iff hr g, hst, hcut]

/-- The same links: only the records differ. -/
def SameLinks (s s' : Sys) : Prop := s' = { s with task := s'.task }

lemma SameLinks.trans {s s' s'' : Sys} (h : SameLinks s s') (h' : SameLinks s' s'') :
    SameLinks s s'' := by
  rw [SameLinks] at h h' ⊢
  rw [h', h]

lemma SameLinks.adoptChild {s s' : Sys} (h : SameLinks s s') (c p : Addr) :
    SameLinks (s.adoptChild c p) (s'.adoptChild c p) := by
  rw [SameLinks] at h
  generalize s'.task = t at h
  subst h
  rfl

/-- The loop moves the children as the loop without the checks does. -/
lemma adoptLoop_links (hk : KillsGroup killPg) (c : Addr) (n : ℕ) {s : Sys} (h : SameLinks s x.sys) :
    SameLinks (Sys.adoptChildren c n s) (JobSys.adoptLoop killPg c n x).1.sys := by
  induction n generalizing x s with
  | zero => exact h
  | succ n ih =>
      have hc : x.sys.pCptr c = s.pCptr c := by rw [h]
      simp only [Sys.adoptChildren, JobSys.adoptLoop, hc]
      cases s.pCptr c with
      | none => exact h
      | some p =>
          have hcheck := hk.checkChild { x with sys := x.sys.adoptChild c p } c p
          exact ih ((h.adoptChild c p).trans hcheck.same)

/-- **The links after the exit** are those of the exit without the checks. -/
lemma exitNotify_links (hk : KillsGroup killPg) (x : JobSys) (c : Addr) :
    SameLinks (x.sys.exitNotify c) (x.exitNotify killPg c).1.sys := by
  set xf : JobSys := { x with sys := x.sys.forgetOriginalParent c } with hxf
  have hown : Checked xf _ _ (xf.checkOwn killPg c).1 (xf.checkOwn killPg c).2 := hk.checked xf _ _
  set xo := (xf.checkOwn killPg c).1 with hxo
  set f : Task → Task := fun t =>
    { t with exitSignal := Sys.exitSignalOf t (xf.sys.task (xf.sys.pPptr c)), state := .zombie }
  set f' : Task → Task := fun t =>
    { t with exitSignal := Sys.exitSignalOf t (xo.sys.task (xf.sys.pPptr c)), state := .zombie }
  have hz : SameLinks (xf.sys.modTask c f) (xo.sys.modTask c f') := by
    have hsame : SameLinks xf.sys xo.sys := hown.same
    rw [SameLinks, Sys.modTask, hsame]
    rfl
  have hfresh : xo.sys.fresh = xf.sys.fresh := (congrArg Sys.fresh hown.same :)
  have hloop := adoptLoop_links (x := { xo with sys := xo.sys.modTask c f' }) hk c xf.sys.fresh hz
  have heq : (x.exitNotify killPg c).1.sys = (JobSys.adoptLoop killPg c xf.sys.fresh
      { xo with sys := xo.sys.modTask c f' }).1.sys.goto c .gone := by
    rw [← hfresh]
    rfl
  rw [heq, SameLinks]
  rw [SameLinks] at hloop
  generalize (JobSys.adoptLoop killPg c xf.sys.fresh { xo with sys := xo.sys.modTask c f' }).1.sys
    = s at hloop
  rw [hloop]
  rfl

/-! ### Runs -/

/-- `kill_pg`, as far as the records go: the members of a group above 0 have a signal pending, and
`SIGCONT` continues those that are stopped. -/
def markPg (g : ℤ) (σ : Signal) (x : JobSys) : JobSys :=
  { x with
    sys := { x.sys with
      task := fun q =>
        let t := x.sys.task q
        if 0 < g ∧ q ∈ x.sys.eachTask ∧ t.pgrp = g ∧ t.state ≠ .zombie then
          if σ = .cont ∧ t.state = .stopped
          then { t with sigpending := true, state := .running, exitCode := 0 }
          else { t with sigpending := true }
        else t } }

lemma markPg_jobs (g : ℤ) (σ : Signal) (x : JobSys) : SameJobs x (markPg g σ x) := by
  refine ⟨⟨⟨rfl, rfl, fun q => ?_⟩, fun q => ?_⟩, fun q => ?_⟩
  · simp only [markPg]
    split_ifs <;> exact ⟨rfl, rfl⟩
  · simp only [markPg]
    split_ifs with hq hs
    · exact iff_of_false (by simp) (by simp [hs.2])
    · exact Iff.rfl
    · exact Iff.rfl
  · simp only [markPg]
    split_ifs with hq hs
    · exact fun he => he.elim
    · exact id
    · exact id

lemma markPg_kills : KillsGroup markPg where
  same := fun _ _ _ => rfl
  jobs := markPg_jobs
  outside := fun g σ x q hq => if_neg fun h => hq h.2.2.1
  cont := fun g x q hpos hq hg hst => by
    have hold := (markPg_jobs g .cont x).stopped q hst
    simp [markPg, hpos, hq, hg, hold] at hst

/-- A shell: `init` forks 2, which starts a session and forks 3; 3 enters a group of its own and is
stopped. -/
def shellRun : List JobOp :=
  [.fork 1 .plain, .setsid 2, .fork 2 .plain, .setpgid 3 3, .stop 3 19]

lemma shellRun_runs : ∃ x, run JobSys.exec shellRun JobSys.booted = some x ∧ x.sys.InUser 2
    ∧ (x.sys.task 2).pid ≠ 1 := by
  have h : (run JobSys.exec shellRun JobSys.booted).map
      (fun x => decide (x.sys.InUser 2 ∧ (x.sys.task 2).pid ≠ 1)) = some true := by decide +kernel
  obtain ⟨x, hx, hc⟩ := Option.map_eq_some_iff.mp h
  exact ⟨x, hx, of_decide_eq_true hc⟩

lemma shellRun_left : Along JobSys.exec JobSys.PidsLeft shellRun JobSys.booted := by
  have hfew : Along JobSys.exec
      (fun x _ => 4 * x.sys.eachTask.length + 1 < (pidMax - pidLow).toNat) shellRun
      JobSys.booted := by decide +kernel
  exact hfew.mono fun x o h => pidsLeft_of_few h o

/-- When the shell exits, the group it has stopped is sent the signals. -/
example : ((run JobSys.exec shellRun JobSys.booted).map fun x => (x.exitCall markPg 2 0).2)
    = some [3] := by decide +kernel

/-- **Orphaned process groups get `SIGHUP` and `SIGCONT`**: in every state reached while there was a pid
left for every fork, a process that exits signals every group with stopped jobs that its exit orphans,
no group above 0 twice, and no group that it had no tie to; if its children go to `init`, it signals exactly
those of them that are orphaned in the end and have stopped jobs. -/
theorem hungUp_of_run (hk : KillsGroup killPg) {ops : List JobOp}
    (h : run JobSys.exec ops JobSys.booted = some x)
    (hleft : Along JobSys.exec JobSys.PidsLeft ops JobSys.booted) (hc : x.sys.InUser c)
    (hpid : (x.sys.task c).pid ≠ 1) (code : ℤ) :
    SameLinks ((x.sys.exitBegin c code).exitNotify c) (x.exitCall killPg c code).1.sys
      ∧ HangsUp x c ((x.sys.exitBegin c code).reaperOf c) (x.exitCall killPg c code).1
        (x.exitCall killPg c code).2 := by
  have hinv := jobInv_of_run h hleft
  refine ⟨exitNotify_links hk _ c, .exitBegin (exitNotify_hangsUp hk ?_ ?_ hc.1 ?_ ?_)⟩
  · exact hinv.tree.exitBegin hc.1 hc.active.stays code
  · exact hinv.init.exitBegin hpid code
  · exact exitBegin_exiting x.sys c code
  · simp [Sys.exitBegin, Sys.goto, hc.2.2]

theorem hungUp_shellRun : ∃ x, run JobSys.exec shellRun JobSys.booted = some x
    ∧ SameLinks ((x.sys.exitBegin 2 0).exitNotify 2) (x.exitCall markPg 2 0).1.sys
    ∧ HangsUp x 2 ((x.sys.exitBegin 2 0).reaperOf 2) (x.exitCall markPg 2 0).1
      (x.exitCall markPg 2 0).2 := by
  obtain ⟨x, hx, hc, hpid⟩ := shellRun_runs
  exact ⟨x, hx, hungUp_of_run markPg_kills hx shellRun_left hc hpid 0⟩

end

end Os234123.Family
