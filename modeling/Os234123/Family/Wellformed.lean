import Os234123.Family.Forest
import Os234123.Family.Machine

/-!
The family links stay well formed.

* `Links`: the links, the hash table and the thread groups agree with one another, and no parent is
  gone;
* `Links.forkChild`, `Links.relink`, `Links.exitNotify`, `Links.releaseTask`: the four operations that
  change the links keep it;
* `Wf`: the same where nobody is traced;
* `HasInit`: `init` is there, and does not exit.
-/

namespace Os234123.Family

open Linked Machine

/-! ### The invariant -/

namespace Sys

variable (s : Sys) (p : Addr)

/-- A task that has not been released: `init_task`, or one that is hashed. -/
def Unreleased : Prop := p = initTask ∨ s.Listed p

/-- A task that can be a parent: it has not completed `exit_notify`. -/
def Alive : Prop := s.Unreleased p ∧ s.place p ≠ .gone

end Sys

/-- The links, the hash table and the thread groups agree with one another, and no parent is gone. -/
structure Links (s : Sys) : Prop where
  lists : Enlists s s.Listed
  nodup : s.pidhash.Nodup
  fresh : ∀ p, s.Unreleased p → p < s.fresh
  root : s.pPptr initTask = initTask ∧ s.pOpptr initTask = initTask
  parents : ∀ p, s.Unreleased p → s.Alive (s.pPptr p) ∧ s.Alive (s.pOpptr p)
  gone : ∀ p, s.Unreleased p → (s.place p = .gone ↔ (s.task p).state = .zombie)
  exiting : ∀ p, s.Unreleased p →
    ((s.task p).exiting = true ↔ s.place p = .exiting ∨ s.place p = .gone)
  asleep : ∀ p, s.place p = .user ∨ s.place p = .gone ∨ s.Listed p
  threads : Circuits s.Listed s.threadNext s.threadPrev
  pids : ∀ p, s.Listed p → 0 < (s.task p).pid
  inj : ∀ p q, s.Listed p → s.Listed q → (s.task p).pid = (s.task q).pid → p = q

/-- The links are in order, and nobody is traced. -/
structure Wf (s : Sys) : Prop extends Links s where
  untraced : ∀ p, s.Unreleased p → s.pOpptr p = s.pPptr p ∧ (s.task p).ptraced = false

/-- `init` is there, and does not exit. -/
structure HasInit (s : Sys) : Prop where
  listed : s.Listed childReaper
  stays : (s.task childReaper).exiting = false
  pid : (s.task childReaper).pid = 1

/-- A place that is not on the way through `do_exit`. -/
def Stays (x : Place) : Prop := x ≠ .exiting ∧ x ≠ .gone

/-- Only records and places differ, and nobody changes its pid, forks, exits or dies. -/
structure Quiet (s s' : Sys) : Prop where
  same : s' = { s with task := s'.task, place := s'.place }
  task : ∀ q, (s'.task q).pid = (s.task q).pid ∧ (s'.task q).exiting = (s.task q).exiting
    ∧ (s'.task q).ptraced = (s.task q).ptraced
    ∧ ((s'.task q).firstTimeSlice = true → (s.task q).firstTimeSlice = true)
    ∧ ((s'.task q).state = .zombie ↔ (s.task q).state = .zombie)
  place : ∀ q, s'.place q = s.place q ∨ s.Listed q ∧ Stays (s.place q) ∧ Stays (s'.place q)

section

variable {s s' : Sys} {p q c : Addr}

namespace Quiet

lemma refl (s : Sys) : Quiet s s :=
  ⟨rfl, fun _ => ⟨rfl, rfl, rfl, id, Iff.rfl⟩, fun _ => Or.inl rfl⟩

lemma listed (h : Quiet s s') (q : Addr) : s'.Listed q ↔ s.Listed q := by
  rw [h.same]
  rfl

lemma trans {s'' : Sys} (h : Quiet s s') (h' : Quiet s' s'') : Quiet s s'' := by
  refine ⟨h'.same.trans ?_, fun q => ?_, fun q => ?_⟩
  · rw [h.same]
  · obtain ⟨h1, h2, h3, h4, h5⟩ := h.task q
    obtain ⟨h1', h2', h3', h4', h5'⟩ := h'.task q
    exact ⟨h1'.trans h1, h2'.trans h2, h3'.trans h3, h4 ∘ h4', h5'.trans h5⟩
  · rcases h.place q with he | ⟨hl, hs, hs'⟩ <;> rcases h'.place q with he' | ⟨hl', ht, ht'⟩
    · exact Or.inl (he'.trans he)
    · exact Or.inr ⟨(h.listed q).mp hl', he ▸ ht, ht'⟩
    · exact Or.inr ⟨hl, hs, he' ▸ hs'⟩
    · exact Or.inr ⟨hl, hs, ht'⟩

/-- A change to the record of a task. -/
lemma modTask {f : Task → Task} (hpid : (f (s.task p)).pid = (s.task p).pid)
    (hex : (f (s.task p)).exiting = (s.task p).exiting)
    (htr : (f (s.task p)).ptraced = (s.task p).ptraced)
    (hfts : (f (s.task p)).firstTimeSlice = true → (s.task p).firstTimeSlice = true)
    (hst : (f (s.task p)).state = .zombie ↔ (s.task p).state = .zombie) :
    Quiet s (s.modTask p f) := by
  refine ⟨rfl, fun q => ?_, fun _ => Or.inl rfl⟩
  by_cases hq : q = p
  · rw [hq, Sys.modTask_task_self]
    exact ⟨hpid, hex, htr, hfts, hst⟩
  · rw [Sys.modTask_task_of_ne _ _ _ hq]
    exact ⟨rfl, rfl, rfl, id, Iff.rfl⟩

/-- A process that does not exit goes to another place. -/
lemma goto {x : Place} (hl : s.Listed p) (hp : Stays (s.place p)) (hx : Stays x) :
    Quiet s (s.goto p x) := by
  refine ⟨rfl, fun _ => ⟨rfl, rfl, rfl, id, Iff.rfl⟩, fun q => ?_⟩
  by_cases hq : q = p
  · rw [hq, Sys.goto_place_self]
    exact Or.inr ⟨hl, hp, hx⟩
  · exact Or.inl (Sys.goto_place_of_ne _ _ _ hq)

end Quiet

/-! ### The fields without links -/

/-- What the fork of `p = s.fresh` by `c` does to the fields without links. -/
lemma forkChild_fields (s : Sys) (c : Addr) (flags : CloneFlags) (pid : ℤ) :
    (s.forkChild c flags pid).task
        = Function.update s.task s.fresh (Sys.childOf (s.task c) flags pid)
      ∧ (s.forkChild c flags pid).place = Function.update s.place s.fresh .user
      ∧ (s.forkChild c flags pid).pidhash = s.fresh :: s.pidhash
      ∧ (s.forkChild c flags pid).fresh = s.fresh + 1
      ∧ (s.forkChild c flags pid).log = .forked c s.fresh :: s.log
      ∧ (s.forkChild c flags pid).pOpptr = Function.update s.pOpptr s.fresh
        (if flags.cloneParent then s.pOpptr c else c)
      ∧ (s.forkChild c flags pid).pPptr = Function.update s.pPptr s.fresh
        (if flags.cloneParent ∨ (Sys.childOf (s.task c) flags pid).ptraced then s.pPptr c else c) := by
  simp only [Sys.forkChild, Sys.linkChild]
  split <;> simp [Sys.setLinks, Sys.hashPid, Sys.goto, Sys.record, Sys.addThread, Sys.initThread]

lemma exitBegin_exiting (s : Sys) (c : Addr) (code : ℤ) :
    ((s.exitBegin c code).task c).exiting = true := by
  simp [Sys.exitBegin, Sys.goto, Sys.modTask]

/-- What attaching does. -/
lemma relink_fields (s : Sys) (c t : Addr) : (s.relink c t).task = s.task
    ∧ (s.relink c t).pPptr = Function.update s.pPptr t c
    ∧ (s.relink c t).pOpptr = Function.update s.pOpptr t c
    ∧ (s.relink c t).threadNext = s.threadNext ∧ (s.relink c t).threadPrev = s.threadPrev
    ∧ (s.relink c t).pidhash = s.pidhash ∧ (s.relink c t).place = s.place
    ∧ (s.relink c t).fresh = s.fresh ∧ (s.relink c t).log = s.log := by
  obtain ⟨h1, h2, h3, h4, h5, h6, h7, h8, h9⟩ := removeLinks_task s t
  simp only [Sys.relink, Sys.setLinks]
  exact ⟨h1, h2 ▸ rfl, h3 ▸ rfl, h4, h5, h6, h7, h8, h9⟩

lemma releaseTask_eq (hs' : s.releaseTask c p = some s') : p ≠ c
    ∧ s' = (((s.record (.released c p (s.pPptr p) (s.task p).firstTimeSlice)).unhashProcess p).modTask
      p fun t => { t with pid := 0 }) := by
  rw [Sys.releaseTask] at hs'
  split at hs'
  · exact nomatch hs'
  · next hne => exact ⟨hne, (Option.some.inj hs').symm⟩

/-- What `release_task` does. -/
lemma releaseTask_fields (hs' : s.releaseTask c p = some s') :
    s'.task = Function.update s.task p { s.task p with pid := 0 } ∧ s'.pPptr = s.pPptr
      ∧ s'.pOpptr = s.pOpptr
      ∧ s'.threadNext = Function.update s.threadNext (s.threadPrev p) (s.threadNext p)
      ∧ s'.threadPrev = Function.update s.threadPrev (s.threadNext p) (s.threadPrev p)
      ∧ s'.pidhash = s.pidhash.erase p ∧ s'.place = s.place ∧ s'.fresh = s.fresh
      ∧ s'.log = .released c p (s.pPptr p) (s.task p).firstTimeSlice :: s.log := by
  obtain ⟨-, rfl⟩ := releaseTask_eq hs'
  obtain ⟨h1, h2, h3, h4, h5, h6, h7, h8, h9⟩ := removeLinks_task
    ((s.record (.released c p (s.pPptr p) (s.task p).firstTimeSlice)).unhashPid p) p
  simp only [Sys.unhashProcess, Sys.delThread, Sys.modTask, h1, h2, h3, h4, h5, h6, h7, h8, h9]
  exact ⟨rfl, rfl, rfl, rfl, rfl, rfl, rfl, rfl, rfl⟩

namespace Links

lemma init_unlisted (h : Links s) : ¬ s.Listed initTask := h.lists.init_not_live

/-- A walk through a list of tasks without repetition is bounded by the number of tasks. -/
lemma length_le (h : Links s) {l : List Addr} (hl : l.Nodup) (hm : ∀ q ∈ l, s.Listed q) :
    l.length ≤ s.fresh := by
  have hsub : l ⊆ List.range s.fresh := fun q hq =>
    List.mem_range.mpr (h.fresh q (Or.inr (hm q hq)))
  simpa using (List.subperm_of_subset hl hsub).length_le

/-- `for_each_task` visits the hashed tasks. -/
lemma mem_eachTask (h : Links s) : q ∈ s.eachTask ↔ s.Listed q := by
  obtain ⟨order, kids, hsh, hord, -⟩ := h.lists
  have hlen := h.length_le (List.nodup_cons.mp hsh.ring.nodup).2 fun q hq => (hord q).mp hq
  rw [Sys.eachTask, hsh.ring.around hlen, hord]

/-- The list of children of `a` has the tasks whose `p_pptr` is `a`. -/
lemma children_spec (h : Links s) (a : Addr) : Kids s a (s.children a) ∧ (s.children a).Nodup
    ∧ ∀ q, q ∈ s.children a ↔ s.Listed q ∧ s.pPptr q = a := by
  obtain ⟨l, hk, hnd, hmem⟩ := h.lists.children a
  have hlen := h.length_le hnd fun q hq => ((hmem q).mp hq).1
  have hl : s.children a = l := by
    rw [Sys.children, hk.1, follow_seg hk.2, List.take_of_length_le hlen]
  rw [hl]
  exact ⟨hk, hnd, hmem⟩

lemma mem_children (h : Links s) {a : Addr} : q ∈ s.children a ↔ s.Listed q ∧ s.pPptr q = a :=
  (h.children_spec a).2.2 q

/-- The lists the pointers stand for are the ones the loops visit. -/
lemma shape (h : Links s) :
    ∃ order, Shape s order s.children ∧ ∀ q, q ∈ order ↔ s.Listed q := by
  obtain ⟨order, kids, hsh, hord, -⟩ := h.lists
  have hkids : kids = s.children := funext fun a => (hsh.lists a).unique (h.children_spec a).1
  exact ⟨order, hkids ▸ hsh, hord⟩

/-- A task that does not exit is alive. -/
lemma alive_of_stays (h : Links s) (hp : s.Unreleased p) (hu : Stays (s.place p)) :
    s.Alive p ∧ (s.task p).exiting = false ∧ (s.task p).state ≠ .zombie := by
  refine ⟨⟨hp, hu.2⟩, ?_, fun hz => hu.2 ((h.gone p hp).mpr hz)⟩
  by_contra hex
  rcases (h.exiting p hp).mp (by simpa using hex) with he | he
  · exact hu.1 he
  · exact hu.2 he

/-- A task that is not exiting is alive. -/
lemma alive_of_not_exiting (h : Links s) (hp : s.Unreleased p) (hx : (s.task p).exiting = false) :
    s.Alive p := by
  refine ⟨hp, fun hg => ?_⟩
  have := (h.exiting p hp).mpr (Or.inr hg)
  rw [hx] at this
  exact Bool.false_ne_true this

/-! ### Changes to the records and the places -/

/-- The same tasks with other parents. -/
lemma relinked (h : Links s) (hlists : Enlists s' s.Listed) (htn : s'.threadNext = s.threadNext)
    (htp : s'.threadPrev = s.threadPrev) (hh : s'.pidhash = s.pidhash) (hf : s'.fresh = s.fresh)
    (hroot : s'.pPptr initTask = initTask ∧ s'.pOpptr initTask = initTask)
    (hpar : ∀ q, s.Unreleased q → (s.Unreleased (s'.pPptr q) ∧ s'.place (s'.pPptr q) ≠ .gone)
      ∧ s.Unreleased (s'.pOpptr q) ∧ s'.place (s'.pOpptr q) ≠ .gone)
    (hpid : ∀ q, s.Listed q → (s'.task q).pid = (s.task q).pid)
    (hgone : ∀ q, s.Unreleased q → (s'.place q = .gone ↔ (s'.task q).state = .zombie))
    (hexit : ∀ q, s.Unreleased q →
      ((s'.task q).exiting = true ↔ s'.place q = .exiting ∨ s'.place q = .gone))
    (hplace : ∀ q, s'.place q = s.place q ∨ s.Listed q) : Links s' := by
  have hl : s'.Listed = s.Listed := by
    funext q
    rw [Sys.Listed, hh]
    rfl
  have hu : s'.Unreleased = s.Unreleased := by
    funext q
    rw [Sys.Unreleased, hl]
    rfl
  refine ⟨hl ▸ hlists, hh ▸ h.nodup, ?_, hroot, ?_, hu ▸ hgone, hu ▸ hexit, ?_, ?_, ?_, ?_⟩
  · rw [hu, hf]
    exact h.fresh
  · rw [hu]
    intro q hq
    obtain ⟨⟨hp, hpg⟩, ho, hog⟩ := hpar q hq
    exact ⟨⟨hu ▸ hp, hpg⟩, hu ▸ ho, hog⟩
  · rw [hl]
    exact fun q => (hplace q).elim (fun he => he ▸ h.asleep q) fun hq => Or.inr (Or.inr hq)
  · rw [hl, htn, htp]
    exact h.threads
  · rw [hl]
    exact fun q hq => hpid q hq ▸ h.pids q hq
  · rw [hl]
    intro q r hq hr he
    rw [hpid q hq, hpid r hr] at he
    exact h.inj q r hq hr he

/-- The same tasks with the same parents. -/
lemma congr (h : Links s) (hlists : Enlists s' s.Listed) (hpp : s'.pPptr = s.pPptr)
    (hop : s'.pOpptr = s.pOpptr) (htn : s'.threadNext = s.threadNext)
    (htp : s'.threadPrev = s.threadPrev) (hh : s'.pidhash = s.pidhash) (hf : s'.fresh = s.fresh)
    (hpid : ∀ q, s.Listed q → (s'.task q).pid = (s.task q).pid)
    (halive : ∀ q, s.Unreleased q → s'.place q = .gone → s.place q = .gone)
    (hgone : ∀ q, s.Unreleased q → (s'.place q = .gone ↔ (s'.task q).state = .zombie))
    (hexit : ∀ q, s.Unreleased q →
      ((s'.task q).exiting = true ↔ s'.place q = .exiting ∨ s'.place q = .gone))
    (hplace : ∀ q, s'.place q = s.place q ∨ s.Listed q) : Links s' := by
  refine h.relinked hlists htn htp hh hf (hpp ▸ hop ▸ h.root) (fun q hq => ?_) hpid hgone hexit
    hplace
  obtain ⟨⟨hp, hpg⟩, ho, hog⟩ := h.parents q hq
  rw [hpp, hop]
  exact ⟨⟨hp, fun he => hpg (halive _ hp he)⟩, ho, fun he => hog (halive _ ho he)⟩

/-- The links of a state with the same pointers. -/
lemma lists_congr (h : Links s) (hn : s'.nextTask = s.nextTask) (hp : s'.prevTask = s.prevTask)
    (hy : s'.pYsptr = s.pYsptr) (ho : s'.pOsptr = s.pOsptr) (hpp : s'.pPptr = s.pPptr)
    (hc : s'.pCptr = s.pCptr) : Enlists s' s.Listed :=
  h.lists.congr hn hp hy ho (fun _ _ => hpp ▸ rfl) fun _ => Or.inl (hc ▸ rfl)

/-- A step in which nobody changes its pid, forks, exits or dies. -/
lemma quiet (h : Links s) (hq : Quiet s s') : Links s' := by
  obtain ⟨hsame, htask, hplace⟩ := hq
  have hpl : ∀ q, (s'.place q = .gone ↔ s.place q = .gone)
      ∧ (s'.place q = .exiting ↔ s.place q = .exiting) := fun q => by
    rcases hplace q with he | ⟨-, hs, hs'⟩
    · rw [he]
      exact ⟨Iff.rfl, Iff.rfl⟩
    · exact ⟨iff_of_false hs'.2 hs.2, iff_of_false hs'.1 hs.1⟩
  refine h.congr (h.lists_congr ?_ ?_ ?_ ?_ ?_ ?_) ?_ ?_ ?_ ?_ ?_ ?_
    (fun q _ => (htask q).1) (fun q _ => (hpl q).1.mp) (fun q hu => ?_)
    (fun q hu => ?_) fun q => (hplace q).imp_right And.left
  iterate 12 rw [hsame]
  · rw [(hpl q).1, (htask q).2.2.2.2]
    exact h.gone q hu
  · rw [(hpl q).1, (hpl q).2, (htask q).2.1]
    exact h.exiting q hu

lemma record (h : Links s) (e : Event) : Links (s.record e) :=
  h.congr (h.lists_congr rfl rfl rfl rfl rfl rfl) rfl rfl rfl rfl rfl rfl (fun _ _ => rfl)
    (fun _ _ => id) h.gone h.exiting fun _ => Or.inl rfl

/-- A process enters `do_exit`. -/
lemma exitBegin (h : Links s) (hl : s.Listed p) (hp : Stays (s.place p)) (code : ℤ) :
    Links (s.exitBegin p code) := by
  have htask : ∀ q, q ≠ p → (s.exitBegin p code).task q = s.task q
      ∧ (s.exitBegin p code).place q = s.place q := fun q hq =>
    ⟨Function.update_of_ne hq .., Function.update_of_ne hq ..⟩
  have hself : (s.exitBegin p code).task p = { s.task p with exiting := true, exitCode := code }
      ∧ (s.exitBegin p code).place p = .exiting :=
    ⟨Function.update_self .., Function.update_self ..⟩
  refine h.congr (h.lists_congr rfl rfl rfl rfl rfl rfl) rfl rfl rfl rfl rfl rfl (fun q _ => ?_)
    (fun q _ => ?_) (fun q hq => ?_) (fun q hq => ?_) fun q => ?_ <;> by_cases hqp : q = p
  · rw [hqp, hself.1]
  · rw [(htask q hqp).1]
  · rw [hqp, hself.2]
    exact fun he => nomatch he
  · rw [(htask q hqp).2]
    exact id
  · rw [hqp, hself.1, hself.2]
    exact iff_of_false (fun he => nomatch he) fun hz => hp.2 ((h.gone p (hqp ▸ hq)).mpr hz)
  · rw [(htask q hqp).1, (htask q hqp).2]
    exact h.gone q hq
  · rw [hqp, hself.1, hself.2]
    exact iff_of_true rfl (Or.inl rfl)
  · rw [(htask q hqp).1, (htask q hqp).2]
    exact h.exiting q hq
  · exact Or.inr (hqp ▸ hl)
  · exact Or.inl (htask q hqp).2

/-! ### Forking -/

lemma forkChild_threads (h : Links s) {flags : CloneFlags}
    (hc : flags.cloneThread = true → s.Listed c) (pid : ℤ) :
    Circuits (fun q => q = s.fresh ∨ s.Listed q) (s.forkChild c flags pid).threadNext
      (s.forkChild c flags pid).threadPrev := by
  have hne : ∀ q, s.Listed q → q ≠ s.fresh := fun q hq => (h.fresh q (Or.inr hq)).ne
  have hp : ¬ s.Listed s.fresh := fun hl => hne _ hl rfl
  simp only [Sys.forkChild, Sys.linkChild]
  split
  · next hthread =>
      have hins := h.threads.insert hp (hc hthread)
      have hnext := hne _ (h.threads.next_mem c (hc hthread))
      simp only [Sys.setLinks, Sys.hashPid, Sys.goto, Sys.record, Sys.addThread, Sys.initThread,
        Function.update_of_ne (hne c (hc hthread)), Function.update_idem]
      rwa [Function.update_comm hnext, Function.update_idem, Function.update_comm hnext.symm]
  · exact h.threads.single hp

lemma forkChild_lists (h : Links s) (c : Addr) (flags : CloneFlags) (pid : ℤ) :
    Enlists (s.forkChild c flags pid) fun q => q = s.fresh ∨ s.Listed q := by
  have hne : ∀ q, s.Unreleased q → q ≠ s.fresh := fun q hq => (h.fresh q hq).ne
  have hlinked : ∀ s₀ : Sys, s₀.pPptr = s.pPptr → s₀.pCptr = s.pCptr → s₀.nextTask = s.nextTask →
      s₀.prevTask = s.prevTask → s₀.pYsptr = s.pYsptr → s₀.pOsptr = s.pOsptr →
      Enlists (s₀.linkChild c s.fresh flags) s.Listed := by
    intro s₀ hpp hc hn hp hy ho
    have hfields : (s₀.linkChild c s.fresh flags).nextTask = s₀.nextTask
        ∧ (s₀.linkChild c s.fresh flags).prevTask = s₀.prevTask
        ∧ (s₀.linkChild c s.fresh flags).pYsptr = s₀.pYsptr
        ∧ (s₀.linkChild c s.fresh flags).pOsptr = s₀.pOsptr
        ∧ (s₀.linkChild c s.fresh flags).pCptr = Function.update s₀.pCptr s.fresh none
        ∧ ∀ q, q ≠ s.fresh → (s₀.linkChild c s.fresh flags).pPptr q = s₀.pPptr q := by
      simp only [Sys.linkChild]
      split <;> exact ⟨rfl, rfl, rfl, rfl, rfl, fun q hq => Function.update_of_ne hq ..⟩
    obtain ⟨hn', hp', hy', ho', hc', hpp'⟩ := hfields
    refine h.lists.congr (hn'.trans hn) (hp'.trans hp) (hy'.trans hy) (ho'.trans ho)
      (fun q hq => (hpp' q (hne q (Or.inr hq))).trans (congrFun hpp q)) fun a => ?_
    rw [hc', hc]
    by_cases ha : a = s.fresh
    · rw [ha, Function.update_self]
      exact Or.inr ⟨rfl, fun q hq => hne _ (h.parents q (Or.inr hq)).1.1⟩
    · exact Or.inl (Function.update_of_ne ha ..)
  have hset := (hlinked { s with
    fresh := s.fresh + 1
    task := Function.update s.task s.fresh (Sys.childOf (s.task c) flags pid) }
    rfl rfl rfl rfl rfl rfl).setLinks (fun hl => hne _ (Or.inr hl) rfl) (hne _ (Or.inl rfl)).symm
  exact hset.congr rfl rfl rfl rfl (fun _ _ => rfl) fun _ => Or.inl rfl

/-- **`do_fork`.** -/
lemma forkChild (h : Links s) (hc : s.Unreleased c) (hu : Stays (s.place c)) {flags : CloneFlags}
    (hthread : flags.cloneThread = true → s.Listed c) {pid : ℤ} (hpid : 0 < pid)
    (hfree : ∀ q, s.Listed q → (s.task q).pid ≠ pid) :
    Links (s.forkChild c flags pid) := by
  set p := s.fresh with hp
  set s' := s.forkChild c flags pid with hs'
  obtain ⟨htask, hplace, hhash, hfresh, -, hop, hpp⟩ := forkChild_fields s c flags pid
  rw [← hp, ← hs'] at *
  have hnew : ¬ s.Unreleased p := fun hun => (h.fresh p hun).ne rfl
  have hne : ∀ q, s.Unreleased q → q ≠ p := fun q hq he => hnew (he ▸ hq)
  have hpi : p ≠ initTask := (hne initTask (Or.inl rfl)).symm
  have hlisted : ∀ q, s'.Listed q ↔ q = p ∨ s.Listed q := fun q => by
    rw [Sys.Listed, hhash, List.mem_cons]
    rfl
  have hun : ∀ q, s'.Unreleased q ↔ q = p ∨ s.Unreleased q := fun q => by
    rw [Sys.Unreleased, hlisted, Sys.Unreleased]
    tauto
  -- the other tasks keep their records
  have hold : ∀ q, s.Unreleased q → s'.task q = s.task q ∧ s'.place q = s.place q
      ∧ s'.pPptr q = s.pPptr q ∧ s'.pOpptr q = s.pOpptr q := fun q hq => by
    rw [htask, hplace, hpp, hop, Function.update_of_ne (hne q hq), Function.update_of_ne (hne q hq),
      Function.update_of_ne (hne q hq), Function.update_of_ne (hne q hq)]
    exact ⟨rfl, rfl, rfl, rfl⟩
  obtain ⟨hcalive, hcexit, -⟩ := h.alive_of_stays hc hu
  have halive : ∀ q, s.Alive q → s'.Alive q := fun q hq =>
    ⟨(hun q).mpr (Or.inr hq.1), (hold q hq.1).2.1 ▸ hq.2⟩
  have hself : s'.task p = Sys.childOf (s.task c) flags pid ∧ s'.place p = .user := by
    rw [htask, hplace, Function.update_self, Function.update_self]
    exact ⟨rfl, rfl⟩
  have hparent : s'.Alive (s'.pPptr p) ∧ s'.Alive (s'.pOpptr p) := by
    rw [hpp, hop, Function.update_self, Function.update_self]
    refine ⟨?_, ?_⟩ <;> split
    · exact halive _ (h.parents c hc).1
    · exact halive c hcalive
    · exact halive _ (h.parents c hc).2
    · exact halive c hcalive
  refine ⟨?_, ?_, ?_, ?_, ?_, ?_, ?_, ?_, ?_, ?_, ?_⟩
  · exact (h.forkChild_lists c flags pid).of_iff hlisted
  · rw [hhash]
    exact List.nodup_cons.mpr ⟨fun hm => hnew (Or.inr hm), h.nodup⟩
  · intro q hq
    rw [hfresh]
    rcases (hun q).mp hq with rfl | hq
    · exact Nat.lt_succ_self _
    · exact Nat.lt_succ_of_lt (h.fresh q hq)
  · obtain ⟨-, -, hpi, hoi⟩ := hold initTask (Or.inl rfl)
    exact ⟨hpi.trans h.root.1, hoi.trans h.root.2⟩
  · intro q hq
    rcases (hun q).mp hq with rfl | hq
    · exact hparent
    · obtain ⟨-, -, hpq, hoq⟩ := hold q hq
      exact ⟨hpq ▸ halive _ (h.parents q hq).1, hoq ▸ halive _ (h.parents q hq).2⟩
  · intro q hq
    rcases (hun q).mp hq with rfl | hq
    · rw [hself.1, hself.2]
      exact iff_of_false (fun he => nomatch he) fun he => nomatch he
    · rw [(hold q hq).1, (hold q hq).2.1]
      exact h.gone q hq
  · intro q hq
    rcases (hun q).mp hq with rfl | hq
    · rw [hself.1, hself.2]
      refine iff_of_false (fun he => Bool.false_ne_true (hcexit.symm.trans he)) ?_
      rintro (he | he) <;> exact nomatch he
    · rw [(hold q hq).1, (hold q hq).2.1]
      exact h.exiting q hq
  · intro q
    rw [hplace, hlisted]
    by_cases hqp : q = p
    · exact Or.inl (by rw [hqp, Function.update_self])
    · rw [Function.update_of_ne hqp]
      exact (h.asleep q).imp_right (Or.imp_right Or.inr)
  · exact (funext fun q => propext (hlisted q) : s'.Listed = _) ▸ h.forkChild_threads hthread pid
  · intro q hq
    rcases (hlisted q).mp hq with rfl | hq
    · exact hself.1 ▸ hpid
    · exact (hold q (Or.inr hq)).1 ▸ h.pids q hq
  · intro q r hq hr he
    rcases (hlisted q).mp hq with rfl | hq <;> rcases (hlisted r).mp hr with rfl | hr
    · rfl
    · rw [hself.1, (hold r (Or.inr hr)).1] at he
      exact absurd he.symm (hfree r hr)
    · rw [hself.1, (hold q (Or.inr hq)).1] at he
      exact absurd he (hfree q hq)
    · rw [(hold q (Or.inr hq)).1, (hold r (Or.inr hr)).1] at he
      exact h.inj q r hq hr he

/-! ### Attaching -/

lemma relink_lists (h : Links s) (c : Addr) {t : Addr} (ht : s.Listed t) :
    Enlists (s.relink c t) s.Listed := by
  obtain ⟨order, kids, hsh, hord, hcover⟩ := h.lists
  obtain ⟨a, ha⟩ := (hcover t).mpr ht
  have hk : t ∈ kids (s.pPptr t) := hsh.parent a t ha ▸ ha
  refine ⟨_, _, hsh.relink ((hord t).mpr ht) hk c, fun q => ?_, fun q => ?_⟩
  · by_cases hq : q = t
    · exact iff_of_true (by simp [hq]) (hq ▸ ht)
    · rw [List.mem_append, List.mem_singleton, List.mem_erase_of_ne hq, hord, or_iff_left hq]
  · rw [exists_mem_cons]
    by_cases hq : q = t
    · exact iff_of_true (Or.inl hq) (hq ▸ ht)
    · simp only [hq, false_or, List.mem_erase_of_ne hq]
      exact hcover q

/-- **`sys_attach_proc`**, past its checks. -/
lemma relink (h : Links s) (hc : s.Alive c) {t : Addr} (ht : s.Listed t) : Links (s.relink c t) := by
  have hti : initTask ≠ t := fun he => h.init_unlisted (he ▸ ht)
  obtain ⟨htask, hpp, hop, htn, htp, hh, hplace, hf, -⟩ := relink_fields s c t
  refine h.relinked (h.relink_lists c ht) htn htp hh hf ?_ (fun q hq => ?_)
    (fun q _ => htask ▸ rfl) (htask ▸ hplace ▸ h.gone) (htask ▸ hplace ▸ h.exiting)
    fun q => Or.inl (congrFun hplace q)
  · rw [hpp, hop, Function.update_of_ne hti, Function.update_of_ne hti]
    exact h.root
  · rw [hpp, hop, hplace]
    by_cases hqt : q = t
    · rw [hqt, Function.update_self, Function.update_self]
      exact ⟨hc, hc⟩
    · rw [Function.update_of_ne hqt, Function.update_of_ne hqt]
      exact h.parents q hq

/-! ### Exiting -/

lemma isOrphan_iff (h : Links s) : s.IsOrphan c p ↔ s.Listed p ∧ s.pOpptr p = c := by
  rw [Sys.IsOrphan, h.mem_eachTask]

/-- `init` takes orphans: it does not exit. -/
lemma childReaper_alive (h : Links s) (hi : HasInit s) (hx : (s.task c).exiting = true) :
    s.Alive childReaper ∧ childReaper ≠ c := by
  refine ⟨h.alive_of_not_exiting (Or.inr hi.listed) hi.stays, fun he => ?_⟩
  rw [← he, hi.stays] at hx
  exact Bool.false_ne_true hx

/-- The reaper of the orphans is a hashed task that is alive, and not the process that exits. -/
lemma reaperOf_alive (h : Links s) (hi : HasInit s) (hc : s.Listed c)
    (hx : (s.task c).exiting = true) :
    s.Listed (s.reaperOf c) ∧ s.Alive (s.reaperOf c) ∧ s.reaperOf c ≠ c := by
  rw [Sys.reaperOf]
  cases hf : (around s.nextThread c s.fresh c).find? fun t => ¬ (s.task t).exiting with
  | none => exact ⟨hi.listed, h.childReaper_alive hi hx⟩
  | some x =>
      obtain ⟨hlx, hxc⟩ := h.threads.mem_around hc (List.mem_of_find?_eq_some hf)
      have hex : (s.task x).exiting = false := by simpa using List.find?_some hf
      exact ⟨hlx, h.alive_of_not_exiting (Or.inr hlx) hex, hxc⟩

/-- So is the new parent of an orphan. -/
lemma newParent_alive (h : Links s) (hi : HasInit s) (hc : s.Listed c)
    (hx : (s.task c).exiting = true) (p : Addr) :
    s.Alive (Sys.newParent (s.reaperOf c) p) ∧ Sys.newParent (s.reaperOf c) p ≠ c := by
  rw [Sys.newParent]
  split
  · exact h.childReaper_alive hi hx
  · exact (h.reaperOf_alive hi hc hx).2

/-- What `exit_notify` of `c` does to the parents and the records. -/
structure Exited (s : Sys) (c : Addr) (s' : Sys) : Prop where
  lists : Enlists s' s.Listed
  threadNext : s'.threadNext = s.threadNext
  threadPrev : s'.threadPrev = s.threadPrev
  pidhash : s'.pidhash = s.pidhash
  fresh : s'.fresh = s.fresh
  log : s'.log = s.log
  place : s'.place = Function.update s.place c .gone
  pOpptr : ∀ q, s'.pOpptr q
    = if s.Listed q ∧ s.pOpptr q = c then Sys.newParent (s.reaperOf c) q else s.pOpptr q
  pPptr : ∀ q, s'.pPptr q
    = if s.Listed q ∧ s.pPptr q = c then s'.pOpptr q else s.pPptr q
  task : ∀ q, (s'.task q).pid = (s.task q).pid ∧ (s'.task q).exiting = (s.task q).exiting
    ∧ (s'.task q).waitBusy = (s.task q).waitBusy
    ∧ ((s'.task q).ptraced = true → (s.task q).ptraced = true)
    ∧ (s'.task q).state = (if q = c then .zombie else (s.task q).state)
    ∧ (s'.task q).firstTimeSlice
      = if s.Listed q ∧ s.pOpptr q = c then false else (s.task q).firstTimeSlice

/-- **`exit_notify`.** -/
lemma exited (h : Links s) (hi : HasInit s) (hc : s.Listed c) (hx : (s.task c).exiting = true) :
    Exited s c (s.exitNotify c) := by
  set f : Task → Task := fun t => { t with
    exitSignal := Sys.exitSignalOf t ((s.forgetOriginalParent c).task
      ((s.forgetOriginalParent c).pPptr c))
    state := .zombie } with hf
  set s₂ := (s.forgetOriginalParent c).modTask c f with hs₂
  have hs' : s.exitNotify c = (Sys.adoptChildren c s₂.fresh s₂).goto c .gone := rfl
  have hop : ∀ q, s₂.pOpptr q
      = if s.Listed q ∧ s.pOpptr q = c then Sys.newParent (s.reaperOf c) q else s.pOpptr q :=
    fun q => if_congr h.isOrphan_iff rfl rfl
  have hforgot : ∀ q, (s.forgetOriginalParent c).task q
      = if s.Listed q ∧ s.pOpptr q = c then Sys.orphan (s.task q) else s.task q :=
    fun q => if_congr h.isOrphan_iff rfl rfl
  have hlists : Enlists s₂ s.Listed := h.lists_congr rfl rfl rfl rfl rfl rfl
  have hrest := sameRest_adoptChildren c s₂.fresh s₂
  obtain ⟨hl, hpp, hppn⟩ := hlists.adoptChildren (c := c) (n := s₂.fresh)
    (fun q hq => h.fresh q (Or.inr hq)) fun q hq _ => by
      rw [hop]
      split
      · exact (h.newParent_alive hi hc hx q).2
      · next hno => exact fun he => hno ⟨hq, he⟩
  have hop' : ∀ q, (s.exitNotify c).pOpptr q = s₂.pOpptr q := fun q => congrFun hrest.pOpptr q
  refine ⟨hl.congr rfl rfl rfl rfl (fun _ _ => rfl) fun _ => Or.inl rfl, hrest.threadNext,
    hrest.threadPrev, hrest.pidhash, hrest.fresh, hrest.log, ?_, fun q => (hop' q).trans (hop q),
    fun q => ?_, fun q => ?_⟩
  · rw [hs', Sys.goto, hrest.place]
    rfl
  · rw [hop']
    by_cases hlq : s.Listed q
    · exact (hpp q hlq).trans (if_congr (and_iff_right hlq).symm rfl rfl)
    · rw [if_neg fun he => hlq he.1]
      exact hppn q hlq
  · obtain ⟨b, hb, hbt⟩ := hrest.task q
    have htask : (s.exitNotify c).task q = { s₂.task q with ptraced := b } := hb
    have hrec : s₂.task q = if q = c then f ((s.forgetOriginalParent c).task q)
        else (s.forgetOriginalParent c).task q := by
      by_cases hqc : q = c
      · rw [if_pos hqc, hqc]
        exact Sys.modTask_task_self ..
      · rw [if_neg hqc]
        exact Sys.modTask_task_of_ne _ _ _ hqc
    rw [htask]
    rw [hrec, hforgot] at hbt ⊢
    by_cases hqc : q = c <;> by_cases ho : s.Listed q ∧ s.pOpptr q = c
    · rw [if_pos hqc, if_pos ho] at hbt
      rw [if_pos hqc, if_pos hqc, if_pos ho, if_pos ho]
      exact ⟨rfl, rfl, rfl, hbt, rfl, rfl⟩
    · rw [if_pos hqc, if_neg ho] at hbt
      rw [if_pos hqc, if_pos hqc, if_neg ho, if_neg ho]
      exact ⟨rfl, rfl, rfl, hbt, rfl, rfl⟩
    · rw [if_neg hqc, if_pos ho] at hbt
      rw [if_neg hqc, if_neg hqc, if_pos ho, if_pos ho]
      exact ⟨rfl, rfl, rfl, hbt, rfl, rfl⟩
    · rw [if_neg hqc, if_neg ho] at hbt
      rw [if_neg hqc, if_neg hqc, if_neg ho, if_neg ho]
      exact ⟨rfl, rfl, rfl, hbt, rfl, rfl⟩

lemma exitNotify (h : Links s) (hi : HasInit s) (hc : s.Listed c) (hx : (s.task c).exiting = true) :
    Links (s.exitNotify c) := by
  have he := h.exited hi hc hx
  have hci : initTask ≠ c := fun hcc => h.init_unlisted (hcc ▸ hc)
  have hplace : ∀ q, q ≠ c → (s.exitNotify c).place q = s.place q := fun q hq => by
    rw [he.place, Function.update_of_ne hq]
  have hself : (s.exitNotify c).place c = .gone := by rw [he.place, Function.update_self]
  have hop : ∀ q, s.Unreleased q → s.Alive ((s.exitNotify c).pOpptr q)
      ∧ (s.exitNotify c).pOpptr q ≠ c := by
    intro q hq
    rw [he.pOpptr]
    split
    · exact h.newParent_alive hi hc hx q
    · next hno =>
        refine ⟨(h.parents q hq).2, ?_⟩
        rcases hq with rfl | hq
        · rwa [h.root.2]
        · exact fun hpc => hno ⟨hq, hpc⟩
  have hpp : ∀ q, s.Unreleased q → s.Alive ((s.exitNotify c).pPptr q)
      ∧ (s.exitNotify c).pPptr q ≠ c := by
    intro q hq
    rw [he.pPptr]
    split
    · exact hop q hq
    · next hno =>
        refine ⟨(h.parents q hq).1, ?_⟩
        rcases hq with rfl | hq
        · rwa [h.root.1]
        · exact fun hpc => hno ⟨hq, hpc⟩
  refine h.relinked he.lists he.threadNext he.threadPrev he.pidhash he.fresh ?_ (fun q hq => ?_)
    (fun q _ => (he.task q).1) (fun q hq => ?_) (fun q hq => ?_) fun q => ?_
  · rw [he.pPptr, he.pOpptr, if_neg fun ho => h.init_unlisted ho.1,
      if_neg fun ho => h.init_unlisted ho.1]
    exact h.root
  · rw [hplace _ (hpp q hq).2, hplace _ (hop q hq).2]
    exact ⟨(hpp q hq).1, (hop q hq).1⟩
  · obtain ⟨-, -, -, -, hst, -⟩ := he.task q
    rw [hst]
    by_cases hqc : q = c
    · rw [if_pos hqc, hqc]
      exact iff_of_true hself rfl
    · rw [if_neg hqc, hplace q hqc]
      exact h.gone q hq
  · obtain ⟨-, hex, -⟩ := he.task q
    rw [hex]
    by_cases hqc : q = c
    · rw [hqc]
      exact iff_of_true hx (Or.inr hself)
    · rw [hplace q hqc]
      exact h.exiting q hq
  · by_cases hqc : q = c
    · exact Or.inr (hqc ▸ hc)
    · exact Or.inl (hplace q hqc)

/-! ### Reaping -/

/-- **`release_task`** on a zombie. -/
lemma releaseTask (h : Links s) (hp : s.Listed p) (hz : (s.task p).state = .zombie)
    (hs' : s.releaseTask c p = some s') : Links s' := by
  obtain ⟨htask, hpp, hop, htn, htp, hhash, hplace, hfresh, -⟩ := releaseTask_fields hs'
  have hgone : s.place p = .gone := (h.gone p (Or.inr hp)).mpr hz
  have hlisted : ∀ q, s'.Listed q ↔ s.Listed q ∧ q ≠ p := fun q => by
    rw [Sys.Listed, hhash, h.nodup.mem_erase_iff, and_comm]
    rfl
  have hpi : initTask ≠ p := fun he => h.init_unlisted (he ▸ hp)
  have hun : ∀ q, s'.Unreleased q ↔ s.Unreleased q ∧ q ≠ p := fun q => by
    rw [Sys.Unreleased, hlisted, Sys.Unreleased]
    constructor
    · rintro (rfl | ⟨hq, hqp⟩)
      · exact ⟨Or.inl rfl, hpi⟩
      · exact ⟨Or.inr hq, hqp⟩
    · rintro ⟨hq, hqp⟩
      exact hq.imp_right fun hl => ⟨hl, hqp⟩
  have hold : ∀ q, q ≠ p → s'.task q = s.task q := fun q hq => by
    rw [htask, Function.update_of_ne hq]
  have hlists : Enlists s' s'.Listed := by
    obtain ⟨-, rfl⟩ := releaseTask_eq hs'
    refine Enlists.of_iff ?_ hlisted
    have hunhashed : Enlists ((s.record (.released c p (s.pPptr p)
        (s.task p).firstTimeSlice)).unhashPid p) s.Listed := h.lists_congr rfl rfl rfl rfl rfl rfl
    exact (hunhashed.removeLinks hp).congr rfl rfl rfl rfl (fun _ _ => rfl) fun _ => Or.inl rfl
  refine ⟨hlists, hhash ▸ h.nodup.erase p, ?_, hpp ▸ hop ▸ h.root, ?_, ?_, ?_, fun q => ?_, ?_, ?_, ?_⟩
  · rw [hfresh]
    exact fun q hq => h.fresh q ((hun q).mp hq).1
  · intro q hq
    obtain ⟨⟨hpq, hpg⟩, hoq, hog⟩ := h.parents q ((hun q).mp hq).1
    rw [Sys.Alive, Sys.Alive, hun, hun, hpp, hop, hplace]
    exact ⟨⟨⟨hpq, fun he => hpg (he ▸ hgone)⟩, hpg⟩, ⟨hoq, fun he => hog (he ▸ hgone)⟩, hog⟩
  · intro q hq
    obtain ⟨hq, hqp⟩ := (hun q).mp hq
    rw [hplace, hold q hqp]
    exact h.gone q hq
  · intro q hq
    obtain ⟨hq, hqp⟩ := (hun q).mp hq
    rw [hplace, hold q hqp]
    exact h.exiting q hq
  · rw [hplace, hlisted]
    by_cases hqp : q = p
    · exact Or.inr (Or.inl (hqp ▸ hgone))
    · exact (h.asleep q).imp_right (Or.imp_right fun hl => ⟨hl, hqp⟩)
  · rw [htn, htp, (funext fun q => propext (hlisted q) : s'.Listed = _)]
    exact h.threads.remove hp
  · intro q hq
    obtain ⟨hq, hqp⟩ := (hlisted q).mp hq
    exact hold q hqp ▸ h.pids q hq
  · intro q r hq hr he
    obtain ⟨hq, hqp⟩ := (hlisted q).mp hq
    obtain ⟨hr, hrp⟩ := (hlisted r).mp hr
    rw [hold q hqp, hold r hrp] at he
    exact h.inj q r hq hr he

end Links

/-! ### Untraced processes -/

namespace Wf

lemma quiet (h : Wf s) (hq : Quiet s s') : Wf s' := by
  refine ⟨h.toLinks.quiet hq, fun q hu => ?_⟩
  have hold := h.untraced q (hu.imp_right (hq.listed q).mp)
  have hpp : s'.pPptr = s.pPptr ∧ s'.pOpptr = s.pOpptr := by
    rw [hq.same]
    exact ⟨rfl, rfl⟩
  rw [hpp.1, hpp.2, (hq.task q).2.2.1]
  exact hold

lemma record (h : Wf s) (e : Event) : Wf (s.record e) := ⟨h.toLinks.record e, h.untraced⟩

lemma exitBegin (h : Wf s) (hl : s.Listed p) (hp : Stays (s.place p)) (code : ℤ) :
    Wf (s.exitBegin p code) := by
  refine ⟨h.toLinks.exitBegin hl hp code, fun q hq => ?_⟩
  have htr : ((s.exitBegin p code).task q).ptraced = (s.task q).ptraced := by
    by_cases hqp : q = p
    · simp [Sys.exitBegin, Sys.goto, Sys.modTask, hqp]
    · simp [Sys.exitBegin, Sys.goto, Sys.modTask, hqp]
  exact ⟨(h.untraced q hq).1, htr.trans (h.untraced q hq).2⟩

/-- The child of a process that is not traced is not traced either. -/
lemma forkChild (h : Wf s) (hc : s.Unreleased c) (hu : Stays (s.place c)) {flags : CloneFlags}
    (hthread : flags.cloneThread = true → s.Listed c) {pid : ℤ} (hpid : 0 < pid)
    (hfree : ∀ q, s.Listed q → (s.task q).pid ≠ pid) :
    Wf (s.forkChild c flags pid) := by
  refine ⟨h.toLinks.forkChild hc hu hthread hpid hfree, fun q hq => ?_⟩
  obtain ⟨htask, -, hhash, -, -, hop, hpp⟩ := forkChild_fields s c flags pid
  have htr : (Sys.childOf (s.task c) flags pid).ptraced = false := by
    rw [Sys.childOf, (h.untraced c hc).2, Bool.and_false]
  rw [htask, hop, hpp, htr]
  by_cases hqf : q = s.fresh
  · rw [hqf, Function.update_self, Function.update_self, Function.update_self]
    exact ⟨by simp [(h.untraced c hc).1], htr⟩
  · rw [Function.update_of_ne hqf, Function.update_of_ne hqf, Function.update_of_ne hqf]
    refine h.untraced q (hq.imp_right fun hl => ?_)
    rw [Sys.Listed, hhash] at hl
    exact (List.mem_cons.mp hl).resolve_left hqf

lemma relink (h : Wf s) (hc : s.Alive c) {t : Addr} (ht : s.Listed t) : Wf (s.relink c t) := by
  refine ⟨h.toLinks.relink hc ht, fun q hq => ?_⟩
  obtain ⟨htask, hpp, hop, -, -, hhash, -⟩ := relink_fields s c t
  have hold := h.untraced q (hq.imp_right fun hl => by rwa [Sys.Listed, hhash] at hl)
  rw [htask, hpp, hop]
  by_cases hqt : q = t
  · rw [hqt, Function.update_self, Function.update_self]
    exact ⟨rfl, hqt ▸ hold.2⟩
  · rw [Function.update_of_ne hqt, Function.update_of_ne hqt]
    exact hold

lemma exitNotify (h : Wf s) (hi : HasInit s) (hc : s.Listed c) (hx : (s.task c).exiting = true) :
    Wf (s.exitNotify c) := by
  refine ⟨h.toLinks.exitNotify hi hc hx, fun q hq => ?_⟩
  have he := h.exited hi hc hx
  have hold := h.untraced q (hq.imp_right fun hl => by rwa [Sys.Listed, he.pidhash] at hl)
  refine ⟨?_, Bool.eq_false_iff.mpr fun ht => ?_⟩
  · rw [he.pPptr, he.pOpptr, hold.1]
    split <;> rfl
  · exact Bool.false_ne_true (hold.2.symm.trans ((he.task q).2.2.2.1 ht))

lemma releaseTask (h : Wf s) (hp : s.Listed p) (hz : (s.task p).state = .zombie)
    (hs' : s.releaseTask c p = some s') : Wf s' := by
  refine ⟨h.toLinks.releaseTask hp hz hs', fun q hq => ?_⟩
  obtain ⟨htask, hpp, hop, -, -, hhash, -⟩ := releaseTask_fields hs'
  have hold := h.untraced q (hq.imp_right fun hl => by
    rw [Sys.Listed, hhash] at hl
    exact List.mem_of_mem_erase hl)
  have htr : (s'.task q).ptraced = (s.task q).ptraced := by
    rw [htask]
    by_cases hqp : q = p
    · rw [hqp, Function.update_self]
    · rw [Function.update_of_ne hqp]
  rw [hpp, hop, htr]
  exact hold

end Wf

end

end Os234123.Family
