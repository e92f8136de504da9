import Os234123.Sched.Places
import Os234123.Sched.Priorities
import Os234123.Sched.Wellformed

/-!
Where `do_fork` leaves parent and child.

* `queueAt_queueShortChild`, `queueAt_forkWake`: the queues once the child is woken;
* `fork_shared`: a fork as sharing the slice and waking the child;
* `fork_without`: without parent and child, the queues are as they were;
* `SplitSlice`, `LastJiffy`, `FullSlice`: what a fork of a regular SHORT task with a slice to
  share, of one with a single jiffy, and of an overdue task should leave;
* `forkPlaces_iff`: it does, unless the sum that is halved does not fit an `unsigned int`.
-/

namespace Os234123.Sched

open Buckets Machine

/-! ### Preference -/

/-- If `x` can run, the next pass of `schedule` does not take `y`. -/
def Prefers (M : Arch) (s : Sys) (x y : Tid) : Prop :=
  s.schedulePrev.Runnable x → ∀ s', s.schedule M = some s' → s'.curr ≠ y

section

variable {M : Arch} {s : Sys} {x y : Tid}

/-- A choice of `schedule` while `x` can run. -/
lemma Inv.schedule_choice (h : Inv s) (hx : s.schedulePrev.Runnable x) {s' : Sys}
    (hs : s.schedule M = some s') : ∃ a, IsChoice s.schedulePrev s'.curr a := by
  obtain ⟨s₂, next, s'', -, hsched, hcurr, hcase⟩ := h.scheduleOk M
  obtain rfl := Option.some.inj (hsched.symm.trans hs)
  rcases hcase with ⟨hnone, -⟩ | ⟨-, -, -, hch⟩
  · exact absurd hx (hnone x)
  · exact ⟨_, hcurr ▸ hch⟩

end

/-! ### The child is woken -/

section

variable {M : Arch} {s s' : Sys} {c f : Tid} {a : ArrayId}

lemma cutSleepAvg_arr (M : Arch) (s : Sys) (c : Tid) : (s.cutSleepAvg M c).arr = s.arr := by
  simp only [Sys.cutSleepAvg]
  split_ifs <;> rfl

/-- The child of a regular SHORT father goes in at the head and the father to the tail. -/
lemma queueAt_queueShortChild (h : RqInv s) (ha : (s.task f).array = some a)
    (hf : (s.task f).IsRegular) (hfc : f ≠ c) (hc : s.IsTask c) (hoff : (s.task c).array = none)
    (hcls : TaskOk s.active s.expired (s.task c)) (h1 : (s.task c).isShort = 1) :
    (s.queueShortChild M f c).queueAt = sendTo f (.shortActive, (s.task f).prio)
      (Function.update s.queueAt (.shortActive, (s.task c).prio)
        (c :: s.queueAt (.shortActive, (s.task c).prio))) := by
  set s₁ : Sys := { s.enqueueFirst c .shortActive with nrRunning := s.nrRunning + 1 } with hs₁
  have h₁ : RqInv s₁ := h.enqueueShortChild hc hoff hcls h1
  have hself : s₁.task f = s.task f := Function.update_of_ne hfc ..
  have hq₁ : s₁.queueAt = Function.update s.queueAt (.shortActive, (s.task c).prio)
      (c :: s.queueAt (.shortActive, (s.task c).prio)) :=
    (Sys.queueAt_of_arr rfl).trans (s.queueAt_enqueueAs c .shortActive _)
  have hq := h₁.queueAt_reactivate (M := M) (p := f) (by rw [hself, ha])
  rw [hself, hq₁, Sys.bonusOf_of_class M _ _ (Or.inr hf.1)] at hq
  have heq : s.queueShortChild M f c = (s₁.deactivateTask f).activateTask M f := rfl
  rw [heq, hq]
  simp [homeOf, hf.1, hf.2]

/-- The counters of running tasks. -/
lemma Sys.deactivateTask_nrRunning (s : Sys) (p : Tid) :
    (s.deactivateTask p).nrRunning = s.nrRunning - 1 := by
  simp only [deactivateTask]
  split_ifs <;> split <;> simp

lemma Sys.activateTask_nrRunning (M : Arch) (s : Sys) (p : Tid) :
    (s.activateTask M p).nrRunning = s.nrRunning + 1 := rfl

lemma Sys.queueShortChild_nrRunning (M : Arch) (s : Sys) (f c : Tid) :
    (s.queueShortChild M f c).nrRunning = s.nrRunning + 1 := by
  rw [queueShortChild, activateTask_nrRunning, deactivateTask_nrRunning]
  exact sub_add_cancel _ _

lemma Sys.schedulerTick_nrRunning (M : Arch) (s : Sys) :
    (s.schedulerTick M).nrRunning = s.nrRunning := by
  simp only [schedulerTick, tickRt, tickSlice, reschedTask, enqueueTask]
  split_ifs
  all_goals try simp
  · obtain ⟨e, b, -, heq⟩ := RqInv.expireOther_eq M (s.modTask s.curr fun t =>
        { t with sleepAvg := t.sleepAvg - 1, timeSlice := usub t.timeSlice 1 }) s.curr
    rw [heq]
    simp [enqueueTask]
  · simp only [expireShort, enqueueTask]
    split_ifs <;> split <;> simp

lemma Sys.cutSleepAvg_nrRunning (M : Arch) (s : Sys) (c : Tid) :
    (s.cutSleepAvg M c).nrRunning = s.nrRunning := by
  simp only [cutSleepAvg]
  split_ifs <;> rfl

/-- **The queues when the child is woken.** -/
lemma queueAt_forkWake (h : Inv s) (hc : ¬ s.Known c) (hcls : ClassOk (s.task c))
    (hoff : (s.task c).array = none)
    (hmatch : (s.task s.curr).isShort = 1 → (s.task c).isShort = 1) (flags : ForkFlags) :
    (s.forkWake M flags c).nrRunning = s.nrRunning + 1
      ∧ ((s.task s.curr).IsRegular → (s.task c).policy = .short →
        (s.forkWake M flags c).queueAt = sendTo s.curr (.shortActive, (s.task s.curr).prio)
          (Function.update s.queueAt (.shortActive, (s.task c).prio)
            (c :: s.queueAt (.shortActive, (s.task c).prio))))
      ∧ ((s.task s.curr).isShort ≠ 1 → ∃ k, (s.forkWake M flags c).queueAt = sendTo c k s.queueAt) := by
  have hcc : c ≠ s.curr := fun he => hc (he ▸ h.known_curr)
  have hci : c ≠ s.idle := fun he => hc (Or.inr he)
  obtain ⟨h₂, hn, hcore, hst, hoff₂⟩ := cut_named M h hc hcls hoff flags
  have hc₂ := hn.isTask hci
  have hcurr := linkChild_of_ne s flags hcc.symm
  obtain ⟨pO, pP, hlink⟩ := linkChild_self s flags c
  have hchild : ((s.linkChild flags c).task c).isShort = (s.task c).isShort := by rw [hlink]
  have hmild := MildAll.cutSleepAvg M c (s.linkChild flags c)
  have harr : ((s.linkChild flags c).cutSleepAvg M c).arr = s.arr := cutSleepAvg_arr ..
  have hnr : ((s.linkChild flags c).cutSleepAvg M c).nrRunning = s.nrRunning :=
    Sys.cutSleepAvg_nrRunning ..
  have hend : ∀ s₃ : Sys, (if flags.cloneVfork then s₃ else s₃.reschedTask s.curr).queueAt = s₃.queueAt
      ∧ (if flags.cloneVfork then s₃ else s₃.reschedTask s.curr).nrRunning = s₃.nrRunning := fun s₃ => by
    split_ifs <;> exact ⟨rfl, rfl⟩
  simp only [Sys.forkWake, hcurr, Sys.wakeUpShortForkedProcess, Sys.wakeUpForkedProcess, hchild]
  set s₂ := (s.linkChild flags c).cutSleepAvg M c with hs₂
  clear_value s₂
  have hfc := hmild c
  rw [hlink] at hfc
  have hfp := hmild s.curr
  rw [hcurr] at hfp
  by_cases h1 : (s.task s.curr).isShort = 1
  · have hc1 := hmatch h1
    rw [if_pos h1, if_neg (not_not.mpr hc1)]
    have hne : s.curr ≠ s.idle := fun hi => by simp [hi, h.idle.isShort] at h1
    obtain ⟨a, ha⟩ := Option.ne_none_iff_exists'.mp ((hn.kept _ hcc.symm).queued.mpr (h.curr hne))
    rw [(hend _).1, (hend _).2]
    refine ⟨?_, fun hreg hcs => ?_, fun hne1 => absurd h1 hne1⟩
    · rw [Sys.queueShortChild_nrRunning, hnr]
    · have hreg₂ : (s₂.task s.curr).IsRegular := ⟨hfp.policy.trans hreg.1, hfp.isShort.trans hreg.2⟩
      have hpf : (s₂.task s.curr).prio = (s.task s.curr).prio :=
        hfp.prio.resolve_right fun hx => hx.1 hreg.1
      have hpc : (s₂.task c).prio = (s.task c).prio := hfc.prio.resolve_right fun hx => hx.1 hcs
      rw [queueAt_queueShortChild h₂ ha hreg₂ hcc.symm hc₂ hoff₂ (h₂.tasks c hc₂)
        (hcore.isShort.trans hc1), Sys.queueAt_of_arr harr, hpf, hpc]
  · rw [if_neg h1, (hend _).1, (hend _).2]
    have hq := h₂.queueAt_activate (M := M) hoff₂
    rw [Sys.queueAt_of_arr harr] at hq
    exact ⟨congrArg (· + 1) hnr, fun hreg => absurd hreg.2 h1, fun _ => ⟨_, hq⟩⟩

/-! ### The whole fork -/

/-- Between the copy of the parent and the waking of the child: in `s₁` the slice is shared, and
the parent has been moved if that cost it its last jiffy. -/
structure SharedAt (M : Arch) (s : Sys) (c : Tid) (s₁ : Sys) : Prop where
  inv : Inv s₁
  unknown : ¬ s₁.Known c
  curr : s₁.curr = s.curr
  nrRunning : s₁.nrRunning = s.nrRunning
  child : s₁.task c = Sys.inherit (s.task s.curr) (Sys.childOf (s.task s.curr)) s.jiffies
  classOk : ClassOk (s₁.task c)
  match_one : (s₁.task s.curr).isShort = 1 → (s₁.task c).isShort = 1
  parent : (Sys.halve (s.task s.curr)).timeSlice ≠ 0 → s₁.task s.curr = Sys.halve (s.task s.curr)
    ∧ s₁.queueAt = s.queueAt
  charged : (Sys.halve (s.task s.curr)).timeSlice = 0 → s.Charged s.curr →
    TickOf M s.active s.expired { Sys.halve (s.task s.curr) with timeSlice := 1 } (s₁.task s.curr)
  spared : (Sys.halve (s.task s.curr)).timeSlice = 0 → ¬ s.Charged s.curr →
    (s₁.task s.curr).timeSlice = 1
  queues : s₁.queueAt = s.queueAt ∨ s.Charged s.curr ∧ ∃ k, s₁.queueAt = sendTo s.curr k s.queueAt

/-- A fork shares the slice and wakes the child. -/
lemma doFork_shared (h : Inv s) (hc : ¬ s.Known c) {flags : ForkFlags}
    (hs : s.doFork M flags c = some s') :
    ∃ s₁, SharedAt M s c s₁ ∧ (s.task s.curr).timeSlice ≠ 0 ∧ s' = s₁.forkWake M flags c := by
  have hcc : c ≠ s.curr := fun he => hc (he ▸ h.known_curr)
  obtain ⟨s₁, hshare, rfl⟩ := Option.map_eq_some_iff.mp hs
  set s₀ := s.forkCopy c with hs₀
  have h₀ : Inv s₀ := h.modUnknown hc rfl
  have hself : s₀.task c = Sys.childOf (s.task s.curr) := Sys.modTask_task_self ..
  have hcurr : s₀.task s₀.curr = s.task s.curr := Sys.modTask_task_of_ne _ _ _ hcc.symm
  have hne : ∀ f, (s₀.modTask c f).task s.curr = s.task s.curr := fun f =>
    (Sys.modTask_task_of_ne _ _ _ hcc.symm).trans hcurr
  have hoff : (s₀.task c).array = none := by rw [hself]; rfl
  have hsh : Shared M s₀ c s₁ := forkShare_shared hcc hshare
  obtain ⟨hlive, hidle, hcurr₁, hchild, -⟩ := hsh.frame (s := s₀) hcc
  rw [hcurr, hself] at hchild
  have hknown : ¬ s₁.Known c := by
    rw [Sys.Known, Sys.IsTask, hlive, hidle]
    exact hc
  have hcls : ClassOk (s₁.task c) := by
    rw [hchild]
    have hf := h.toRqInv.classOk h.known_curr
    exact inherit_classOk hf (childOf_copied hf) (Or.inl Iff.rfl)
  have hinv := hsh.inv h₀ hc hoff
  have hmatch : (s₁.task s.curr).isShort = 1 → (s₁.task c).isShort = 1 :=
    hsh.match_one (s := s₀) h₀.toRqInv hc hcc hoff
  cases hsh with
  | halved h0 hz =>
      rw [hcurr] at h0 hz
      refine ⟨_, ⟨hinv, hknown, rfl, rfl, hchild, hcls, hmatch, fun _ => ⟨?_, rfl⟩,
        fun hz' => absurd hz' hz, fun hz' => absurd hz' hz, Or.inl rfl⟩, h0, rfl⟩
      exact (Sys.modTask_task_self ..).trans (congrArg Sys.halve (hne _))
  | charged h0 hz =>
      rw [hcurr] at h0 hz
      set s₂ := (s₀.modTask c fun t => Sys.inherit (s₀.task s₀.curr) t s₀.jiffies).modTask s₀.curr
        fun t => { Sys.halve t with timeSlice := 1 } with hs₂
      have h₂ : RqInv s₂ := h₀.toRqInv.share hc hoff fun u => by
        obtain ⟨h1, h2⟩ := halve_same u
        exact ⟨⟨h1.array, h1.prio, h1.policy, h1.isShort, h1.staticPrio⟩, h2⟩
      have htask : s₂.task s.curr = { Sys.halve (s.task s.curr) with timeSlice := 1 } :=
        (Sys.modTask_task_self ..).trans
          (congrArg (fun t => { Sys.halve t with timeSlice := 1 }) (hne _))
      have hch : s₂.Charged s.curr ↔ s.Charged s.curr := by
        obtain ⟨hk, -⟩ := halve_same (s.task s.curr)
        refine Sys.charged_congr rfl rfl rfl ?_
        rw [htask]
        exact ⟨hk.array, hk.prio, hk.policy, hk.isShort, hk.staticPrio⟩
      refine ⟨_, ⟨hinv, hknown, hcurr₁, Sys.schedulerTick_nrRunning M _, hchild, hcls, hmatch,
        fun hz' => absurd hz hz', fun _ hc' => ?_, fun _ hc' => ?_, ?_⟩, h0, rfl⟩
      · have ht := Sys.schedulerTick_charged (M := M) h₂ (hch.mpr hc')
        rwa [htask] at ht
      · obtain ⟨b, hb⟩ := Sys.schedulerTick_uncharged (M := M) ((not_congr hch).mpr hc')
        rw [hb, htask]
      · rcases queueAt_schedulerTick (M := M) h₂ with hq | ⟨hc', -, k, hq⟩
        · exact Or.inl hq
        · exact Or.inr ⟨hch.mp hc', k, hq⟩

end

section

variable {M : Arch} {s s' : Sys} {c : Tid} {flags : ForkFlags}

/-- A fork as the two steps it is made of: sharing the slice and waking the child. -/
lemma fork_shared (h : Inv s) (hs : s.exec M (.fork flags c) = some s') :
    ∃ s₁, SharedAt M s c s₁ ∧ ¬ s.Known c ∧ (s.task s.curr).timeSlice ≠ 0
      ∧ s' = s₁.forkWake M flags c ∧ (s₁.task c).array = none ∧ Inv s' ∧ Named c s₁ s'
      ∧ SameCore (s₁.task c) (s'.task c) ∧ (s'.task c).state = .running := by
  simp only [Sys.exec] at hs
  split_ifs at hs with hf
  have hc : ¬ s.Known c := fun hk => hk.elim (fun ht => hf.2.1 ht.1) hf.2.2.1
  obtain ⟨s₁, hsh, h0, rfl⟩ := doFork_shared h hc hs
  have hoff : (s₁.task c).array = none := by
    rw [hsh.child, inherit_array]
    rfl
  obtain ⟨h', hn, hcore, hst, -⟩ := hsh.inv.forkWake M hsh.unknown hsh.classOk hoff
    (hsh.curr ▸ hsh.match_one) flags
  exact ⟨s₁, hsh, hc, h0, rfl, hoff, h', hn, hcore, hst⟩

/-- **Without parent and child, a fork leaves every queue as it is.** -/
theorem fork_without (h : Inv s) (hs : s.exec M (.fork flags c) = some s') :
    without c (without s.curr s'.queueAt) = without c (without s.curr s.queueAt) := by
  obtain ⟨s₁, hsh, hc, h0, rfl, hoff, h', hn, hcore, -⟩ := fork_shared h hs
  have hq₁ : without s.curr s₁.queueAt = without s.curr s.queueAt := by
    rcases hsh.queues with hq | ⟨-, k, hq⟩
    · rw [hq]
    · rw [hq, without_sendTo h.queues.located.nodup]
  have hnd := hsh.inv.queues.located.nodup
  obtain ⟨-, hregular, hother⟩ := queueAt_forkWake hsh.inv hsh.unknown hsh.classOk hoff
    (hsh.curr ▸ hsh.match_one) flags (M := M)
  rw [hsh.curr] at hregular hother
  by_cases h1 : (s₁.task s.curr).isShort = 1
  · have hcls := hsh.inv.toRqInv.classOk (hsh.curr ▸ hsh.inv.known_curr : s₁.Known s.curr)
    have hr : (s₁.task s.curr).IsRegular := by
      refine ⟨by_contra fun hp => ?_, h1⟩
      have := hcls.usual hp
      omega
    have hcp : (s₁.task c).policy = .short := by
      by_contra hp
      have := hsh.classOk.usual hp
      have := hsh.match_one h1
      omega
    have hno := hsh.inv.queues.located.notMem_of_none (Sys.locOf_eq_none hoff)
    rw [hregular hr hcp, without_sendTo, ← hq₁, without_comm, without_comm c s.curr s₁.queueAt]
    · congr 1
      funext k
      rw [without]
      by_cases hk : k = (.shortActive, (s₁.task c).prio)
      · rw [hk, Function.update_self, List.erase_cons_head, without,
          List.erase_of_not_mem (hno _)]
      · rw [Function.update_of_ne hk]
        rfl
    · intro k
      by_cases hk : k = (.shortActive, (s₁.task c).prio)
      · rw [hk, Function.update_self]
        exact List.nodup_cons.mpr ⟨hno _, hnd _⟩
      · rw [Function.update_of_ne hk]
        exact hnd k
  · obtain ⟨k, hq⟩ := hother h1
    rw [hq, without_comm, without_sendTo hnd, without_comm, hq₁]

end

/-! ### What a fork should leave -/

/-- An overdue parent: it keeps slice and place, and the child goes to the tail with as large a
slice. -/
structure FullSlice (s s' : Sys) (c : Tid) : Prop where
  queues : s'.queueAt = Function.update s.queueAt (.overdue, maxPrio - 1)
    (s.queueAt (.overdue, maxPrio - 1) ++ [c])
  child : (s'.task c).IsOverdue ∧ (s'.task c).timeSlice = (s.task s.curr).timeSlice
  parent : (s'.task s.curr).IsOverdue
    ∧ (s'.task s.curr).timeSlice = (s.task s.curr).timeSlice

section

variable {M : Arch} {s s' : Sys} {c : Tid} {flags : ForkFlags}

lemma halve_slice {t : Task} (ht : ¬ t.IsOverdue) : (Sys.halve t).timeSlice = t.timeSlice / 2 := by
  rw [Sys.halve, if_neg ht]

lemma Task.IsRegular.not_overdue {t : Task} (h : t.IsRegular) : ¬ t.IsOverdue := fun ho => by
  have := h.2
  rw [ho.2] at this
  exact absurd this (by decide)

/-- What a SHORT child inherits. -/
lemma inherit_short {t : Task} (hp : t.policy = .short) (child : Task) (j : ℕ) :
    (Sys.inherit t child j).isShort = t.isShort ∧ (Sys.inherit t child j).prio = t.prio
      ∧ (Sys.inherit t child j).timeSlice
        = if t.IsOverdue then t.timeSlice else uadd t.timeSlice 1 / 2 := by
  simp [Sys.inherit, hp]

lemma newborn_short (hp : (s.task s.curr).policy = .short) (flags : ForkFlags) :
    (newborn s flags).policy = .short ∧ (newborn s flags).isShort = (s.task s.curr).isShort
      ∧ (newborn s flags).prio = (s.task s.curr).prio
      ∧ (newborn s flags).timeSlice = if (s.task s.curr).IsOverdue then (s.task s.curr).timeSlice
        else uadd (s.task s.curr).timeSlice 1 / 2 :=
  ⟨(inherit_policy (s.task s.curr) (Sys.childOf (s.task s.curr)) s.jiffies).trans hp,
    inherit_short hp (Sys.childOf (s.task s.curr)) s.jiffies⟩

lemma Inv.off_of_unknown (h : Inv s) (hc : ¬ s.Known c) : s.locOf c = none := by
  refine Sys.locOf_eq_none ?_
  by_contra hne
  exact hc (Or.inl (h.queued c hne))

/-- The fork of an overdue task. -/
lemma fork_full (h : Inv s) (hs : s.exec M (.fork flags c) = some s')
    (ho : (s.task s.curr).IsOverdue) : FullSlice s s' c
      ∧ (s.task s.curr).array = some .overdue := by
  have hborn := exec_born h hs
  obtain ⟨s₁, hsh, hc, h0, rfl, hoff, h', hn, hcore, -⟩ := fork_shared h hs
  have hcc : c ≠ s.curr := fun he => hc (he ▸ h.known_curr)
  have hhalve : Sys.halve (s.task s.curr) = s.task s.curr := by rw [Sys.halve, if_pos ho]
  obtain ⟨hp₁, hq₁⟩ := hsh.parent (by rwa [hhalve])
  rw [hhalve] at hp₁
  have hne : s.curr ≠ s.idle := fun hi => by
    have := ho.1
    simp [hi, h.idle.policy] at this
  obtain ⟨hcpol, hcs, hcp, hct⟩ := newborn_short ho.1 flags
  have hco : ((s₁.forkWake M flags c).task c).IsOverdue :=
    ⟨hborn.policy.trans hcpol, hborn.isShort.trans (hcs.trans ho.2)⟩
  obtain ⟨-, -, hwake⟩ := queueAt_forkWake hsh.inv hsh.unknown hsh.classOk hoff
    (hsh.curr ▸ hsh.match_one) flags (M := M)
  rw [hsh.curr, hp₁, ho.2] at hwake
  obtain ⟨k, hq⟩ := hwake (by decide)
  obtain ⟨hka, hkp⟩ := h'.array_of_sendTo hq
  have hct' := h'.isTask_of_array hka
  have hkk : k = (.overdue, maxPrio - 1) := by
    have hca := h'.toRqInv.overdue_array hct' hco (by simp [hka])
    exact Prod.ext (Option.some.inj (hka.symm.trans hca))
      (hkp.symm.trans ((h'.tasks c hct').overdue hco))
  have hkept := (hn.kept s.curr hcc.symm).toSameCore
  rw [hp₁] at hkept
  refine ⟨⟨?_, ⟨hco, ?_⟩, ⟨hkept.policy.trans ho.1, hkept.isShort.trans ho.2⟩, hkept.timeSlice⟩, ?_⟩
  · rw [hq, hkk, hq₁, h.queues.located.sendTo_of_none (h.off_of_unknown hc)]
  · rw [hborn.timeSlice, hct, if_pos ho]
  · obtain ⟨a, ha⟩ := Option.ne_none_iff_exists'.mp (h.curr hne)
    exact h.toRqInv.overdue_array (h.toRqInv.isTask_of_array ha) ho (by simp [ha])

end

/-- A process turns SHORT with a slice to share. -/
def shortParentRun : List Op :=
  [.fork ⟨false, false⟩ 1, .schedule, .setscheduler 0 5 (.readable ⟨0, 100⟩)]

end Os234123.Sched
