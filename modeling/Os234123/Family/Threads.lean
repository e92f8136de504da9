import Os234123.Family.Jobs

/-!
Thread groups: the rings of `thread_group` hold the tasks with one `tgid`.

* `ThreadRing s c l`: `c` and the tasks of `l` are linked into one ring, and they are all the hashed
  tasks with the `tgid` of `c`;
* `ThreadRings.release`, `ThreadRings.forkChild`: leaving and entering a group keeps them so;
* `mem_threads_of_run`: a loop along `next_thread` visits the thread group of a process.
-/

namespace Os234123.Family

open Linked Machine

/-- `c` and `l` are the ring of a whole thread group. -/
structure ThreadRing (s : Sys) (c : Addr) (l : List Addr) : Prop where
  ring : Ring s.threadNext s.threadPrev c l
  mem : ∀ q, q ∈ c :: l ↔ s.Listed q ∧ (s.task q).tgid = (s.task c).tgid

/-- Every task stands in the ring of its thread group. -/
def ThreadRings (s : Sys) : Prop := ∀ c, s.Listed c → ∃ l, ThreadRing s c l

section

variable {s s' : Sys} {p q c : Addr} {l : List Addr}

namespace ThreadRing

/-- The ring of a group, seen from another member. -/
lemma rotate (h : ThreadRing s c l) (hq : q ∈ c :: l) : ∃ l', ThreadRing s q l' := by
  rcases List.mem_cons.mp hq with rfl | hql
  · exact ⟨l, h⟩
  · obtain ⟨l₁, l₂, rfl⟩ := List.append_of_mem hql
    refine ⟨l₂ ++ c :: l₁, h.ring.rotate, fun r => ?_⟩
    have hperm : r ∈ q :: (l₂ ++ c :: l₁) ↔ r ∈ c :: (l₁ ++ q :: l₂) := by
      simp only [List.mem_cons, List.mem_append]
      tauto
    rw [hperm, h.mem, ((h.mem q).mp hq).2]

/-- A ring whose members, pointers and numbers stay. -/
lemma congr (h : ThreadRing s c l)
    (hn : ∀ x ∈ c :: l, s'.threadNext x = s.threadNext x)
    (hv : ∀ x ∈ c :: l, s'.threadPrev x = s.threadPrev x)
    (hm : ∀ q, s'.Listed q ∧ (s'.task q).tgid = (s'.task c).tgid
      ↔ s.Listed q ∧ (s.task q).tgid = (s.task c).tgid) : ThreadRing s' c l :=
  ⟨h.ring.congr hn hv, fun q => (h.mem q).trans (hm q).symm⟩

end ThreadRing

namespace ThreadRings

/-- A step that leaves the threads alone. -/
lemma kept (h : ThreadRings s) (hn : s'.threadNext = s.threadNext)
    (hv : s'.threadPrev = s.threadPrev) (hl : ∀ q, s'.Listed q ↔ s.Listed q) (hg : SameGroups s s') :
    ThreadRings s' := by
  intro c hc
  obtain ⟨l, hr⟩ := h c ((hl c).mp hc)
  refine ⟨l, hr.congr (fun x _ => congrFun hn x) (fun x _ => congrFun hv x) fun q => ?_⟩
  rw [hl, (hg q).2, (hg c).2]

/-- **A task leaves its group.** -/
lemma release (h : ThreadRings s) (hw : Links s) (hp : s.Listed p)
    (hs : s.releaseTask c p = some s') : ThreadRings s' := by
  obtain ⟨htask, -, -, hn, hv, hhash, -⟩ := releaseTask_fields hs
  have hl : ∀ q, s'.Listed q ↔ s.Listed q ∧ q ≠ p := fun q => by
    rw [Sys.Listed, hhash, hw.nodup.mem_erase_iff, and_comm]
    rfl
  have htgid : ∀ q, (s'.task q).tgid = (s.task q).tgid := fun q => (SameGroups.releaseTask hs q).2
  intro d hd
  obtain ⟨hd, hdp⟩ := (hl d).mp hd
  obtain ⟨l, hr⟩ := h d hd
  by_cases hpl : p ∈ d :: l
  · obtain ⟨l₁, l₂, rfl⟩ := List.append_of_mem ((List.mem_cons.mp hpl).resolve_left (Ne.symm hdp))
    refine ⟨l₁ ++ l₂, ?_, fun q => ?_⟩
    · rw [hn, hv]
      exact hr.ring.remove
    · have hpnot : p ∉ d :: (l₁ ++ l₂) := by
        have hnd := hr.ring.nodup
        rw [← List.cons_append, List.nodup_middle] at hnd
        exact (List.nodup_cons.mp hnd).1
      have hmem : q ∈ d :: (l₁ ++ l₂) ↔ q ∈ d :: (l₁ ++ p :: l₂) ∧ q ≠ p := by
        constructor
        · intro hq
          refine ⟨?_, fun he => hpnot (he ▸ hq)⟩
          simp only [List.mem_cons, List.mem_append] at hq ⊢
          tauto
        · rintro ⟨hq, hqp⟩
          simp only [List.mem_cons, List.mem_append] at hq ⊢
          tauto
      rw [hmem, hr.mem, hl, htgid, htgid]
      tauto
  · -- the neighbours of `p` stand in the ring of `p`, which is another one
    obtain ⟨lp, hrp⟩ := h p hp
    have hout : ∀ x ∈ p :: lp, x ∉ d :: l := by
      intro x hx hxl
      obtain ⟨-, hxp⟩ := (hrp.mem x).mp hx
      obtain ⟨-, hxd⟩ := (hr.mem x).mp hxl
      exact hpl ((hr.mem p).mpr ⟨hp, hxp.symm.trans hxd⟩)
    have hnext := hout _ hrp.ring.neighbours.1
    have hprev := hout _ hrp.ring.neighbours.2
    refine ⟨l, hr.congr (fun x hx => ?_) (fun x hx => ?_) fun q => ?_⟩
    · rw [hn, Function.update_of_ne fun he : x = s.threadPrev p => hprev (he ▸ hx)]
    · rw [hv, Function.update_of_ne fun he : x = s.threadNext p => hnext (he ▸ hx)]
    · rw [hl, htgid, htgid]
      refine ⟨fun hq => ⟨hq.1.1, hq.2⟩, fun hq => ⟨⟨hq.1, fun he => hpl ?_⟩, hq.2⟩⟩
      exact (hr.mem p).mpr ⟨hp, he ▸ hq.2⟩

/-- The thread pointers after a fork. -/
lemma forkChild_pointers (hw : Links s) (flags : CloneFlags)
    (hc : flags.cloneThread = true → s.Listed c) (pid : ℤ) :
    (flags.cloneThread = true
      → (s.forkChild c flags pid).threadNext
          = Function.update (Function.update s.threadNext s.fresh (s.threadNext c)) c s.fresh
        ∧ (s.forkChild c flags pid).threadPrev
          = Function.update (Function.update s.threadPrev s.fresh c) (s.threadNext c) s.fresh)
      ∧ (flags.cloneThread = false
        → (s.forkChild c flags pid).threadNext = Function.update s.threadNext s.fresh s.fresh
          ∧ (s.forkChild c flags pid).threadPrev = Function.update s.threadPrev s.fresh s.fresh) := by
  have hne : ∀ q, s.Listed q → q ≠ s.fresh := fun q hq => (hw.fresh q (Or.inr hq)).ne
  refine ⟨fun hthread => ?_, fun hthread => ?_⟩
  · have hcf := hne c (hc hthread)
    have hnf := hne _ (hw.threads.next_mem c (hc hthread))
    simp only [Sys.forkChild, Sys.linkChild, hthread, if_true, Sys.setLinks, Sys.hashPid, Sys.goto,
      Sys.record, Sys.addThread, Sys.initThread, Function.update_of_ne hcf, Function.update_idem]
    refine ⟨trivial, ?_⟩
    rw [Function.update_comm hnf, Function.update_idem]
  · simp only [Sys.forkChild, Sys.linkChild, hthread, Bool.false_eq_true, if_false]
    exact ⟨rfl, rfl⟩

/-- **A new task** starts its own group, or enters that of its parent. -/
lemma forkChild (h : ThreadRings s) (hw : Links s) (hc : s.Listed c) (flags : CloneFlags) {pid : ℤ}
    (hfree : ∀ q, s.Listed q → (s.task q).tgid ≠ pid) : ThreadRings (s.forkChild c flags pid) := by
  obtain ⟨htask, -, hhash, -⟩ := forkChild_fields s c flags pid
  obtain ⟨hthread, halone⟩ := forkChild_pointers hw flags (fun _ => hc) pid
  have hne : ∀ q, s.Listed q → q ≠ s.fresh := fun q hq => (hw.fresh q (Or.inr hq)).ne
  have hl : ∀ q, (s.forkChild c flags pid).Listed q ↔ q = s.fresh ∨ s.Listed q := fun q => by
    rw [Sys.Listed, hhash, List.mem_cons]
    rfl
  have hold : ∀ q, s.Listed q → ((s.forkChild c flags pid).task q).tgid = (s.task q).tgid :=
    fun q hq => by rw [htask, Function.update_of_ne (hne q hq)]
  have hnew : ((s.forkChild c flags pid).task s.fresh).tgid
      = if flags.cloneThread then (s.task c).tgid else pid := by
    rw [htask, Function.update_self]
    rfl
  -- a group that the new task does not enter stays as it is
  have hstays : ∀ d l, s.Listed d → ThreadRing s d l →
      ((s.forkChild c flags pid).task s.fresh).tgid ≠ (s.task d).tgid →
      (∀ x ∈ d :: l, (s.forkChild c flags pid).threadNext x = s.threadNext x) →
      (∀ x ∈ d :: l, (s.forkChild c flags pid).threadPrev x = s.threadPrev x) →
      ThreadRing (s.forkChild c flags pid) d l := by
    intro d l hd hr hdiff hn hv
    refine hr.congr hn hv fun q => ?_
    rw [hl, hold d hd]
    constructor
    · rintro ⟨rfl | hq, hqd⟩
      · exact absurd hqd hdiff
      · exact ⟨hq, (hold q hq).symm.trans hqd⟩
    · rintro ⟨hq, hqd⟩
      exact ⟨Or.inr hq, (hold q hq).trans hqd⟩
  have hin : ∀ {d l x}, ThreadRing s d l → x ∈ d :: l → x ≠ s.fresh := fun hr hx =>
    hne _ ((hr.mem _).mp hx).1
  cases hflag : flags.cloneThread with
  | false =>
      obtain ⟨hn, hv⟩ := halone hflag
      rw [hflag] at hnew
      simp only [Bool.false_eq_true, if_false] at hnew
      intro d hd
      rcases (hl d).mp hd with rfl | hd
      · have hring : Ring (s.forkChild c flags pid).threadNext (s.forkChild c flags pid).threadPrev
            s.fresh [] :=
          ⟨List.nodup_singleton _, seg_nil, by rw [hn]; simp, by rw [hv]; simp⟩
        refine ⟨[], hring, fun q => ?_⟩
        rw [hl, hnew, List.mem_singleton]
        constructor
        · rintro rfl
          exact ⟨Or.inl rfl, hnew⟩
        · rintro ⟨hq | hq, hqp⟩
          · exact hq
          · exact absurd ((hold q hq).symm.trans hqp) (hfree q hq)
      · obtain ⟨l, hr⟩ := h d hd
        refine ⟨l, hstays d l hd hr (hnew.trans_ne (hfree d hd).symm) (fun x hx => ?_) fun x hx => ?_⟩
        · rw [hn, Function.update_of_ne (hin hr hx)]
        · rw [hv, Function.update_of_ne (hin hr hx)]
  | true =>
      obtain ⟨hn, hv⟩ := hthread hflag
      rw [hflag] at hnew
      simp only [if_true] at hnew
      -- the ring of `c`, seen from the task after it: the new one comes last
      obtain ⟨lc, hrc⟩ := h c hc
      obtain ⟨lz, hrz⟩ := hrc.rotate hrc.ring.neighbours.1
      have hpz : s.threadPrev (s.threadNext c) = c := hw.threads.prev_next c hc
      have hfresh : s.fresh ∉ s.threadNext c :: lz := fun hx => hin hrz hx rfl
      have hzc : (s.task (s.threadNext c)).tgid = (s.task c).tgid :=
        ((hrc.mem _).mp hrc.ring.neighbours.1).2
      have hring := hrz.ring.pushBack hfresh
      rw [hpz, ← hn, ← hv] at hring
      have hzl := ((hrz.mem _).mp List.mem_cons_self).1
      have hnewring : ThreadRing (s.forkChild c flags pid) (s.threadNext c) (lz ++ [s.fresh]) := by
        refine ⟨hring, fun q => ?_⟩
        have hmem : q ∈ s.threadNext c :: (lz ++ [s.fresh])
            ↔ q = s.fresh ∨ q ∈ s.threadNext c :: lz := by
          simp only [List.mem_cons, List.mem_append, List.not_mem_nil, or_false]
          tauto
        rw [hmem, hrz.mem, hl, hold _ hzl]
        constructor
        · rintro (rfl | ⟨hq, hqz⟩)
          · exact ⟨Or.inl rfl, hnew.trans hzc.symm⟩
          · exact ⟨Or.inr hq, (hold q hq).trans hqz⟩
        · rintro ⟨hq | hq, hqz⟩
          · exact Or.inl hq
          · exact Or.inr ⟨hq, (hold q hq).symm.trans hqz⟩
      intro d hd
      by_cases hdc : ((s.forkChild c flags pid).task d).tgid = (s.task c).tgid
      · refine hnewring.rotate ((hnewring.mem d).mpr ⟨hd, ?_⟩)
        rw [hdc, hold _ hzl, hzc]
      · rcases (hl d).mp hd with rfl | hd
        · exact absurd hnew hdc
        · rw [hold d hd] at hdc
          obtain ⟨l, hr⟩ := h d hd
          have hother : ∀ x, (s.task x).tgid = (s.task c).tgid → x ∉ d :: l := fun x hx hxl =>
            hdc (((hr.mem x).mp hxl).2.symm.trans hx)
          refine ⟨l, hstays d l hd hr (fun he => hdc (he.symm.trans hnew)) (fun x hx => ?_)
            fun x hx => ?_⟩
          · rw [hn, Function.update_of_ne (fun he : x = c => hother c rfl (he ▸ hx)),
              Function.update_of_ne (hin hr hx)]
          · rw [hv, Function.update_of_ne (fun he : x = s.threadNext c => hother _ hzc (he ▸ hx)),
              Function.update_of_ne (hin hr hx)]

/-- A step in which nobody forks. -/
lemma settles (h : ThreadRings s) (hw : Wf s) (hi : HasInit s) (hs : Settles s s')
    (hg : SameGroups s s') : ThreadRings s' := by
  cases hs with
  | quiet hq => exact h.kept (by rw [hq.same]) (by rw [hq.same]) hq.listed hg
  | @attach c t hc ht =>
      obtain ⟨-, -, -, hn, hv, hhash, -⟩ := relink_fields s c t
      exact h.kept hn hv (fun q => by rw [Sys.Listed, hhash]; rfl) hg
  | @exit c hc hpid code =>
      have h₁ := hw.exitBegin hc.1 hc.active.stays code
      have hex := h₁.exited (hi.exitBegin hpid code) hc.1 (exitBegin_exiting s c code)
      exact h.kept hex.threadNext hex.threadPrev
        (fun q => by rw [Sys.Listed, hex.pidhash]; rfl) hg
  | @reap c p s₁ s' hc hp hz hq hr =>
      obtain ⟨s₂, hs₂, rfl⟩ := hr
      -- the groups are those of `s` before the report as well
      have hout := (SameGroups.releaseTask hs₂).trans (.endWait4 s₂ c)
      have hg₁ : SameGroups s (s₁.record (.returned c p)) := fun q =>
        ⟨(hout q).1.symm.trans (hg q).1, (hout q).2.symm.trans (hg q).2⟩
      have hmid : ThreadRings (s₁.record (.returned c p)) :=
        h.kept (by rw [hq.same]; rfl) (by rw [hq.same]; rfl) hq.listed hg₁
      have hlinks := ((hw.quiet hq).record (.returned c p)).toLinks
      have hend := hmid.release hlinks ((hq.listed p).mpr hp) hs₂
      exact hend.kept rfl rfl (fun _ => Iff.rfl) (.endWait4 s₂ c)

/-- A task that changes its group of processes stays in its thread group. -/
lemma modTask (h : ThreadRings s) {f : Task → Task} (hf : ∀ t, (f t).tgid = t.tgid) :
    ThreadRings (s.modTask p f) := by
  intro c hc
  obtain ⟨l, hr⟩ := h c hc
  have htgid : ∀ q, ((s.modTask p f).task q).tgid = (s.task q).tgid := fun q => by
    by_cases hq : q = p
    · rw [hq, Sys.modTask_task_self, hf]
    · rw [Sys.modTask_task_of_ne _ _ _ hq]
  refine ⟨l, hr.congr (fun _ _ => rfl) (fun _ _ => rfl) fun q => ?_⟩
  rw [htgid, htgid]
  rfl

/-- `init` is alone in its group. -/
lemma booted : ThreadRings Sys.booted := by
  intro c hc
  obtain rfl : c = childReaper := List.mem_singleton.mp hc
  refine ⟨[], ⟨List.nodup_singleton _, seg_nil, rfl, rfl⟩, fun q => ?_⟩
  rw [List.mem_singleton]
  constructor
  · rintro rfl
    exact ⟨hc, rfl⟩
  · rintro ⟨hq, -⟩
    exact List.mem_singleton.mp hq

lemma threads_eq (hw : Links s) (hr : ThreadRing s c l) : s.threads c = c :: l := by
  have hlen : l.length ≤ s.fresh := hw.length_le (List.nodup_cons.mp hr.ring.nodup).2 fun q hq =>
    ((hr.mem q).mp (List.mem_cons_of_mem _ hq)).1
  exact congrArg (c :: ·) (hr.ring.around hlen)

lemma nodup_threads (h : ThreadRings s) (hw : Links s) (hc : s.Listed c) : (s.threads c).Nodup := by
  obtain ⟨l, hr⟩ := h c hc
  rw [threads_eq hw hr]
  exact hr.ring.nodup

/-- **The loop along `next_thread`.** -/
lemma mem_threads (h : ThreadRings s) (hw : Links s) (hc : s.Listed c) :
    q ∈ s.threads c ↔ s.Listed q ∧ (s.task q).tgid = (s.task c).tgid := by
  obtain ⟨l, hr⟩ := h c hc
  rw [threads_eq hw hr, hr.mem]

end ThreadRings

end

/-! ### Runs -/

section

variable {x x' : JobSys} {o : JobOp} {ops : List JobOp} {c q : Addr}

/-- **Every step keeps the rings of the thread groups.** -/
theorem ThreadRings.step (h : ThreadRings x.sys) (hx : JobInv x) (hfree : x.PidsLeft o)
    (hs : JobSys.exec o x = some x') : ThreadRings x'.sys := by
  rcases hx.exec_cases hfree hs with rfl | ⟨c, flags, pid, safe, hc, hf, rfl⟩
    | ⟨s', hset, hg, rfl⟩ | ⟨p, g, n, -, -, -, rfl⟩
  · exact h
  · -- the pid is not the `tgid` of a group whose first task has left
    exact h.forkChild hx.tree.toLinks hc.1 flags fun q hq => ((hx.pidFree hf).2 q hq).2.2
  · exact h.settles hx.tree hx.init hset hg
  · exact h.modTask fun _ => rfl

theorem threadRings_of_run (h : run JobSys.exec ops JobSys.booted = some x)
    (hleft : Along JobSys.exec JobSys.PidsLeft ops JobSys.booted) : JobInv x ∧ ThreadRings x.sys :=
  run_induct_along (P := fun x => JobInv x ∧ ThreadRings x.sys)
    (fun _ _ _ hy hok hs => ⟨hy.1.step hok hs, hy.2.step hy.1 hok hs⟩)
    ⟨JobInv.booted, ThreadRings.booted⟩ hleft h

/-- `init` forks 2, which makes the thread 3, and 3 the thread 4; 3 forks 5 and exits, and 2 reaps it. -/
def threadRun : List JobOp :=
  [.fork 1 .plain, .fork 2 { CloneFlags.plain with cloneThread := true },
    .fork 3 { CloneFlags.plain with cloneThread := true }, .fork 3 .plain, .exit 3 0,
    .wait4 2 (.waitpid (-1) true) true]

lemma threadRun_runs : ∃ x, run JobSys.exec threadRun JobSys.booted = some x ∧ x.sys.Listed 4 := by
  have h : (run JobSys.exec threadRun JobSys.booted).map (fun x => decide (x.sys.Listed 4))
      = some true := by decide +kernel
  obtain ⟨x, hx, hl⟩ := Option.map_eq_some_iff.mp h
  exact ⟨x, hx, of_decide_eq_true hl⟩

lemma threadRun_left : Along JobSys.exec JobSys.PidsLeft threadRun JobSys.booted := by
  have hfew : Along JobSys.exec
      (fun x _ => 4 * x.sys.eachTask.length + 1 < (pidMax - pidLow).toNat) threadRun
      JobSys.booted := by decide +kernel
  exact hfew.mono fun x o h => pidsLeft_of_few h o

/-- **The threads of a process**: in every state reached while there was a pid left for every fork, a
loop along `next_thread` visits each hashed task with the same `tgid`, and no other. -/
theorem mem_threads_of_run (h : run JobSys.exec ops JobSys.booted = some x)
    (hleft : Along JobSys.exec JobSys.PidsLeft ops JobSys.booted) (hc : x.sys.Listed c) (q : Addr) :
    (x.sys.threads c).Nodup
      ∧ (q ∈ x.sys.threads c ↔ x.sys.Listed q ∧ (x.sys.task q).tgid = (x.sys.task c).tgid) := by
  obtain ⟨hinv, hrings⟩ := threadRings_of_run h hleft
  exact ⟨hrings.nodup_threads hinv.tree.toLinks hc, hrings.mem_threads hinv.tree.toLinks hc⟩

theorem mem_threads_threadRun : ∃ x, run JobSys.exec threadRun JobSys.booted = some x
    ∧ (x.sys.threads 4).Nodup
      ∧ (2 ∈ x.sys.threads 4 ↔ x.sys.Listed 2 ∧ (x.sys.task 2).tgid = (x.sys.task 4).tgid) := by
  obtain ⟨x, hx, hl⟩ := threadRun_runs
  exact ⟨x, hx, mem_threads_of_run hx threadRun_left hl 2⟩

end

end Os234123.Family
