import Os234123.Family.Calls
import Os234123.Family.Pids

/-!
The process tree with `get_pid` inside `do_fork`, as a machine.

* `JobOp`, `JobSys.exec`: the calls, each in one step, and the changes to process groups and
  sessions;
* `Settles`: what a step other than a fork can do to the tree;
* `JobInv`, `exec_inv`: the links and the record of `get_pid` stay in order, as long as there is a
  pid left for each fork;
* `exec_of_run`: every such run is a run of the machine in which the caller of `do_fork` chooses the
  pid, and the pid is free.

Every call is one whole step, so in the states reached no process is asleep in `sys_wait4`.  `setpgid`
and `setsid` are calls of `kernel/sys.c`: a process joins a group that is there, or starts one named
after itself.
-/

namespace Os234123.Family

open Linked Machine Allot

/-! ### The machine -/

/-- The calls, and the steps of the environment. -/
inductive JobOp where
  | fork (c : Addr) (flags : CloneFlags)
  | attach (c : Addr) (pid : ℤ)
  | exit (c : Addr) (code : ℤ)
  | wait4 (c : Addr) (w : WaitArgs) (ok : Bool)
  | setpgid (p : Addr) (pgrp : ℤ)
  | setsid (c : Addr)
  | daemonize (c : Addr)
  | setCred (c : Addr) (euid : ℕ) (capKill : Bool)
  | signal (p : Addr) (pending : Bool)
  | stop (p : Addr) (code : ℤ)
  | cont (p : Addr)

namespace JobSys

/-- `INIT_TASK` has forked `init`. -/
def booted : JobSys where
  sys := Sys.booted
  session := fun _ => 0
  lastPid := 1
  nextSafe := pidMax

variable (x : JobSys)

/-- `do_fork` by `c`. -/
def doFork (c : Addr) (flags : CloneFlags) : Option (JobSys × Except Errno ℤ) :=
  if flags.cloneNewns ∧ flags.cloneFs then some (x, .error .einval)
  else if flags.clonePid ∧ (x.sys.task c).pid ≠ 0 then some (x, .error .eperm)
  else
    (x.getPid c flags.clonePid).map fun (x, pid) =>
      if pid = 0 ∧ (x.sys.task c).pid ≠ 0 then (x, .error .eagain)
      else
        ({ x with
            sys := x.sys.forkChild c flags pid
            session := Function.update x.session x.sys.fresh (x.session c) }, .ok pid)

/-- A step of the tree. -/
def onSys (f : Sys → Option Sys) : Option JobSys := (f x.sys).map fun s => { x with sys := s }

/-- `p` changes its process group and its session. -/
def enterGroup (p : Addr) (pgrp session : ℤ) : JobSys :=
  { x with
    sys := x.sys.modTask p fun t => { t with pgrp := pgrp }
    session := Function.update x.session p session }

/-- The group `p` may join. -/
def IsGroup (p : Addr) (pgrp : ℤ) : Prop :=
  pgrp = (x.sys.task p).pid ∨ ∃ q ∈ x.sys.pidhash, (x.sys.task q).pgrp = pgrp

instance (p : Addr) (pgrp : ℤ) : Decidable (x.IsGroup p pgrp) := inferInstanceAs (Decidable (_ ∨ _))

/-- One step. -/
def exec : JobOp → JobSys → Option JobSys
  | .fork c flags, x => if x.sys.InUser c then (x.doFork c flags).map Prod.fst else none
  | .attach c pid, x => x.onSys (Sys.callExec (.attach c pid))
  | .exit c code, x => x.onSys (Sys.callExec (.exit c code))
  | .wait4 c w ok, x => x.onSys (Sys.callExec (.wait4 c w ok))
  | .setpgid p g, x =>
      if x.sys.Listed p ∧ x.IsGroup p g then some (x.enterGroup p g (x.session p)) else none
  | .setsid c, x =>
      if x.sys.InUser c then some (x.enterGroup c (x.sys.task c).pid (x.sys.task c).pid) else none
  | .daemonize c, x => if x.sys.InUser c then some (x.enterGroup c 1 1) else none
  | .setCred c u k, x => x.onSys (Sys.exec (.setCred c u k))
  | .signal p b, x => x.onSys (Sys.exec (.signal p b))
  | .stop p code, x => x.onSys (Sys.exec (.stop p code))
  | .cont p, x => x.onSys (Sys.exec (.cont p))

end JobSys

/-! ### What a step does to the tree -/

section

variable {s s' : Sys} {p q c : Addr}

/-- Process groups and thread groups stay. -/
def SameGroups (s s' : Sys) : Prop :=
  ∀ q, (s'.task q).pgrp = (s.task q).pgrp ∧ (s'.task q).tgid = (s.task q).tgid

namespace SameGroups

lemma refl (s : Sys) : SameGroups s s := fun _ => ⟨rfl, rfl⟩

lemma trans {s'' : Sys} (h : SameGroups s s') (h' : SameGroups s' s'') : SameGroups s s'' :=
  fun q => ⟨(h' q).1.trans (h q).1, (h' q).2.trans (h q).2⟩

lemma of_task (h : s'.task = s.task) : SameGroups s s' := fun q => by
  rw [h]
  exact ⟨rfl, rfl⟩

lemma of_update {t : Task} (h : s'.task = Function.update s.task p t)
    (hg : t.pgrp = (s.task p).pgrp) (ht : t.tgid = (s.task p).tgid) : SameGroups s s' := fun q => by
  rw [h]
  by_cases hq : q = p
  · rw [hq, Function.update_self]
    exact ⟨hg, ht⟩
  · rw [Function.update_of_ne hq]
    exact ⟨rfl, rfl⟩

lemma modTask (s : Sys) (p : Addr) {f : Task → Task} (hg : (f (s.task p)).pgrp = (s.task p).pgrp)
    (ht : (f (s.task p)).tgid = (s.task p).tgid) : SameGroups s (s.modTask p f) :=
  .of_update rfl hg ht

lemma of_sameRest (h : SameRest s s') : SameGroups s s' := fun q => by
  obtain ⟨b, hb, -⟩ := h.task q
  rw [hb]
  exact ⟨rfl, rfl⟩

lemma endWait4 (s : Sys) (c : Addr) : SameGroups s (s.endWait4 c) := .of_update rfl rfl rfl

lemma releaseTask (h : s.releaseTask c p = some s') : SameGroups s s' :=
  .of_update (releaseTask_fields h).1 rfl rfl

lemma returnTraced (s : Sys) (p : Addr) : SameGroups s (s.returnTraced p) :=
  .of_task (removeLinks_task s p).1

lemma waitReport {zombie ok : Bool} {r : Except Errno ℤ}
    (h : s.waitReport c p zombie ok = some (s', r)) : SameGroups s s' := by
  rw [Sys.waitReport] at h
  split at h
  · obtain ⟨rfl, -⟩ := Prod.mk.inj (Option.some.inj h)
    exact .endWait4 s c
  · simp only at h
    split at h
    · obtain ⟨rfl, -⟩ := Prod.mk.inj (Option.some.inj h)
      exact (modTask s p rfl rfl).trans (.endWait4 _ c)
    split at h
    · obtain ⟨rfl, -⟩ := Prod.mk.inj (Option.some.inj h)
      exact (returnTraced (s.record (.returned c p)) p).trans (.endWait4 _ c)
    · obtain ⟨s₁, hs₁, h⟩ := Option.map_eq_some_iff.mp h
      obtain ⟨rfl, -⟩ := Prod.mk.inj h
      exact (releaseTask hs₁).trans (.endWait4 _ c)

lemma waitScan {w : WaitArgs} {r : Option (Except Errno ℤ)}
    (h : s.waitScan c w = some (s', r)) : SameGroups s s' := by
  rw [Sys.waitScan] at h
  have hmod : SameGroups s (s.modTask c fun t => { t with state := .interruptible }) :=
    modTask s c rfl rfl
  set s₁ := s.modTask c fun t => { t with state := .interruptible }
  simp only at h
  split at h
  · split at h
    · obtain ⟨rfl, -⟩ := Prod.mk.inj (Option.some.inj h)
      exact hmod
    · obtain ⟨⟨s₂, r₂⟩, hrep, h⟩ := Option.map_eq_some_iff.mp h
      obtain ⟨rfl, -⟩ := Prod.mk.inj h
      exact hmod.trans (waitReport hrep)
  · split at h
    · obtain ⟨rfl, -⟩ := Prod.mk.inj (Option.some.inj h)
      exact hmod.trans (.endWait4 _ c)
    split at h
    · obtain ⟨rfl, -⟩ := Prod.mk.inj (Option.some.inj h)
      exact hmod.trans (.endWait4 _ c)
    split at h
    · obtain ⟨rfl, -⟩ := Prod.mk.inj (Option.some.inj h)
      exact hmod.trans (.endWait4 _ c)
    · obtain ⟨rfl, -⟩ := Prod.mk.inj (Option.some.inj h)
      exact hmod

lemma sysWait4 {w : WaitArgs} {r : Option (Except Errno ℤ)}
    (h : s.sysWait4 c w = some (s', r)) : SameGroups s s' := by
  rw [Sys.sysWait4] at h
  split at h
  · obtain ⟨rfl, -⟩ := Prod.mk.inj (Option.some.inj h)
    exact .refl s
  · exact (modTask s c rfl rfl).trans (waitScan h)

lemma waitAtOnce {w : WaitArgs} {ok : Bool} (h : s.waitAtOnce c w ok = some s') :
    SameGroups s s' := by
  obtain ⟨⟨s₁, r⟩, h₁, h₂⟩ := Option.bind_eq_some_iff.mp h
  have hcall := sysWait4 h₁
  simp only at h₂
  split at h₂
  · exact absurd h₂.symm (Option.some_ne_none _)
  · obtain ⟨⟨s₂, r₂⟩, hrep, rfl⟩ := Option.map_eq_some_iff.mp h₂
    exact hcall.trans (waitReport hrep)
  · exact Option.some.inj h₂ ▸ hcall

lemma exitNotify (s : Sys) (c : Addr) : SameGroups s (s.exitNotify c) := by
  have hforget : SameGroups s (s.forgetOriginalParent c) := fun q => by
    simp only [Sys.forgetOriginalParent]
    split_ifs <;> exact ⟨rfl, rfl⟩
  set f : Task → Task := fun t => { t with
    exitSignal := Sys.exitSignalOf t ((s.forgetOriginalParent c).task
      ((s.forgetOriginalParent c).pPptr c))
    state := .zombie }
  have hloop := of_sameRest (sameRest_adoptChildren c s.fresh ((s.forgetOriginalParent c).modTask c f))
  exact ((hforget.trans (modTask _ c rfl rfl)).trans hloop).trans (.of_task rfl)

end SameGroups

/-- What a step other than a fork can do to the tree. -/
inductive Settles (s : Sys) : Sys → Prop where
  | quiet {s' : Sys} (h : Quiet s s') : Settles s s'
  | attach {c t : Addr} (hc : s.InUser c) (ht : s.Listed t) : Settles s (s.relink c t)
  | exit {c : Addr} (hc : s.InUser c) (hpid : (s.task c).pid ≠ 1) (code : ℤ) :
      Settles s ((s.exitBegin c code).exitNotify c)
  | reap {c p : Addr} {s₁ s' : Sys} (hc : Active s c) (hp : s.Listed p)
      (hz : (s.task p).state = .zombie) (hq : Quiet s s₁) (hr : Reaps s₁ c p s') : Settles s s'

lemma settles_callExec (h : Wf s) {o : Call} (ho : ∀ c flags pid, o ≠ .fork c flags pid)
    (hs : Sys.callExec o s = some s') : Settles s s' ∧ SameGroups s s' := by
  cases o with
  | fork c flags pid => exact absurd rfl (ho c flags pid)
  | attach c pid =>
      obtain ⟨hc, hs⟩ := Option.ite_none_right_eq_some.mp hs
      obtain ⟨⟨s₁, r⟩, hatt, rfl⟩ := Option.map_eq_some_iff.mp hs
      rcases sysAttachProc_cases hatt with ⟨-, -, rfl⟩ | ⟨t, ht, -, rfl⟩
      · exact ⟨.quiet (.refl s₁), .refl s₁⟩
      · have hlt := (findTaskByPid_eq_some (attachTarget_ok ht).1).1
        exact ⟨.attach hc hlt, .of_task (relink_fields s c t).1⟩
  | exit c code =>
      obtain ⟨⟨hc, hpid⟩, hs⟩ := Option.ite_none_right_eq_some.mp hs
      obtain rfl := Option.some.inj hs
      have hbegin : SameGroups s (s.exitBegin c code) :=
        .of_update (t := { s.task c with exiting := true, exitCode := code }) rfl rfl rfl
      exact ⟨.exit hc hpid code, hbegin.trans (.exitNotify _ c)⟩
  | wait4 c w ok =>
      obtain ⟨hc, hs⟩ := Option.ite_none_right_eq_some.mp hs
      refine ⟨?_, .waitAtOnce hs⟩
      rcases h.waitAtOnce_cases hc hs with hq | ⟨p, hp, hz, s₁, hq, hreap⟩
      · exact .quiet hq
      · exact .reap hc.active hp hz hq hreap

namespace Settles

lemma wf (hs : Settles s s') (h : Wf s) (hi : HasInit s) : Wf s' ∧ HasInit s' := by
  cases hs with
  | quiet hq => exact ⟨h.quiet hq, hi.quiet hq⟩
  | attach hc ht =>
      exact ⟨h.relink (h.alive_of_stays (Or.inr hc.1) hc.active.stays).1 ht, hi.relink _ _⟩
  | @exit c hc hpid code =>
      have h₁ := h.exitBegin hc.1 hc.active.stays code
      have hi₁ := hi.exitBegin hpid code
      have hx := exitBegin_exiting s c code
      exact ⟨h₁.exitNotify hi₁ hc.1 hx, hi₁.exitNotify h₁.toLinks hc.1 hx⟩
  | reap hc hp hz hq hr =>
      have hp₁ := (hq.listed _).mpr hp
      have hz₁ := (hq.task _).2.2.2.2.mpr hz
      exact ⟨(h.quiet hq).reaps (hq.active hc) hp₁ hz₁ hr,
        (hi.quiet hq).reaps (h.quiet hq).toLinks (hq.active hc) hp₁ hz₁ hr⟩

/-- No task is added, and no task changes its pid. -/
lemma listed (hs : Settles s s') (h : Wf s) (hi : HasInit s) (hq : s'.Listed q) :
    s.Listed q ∧ (s'.task q).pid = (s.task q).pid := by
  cases hs with
  | quiet hquiet => exact ⟨(hquiet.listed q).mp hq, (hquiet.task q).1⟩
  | @attach c t hc ht =>
      obtain ⟨htask, -, -, -, -, hhash, -⟩ := relink_fields s c t
      rw [Sys.Listed, hhash] at hq
      exact ⟨hq, by rw [htask]⟩
  | @exit c hc hpid code =>
      have h₁ := h.exitBegin hc.1 hc.active.stays code
      have hex := h₁.exited (hi.exitBegin hpid code) hc.1 (exitBegin_exiting s c code)
      rw [Sys.Listed, hex.pidhash] at hq
      refine ⟨hq, (hex.task q).1.trans ?_⟩
      by_cases hqc : q = c
      · rw [hqc, Sys.exitBegin, Sys.goto, Sys.modTask_task_self]
      · rw [Sys.exitBegin, Sys.goto, Sys.modTask_task_of_ne _ _ _ hqc]
  | @reap c p s₁ s' hc hp hz hquiet hr =>
      obtain ⟨s₂, hs₂, rfl⟩ := hr
      obtain ⟨htask, -, -, -, -, hhash, -⟩ := releaseTask_fields hs₂
      have hq₂ : q ∈ s₁.pidhash.erase p := by
        rw [← show s₂.pidhash = s₁.pidhash.erase p from hhash]
        exact hq
      obtain ⟨hqp, hq₁⟩ := (h.quiet hquiet).nodup.mem_erase_iff.mp hq₂
      have hend : ((s₂.endWait4 c).task q).pid = (s₂.task q).pid := by
        by_cases hqc : q = c
        · rw [hqc, Sys.endWait4, Sys.goto, Sys.modTask_task_self]
        · rw [Sys.endWait4, Sys.goto, Sys.modTask_task_of_ne _ _ _ hqc]
      refine ⟨(hquiet.listed q).mp hq₁, hend.trans ?_⟩
      rw [htask, Function.update_of_ne hqp]
      exact (hquiet.task q).1

end Settles

end

/-! ### The invariant -/

/-- The links and the record of `get_pid` are in order. -/
structure JobInv (x : JobSys) : Prop where
  tree : Wf x.sys
  init : HasInit x.sys
  record : x.Record

/-- A fork finds a pid left. -/
def JobSys.PidsLeft (x : JobSys) : JobOp → Prop
  | .fork _ _ => x.HasFree
  | _ => True

section

variable {x x' : JobSys} {p q c : Addr} {v : ℤ} {o : JobOp}

/-- The numbers in use are those of the hashed tasks. -/
lemma JobInv.taken_iff (h : JobInv x) : x.Taken v ↔ ∃ p, x.sys.Listed p ∧ v ∈ x.numbers p := by
  simp only [JobSys.Taken, h.tree.mem_eachTask]

/-- The record stays in order as long as no number comes into use. -/
lemma JobSys.Record.of_taken (hr : x.Record) (hl : x'.lastPid = x.lastPid)
    (hs : x'.nextSafe = x.nextSafe) (ht : ∀ v, x'.Taken v → x.Taken v) : x'.Record := by
  refine ⟨hl ▸ hr.last, hs ▸ hr.safe, ?_, fun hy v hv => ?_⟩
  · rw [hl, hs]
    exact hr.gap.mono fun v hv => Or.inl (ht v hv)
  · rw [hl] at hy ⊢
    exact hr.young hy v (ht v hv)

namespace JobInv

/-- A step of the tree in which nobody forks. -/
lemma settles (h : JobInv x) {s' : Sys} (hs : Settles x.sys s') (hg : SameGroups x.sys s') :
    JobInv { x with sys := s' } := by
  obtain ⟨hw, hi⟩ := hs.wf h.tree h.init
  refine ⟨hw, hi, h.record.of_taken rfl rfl ?_⟩
  rintro v ⟨q, hq, hv⟩
  obtain ⟨hlq, hpid⟩ := hs.listed h.tree h.init (hw.mem_eachTask.mp hq)
  refine h.taken_iff.mpr ⟨q, hlq, ?_⟩
  have hnum : ({ x with sys := s' } : JobSys).numbers q = x.numbers q := by
    simp only [JobSys.numbers, hpid, (hg q).1, (hg q).2]
  rwa [hnum] at hv

/-- A process enters a group and a session whose numbers are in use. -/
lemma enterGroup (h : JobInv x) (hp : x.sys.Listed p) {g n : ℤ} (hg : x.Taken g) (hn : x.Taken n) :
    JobInv (x.enterGroup p g n) := by
  have hq : Quiet x.sys (x.sys.modTask p fun t => { t with pgrp := g }) :=
    Quiet.modTask rfl rfl rfl id Iff.rfl
  refine ⟨h.tree.quiet hq, h.init.quiet hq, h.record.of_taken rfl rfl ?_⟩
  rintro v ⟨q, hqe, hv⟩
  have hlq : x.sys.Listed q := (h.tree.quiet hq).mem_eachTask.mp hqe
  by_cases hqp : q = p
  · have hnum : (x.enterGroup p g n).numbers q
        = [(x.sys.task p).pid, g, (x.sys.task p).tgid, n] := by
      simp [JobSys.numbers, JobSys.enterGroup, hqp]
    rw [hnum] at hv
    simp only [List.mem_cons, List.not_mem_nil, or_false] at hv
    rcases hv with rfl | rfl | rfl | rfl
    · exact h.taken_iff.mpr ⟨p, hp, by simp [JobSys.numbers]⟩
    · exact hg
    · exact h.taken_iff.mpr ⟨p, hp, by simp [JobSys.numbers]⟩
    · exact hn
  · have hnum : (x.enterGroup p g n).numbers q = x.numbers q := by
      simp only [JobSys.numbers, JobSys.enterGroup, Sys.modTask_task_of_ne _ _ _ hqp,
        Function.update_of_ne hqp]
    exact h.taken_iff.mpr ⟨q, hlq, hnum ▸ hv⟩

lemma taken_of_isGroup (h : JobInv x) (hp : x.sys.Listed p) {g : ℤ} (hg : x.IsGroup p g) :
    x.Taken g := by
  rcases hg with rfl | ⟨q, hq, rfl⟩
  · exact h.taken_iff.mpr ⟨p, hp, by simp [JobSys.numbers]⟩
  · exact h.taken_iff.mpr ⟨q, hq, by simp [JobSys.numbers]⟩

/-! ### Forking -/

/-- The state after a fork by `c` that was given `pid`. -/
def Forked (x : JobSys) (c : Addr) (flags : CloneFlags) (pid safe : ℤ) : JobSys where
  sys := x.sys.forkChild c flags pid
  session := Function.update x.session x.sys.fresh (x.session c)
  lastPid := pid
  nextSafe := safe

/-- The number a fork is given is positive. -/
lemma finds_pos (h : JobInv x) {pid safe : ℤ} (hf : JobSys.Finds x pid safe) : 0 < pid := by
  have hl := h.record.last
  rcases hf.first.bounds.1 with hb | hb
  · exact lt_of_lt_of_le (by decide) hb
  · omega

/-- **What `do_fork` does**: it fails, or forks with the first free number. -/
lemma doFork (h : JobInv x) (hc : x.sys.InUser c) (hfree : x.HasFree) (flags : CloneFlags) :
    (∃ e, x.doFork c flags = some (x, .error e) ∧ ∀ pid, (x.sys.doFork c flags pid).1 = x.sys)
      ∨ ∃ pid safe, JobSys.Finds x pid safe
        ∧ x.doFork c flags = some (Forked x c flags pid safe, .ok pid)
        ∧ (x.sys.doFork c flags pid).1 = x.sys.forkChild c flags pid := by
  have hpos := h.tree.pids c hc.1
  by_cases hns : flags.cloneNewns ∧ flags.cloneFs
  · refine Or.inl ⟨.einval, if_pos hns, fun pid => ?_⟩
    rw [Sys.doFork, if_pos hns]
  by_cases hcp : flags.clonePid = true
  · have hbad : flags.clonePid = true ∧ (x.sys.task c).pid ≠ 0 := ⟨hcp, hpos.ne'⟩
    refine Or.inl ⟨.eperm, (if_neg hns).trans (if_pos hbad), fun pid => ?_⟩
    rw [Sys.doFork, if_neg hns, if_pos hbad]
  · have hcp' : flags.clonePid = false := by simpa using hcp
    obtain ⟨x₁, pid, hget, hsys, hsession, hans⟩ := h.record.getPid c
    obtain ⟨-, hf, hlast⟩ | ⟨hno, -⟩ := hans
    · have hne := (h.finds_pos hf).ne'
      refine Or.inr ⟨pid, x₁.nextSafe, hf, ?_, ?_⟩
      · rw [JobSys.doFork, if_neg hns, if_neg fun hb => hcp hb.1, hcp', hget, Option.map_some]
        simp only [hne, false_and, if_false]
        rw [Forked, hsys, hsession, hlast]
      · rw [Sys.doFork, if_neg hns, if_neg fun hb => hcp hb.1]
        simp only [hcp', Bool.false_eq_true, if_false, hne, false_and]
    · exact absurd hfree hno

/-- A fork keeps the invariant: of the numbers of the child only its pid is new. -/
lemma forked (h : JobInv x) (hc : x.sys.InUser c) {flags : CloneFlags} {pid safe : ℤ}
    (hf : JobSys.Finds x pid safe) : JobInv (Forked x c flags pid safe) := by
  have hpos := h.finds_pos hf
  have hother : ∀ q, x.sys.Listed q → (x.sys.task q).pid ≠ pid := fun q hq he =>
    hf.first.free (h.taken_iff.mpr ⟨q, hq, by simp [JobSys.numbers, he]⟩)
  have hw : Wf (Forked x c flags pid safe).sys :=
    h.tree.forkChild (Or.inr hc.1) hc.active.stays (fun _ => hc.1) hpos hother
  obtain ⟨htask, -, hhash, -⟩ := forkChild_fields x.sys c flags pid
  have htaken : ∀ v, (Forked x c flags pid safe).Taken v → x.Taken v ∨ v = pid := by
    rintro v ⟨q, hq, hv⟩
    have hlq : q ∈ x.sys.fresh :: x.sys.pidhash := hhash ▸ hw.mem_eachTask.mp hq
    have hcn : ∀ u ∈ x.numbers c, x.Taken u := fun u hu => h.taken_iff.mpr ⟨c, hc.1, hu⟩
    simp only [JobSys.numbers, Forked, htask] at hv
    by_cases hqf : q = x.sys.fresh
    · rw [hqf, Function.update_self, Function.update_self] at hv
      simp only [Sys.childOf, List.mem_cons, List.not_mem_nil, or_false] at hv
      rcases hv with rfl | rfl | rfl | rfl
      · exact Or.inr rfl
      · exact Or.inl (hcn _ (by simp [JobSys.numbers]))
      · split_ifs
        · exact Or.inl (hcn _ (by simp [JobSys.numbers]))
        · exact Or.inr rfl
      · exact Or.inl (hcn _ (by simp [JobSys.numbers]))
    · rw [Function.update_of_ne hqf, Function.update_of_ne hqf] at hv
      exact Or.inl (h.taken_iff.mpr ⟨q, (List.mem_cons.mp hlq).resolve_left hqf, hv⟩)
  have hl := h.record.last
  refine ⟨hw, h.init.forkChild h.tree.toLinks c flags pid, ⟨hpos.le, hf.first.bounds.2⟩, hf.bound, ?_,
    fun hy v hv => ?_⟩
  · refine hf.gap.mono fun v hv => ?_
    rcases htaken v hv with hold | rfl
    · exact Or.inl hold
    · exact Or.inr (Or.inl le_rfl)
  · -- still the first round: the number is the next one after `last_pid`
    have hlt : x.lastPid < pid := hf.first.bounds.1.resolve_left (not_le.mpr hy)
    rcases htaken v hv with hold | rfl
    · exact (h.record.young (hlt.trans hy) v hold).trans hlt.le
    · exact le_rfl

/-! ### Every step -/

/-- The numbers in use after booting are those of `init`. -/
lemma booted_taken (hv : JobSys.booted.Taken v) : v = 0 ∨ v = 1 := by
  obtain ⟨q, hq, hv⟩ := hv
  obtain rfl : q = childReaper := List.mem_singleton.mp (booted_wf.mem_eachTask.mp hq)
  have hnum : JobSys.booted.numbers childReaper = [1, 0, 1, 0] := rfl
  rw [hnum] at hv
  simp only [List.mem_cons, List.not_mem_nil, or_false] at hv
  omega

lemma booted : JobInv JobSys.booted := by
  refine ⟨booted_wf, booted_hasInit, by decide, le_rfl, fun v hv hlt => ?_, fun _ v hv => ?_⟩
  · have hgt : (1 : ℤ) < v := hlt
    rcases booted_taken hv with rfl | rfl <;> exact absurd hgt (by decide)
  · change v ≤ 1
    rcases booted_taken hv with rfl | rfl <;> decide

/-- **What a step can do**: nothing, a fork with the first free number, a step of the tree in which
nobody forks, or a process enters a group and a session whose numbers are in use. -/
lemma exec_cases (h : JobInv x) (hfree : x.PidsLeft o) (hs : JobSys.exec o x = some x') :
    x' = x
      ∨ (∃ c flags pid safe, x.sys.InUser c ∧ JobSys.Finds x pid safe
        ∧ x' = Forked x c flags pid safe)
      ∨ (∃ s', Settles x.sys s' ∧ SameGroups x.sys s' ∧ x' = { x with sys := s' })
      ∨ ∃ p g n, x.sys.Listed p ∧ x.Taken g ∧ x.Taken n ∧ x' = x.enterGroup p g n := by
  have hon : ∀ {f : Sys → Option Sys},
      (∀ s', f x.sys = some s' → Settles x.sys s' ∧ SameGroups x.sys s') → x.onSys f = some x' →
      ∃ s', Settles x.sys s' ∧ SameGroups x.sys s' ∧ x' = { x with sys := s' } := by
    intro f hf hs
    obtain ⟨s', hs', rfl⟩ := Option.map_eq_some_iff.mp hs
    exact ⟨s', (hf s' hs').1, (hf s' hs').2, rfl⟩
  cases o with
  | fork c flags =>
      obtain ⟨hc, hs⟩ := Option.ite_none_right_eq_some.mp hs
      obtain ⟨⟨x₁, r⟩, hfork, rfl⟩ := Option.map_eq_some_iff.mp hs
      rcases h.doFork hc hfree flags with ⟨e, he, -⟩ | ⟨pid, safe, hf, he, -⟩
      · rw [he] at hfork
        exact Or.inl (Prod.mk.inj (Option.some.inj hfork)).1.symm
      · rw [he] at hfork
        exact Or.inr (Or.inl ⟨c, flags, pid, safe, hc, hf,
          (Prod.mk.inj (Option.some.inj hfork)).1.symm⟩)
  | attach c pid =>
      exact Or.inr (Or.inr (Or.inl
        (hon (fun s' => settles_callExec h.tree fun _ _ _ he => Call.noConfusion he) hs)))
  | exit c code =>
      exact Or.inr (Or.inr (Or.inl
        (hon (fun s' => settles_callExec h.tree fun _ _ _ he => Call.noConfusion he) hs)))
  | wait4 c w ok =>
      exact Or.inr (Or.inr (Or.inl
        (hon (fun s' => settles_callExec h.tree fun _ _ _ he => Call.noConfusion he) hs)))
  | setpgid p g =>
      obtain ⟨⟨hp, hg⟩, hs⟩ := Option.ite_none_right_eq_some.mp hs
      exact Or.inr (Or.inr (Or.inr ⟨p, g, x.session p, hp, h.taken_of_isGroup hp hg,
        h.taken_iff.mpr ⟨p, hp, by simp [JobSys.numbers]⟩, (Option.some.inj hs).symm⟩))
  | setsid c =>
      obtain ⟨hc, hs⟩ := Option.ite_none_right_eq_some.mp hs
      have hpid : x.Taken (x.sys.task c).pid := h.taken_iff.mpr ⟨c, hc.1, by simp [JobSys.numbers]⟩
      exact Or.inr (Or.inr (Or.inr ⟨c, _, _, hc.1, hpid, hpid, (Option.some.inj hs).symm⟩))
  | daemonize c =>
      obtain ⟨hc, hs⟩ := Option.ite_none_right_eq_some.mp hs
      have hone : x.Taken 1 :=
        h.taken_iff.mpr ⟨childReaper, h.init.listed, by simp [JobSys.numbers, h.init.pid]⟩
      exact Or.inr (Or.inr (Or.inr ⟨c, 1, 1, hc.1, hone, hone, (Option.some.inj hs).symm⟩))
  | setCred c u k =>
      refine Or.inr (Or.inr (Or.inl (hon (fun s' hs' => ?_) hs)))
      obtain ⟨-, hs'⟩ := Option.ite_none_right_eq_some.mp hs'
      exact Option.some.inj hs' ▸ ⟨.quiet (.modTask rfl rfl rfl id Iff.rfl), .modTask _ _ rfl rfl⟩
  | signal p b =>
      refine Or.inr (Or.inr (Or.inl (hon (fun s' hs' => ?_) hs)))
      obtain ⟨-, hs'⟩ := Option.ite_none_right_eq_some.mp hs'
      exact Option.some.inj hs' ▸ ⟨.quiet (.modTask rfl rfl rfl id Iff.rfl), .modTask _ _ rfl rfl⟩
  | stop p code =>
      refine Or.inr (Or.inr (Or.inl (hon (fun s' hs' => ?_) hs)))
      obtain ⟨hp, hs'⟩ := Option.ite_none_right_eq_some.mp hs'
      refine Option.some.inj hs' ▸ ⟨.quiet (.modTask rfl rfl rfl id ?_), .modTask _ _ rfl rfl⟩
      exact iff_of_false (by simp) hp.active.state
  | cont p =>
      refine Or.inr (Or.inr (Or.inl (hon (fun s' hs' => ?_) hs)))
      obtain ⟨⟨-, hst⟩, hs'⟩ := Option.ite_none_right_eq_some.mp hs'
      refine Option.some.inj hs' ▸ ⟨.quiet (.modTask rfl rfl rfl id ?_), .modTask _ _ rfl rfl⟩
      exact iff_of_false (by simp) (by simp [hst])

/-- **Every step keeps the links and the record in order**, as long as a fork finds a pid left. -/
theorem step (h : JobInv x) (hfree : x.PidsLeft o) (hs : JobSys.exec o x = some x') : JobInv x' := by
  rcases h.exec_cases hfree hs with rfl | ⟨c, flags, pid, safe, hc, hf, rfl⟩
    | ⟨s', hset, hg, rfl⟩ | ⟨p, g, n, hp, hg, hn, rfl⟩
  · exact h
  · exact h.forked hc hf
  · exact h.settles hset hg
  · exact h.enterGroup hp hg hn

/-! ### The pid as a choice of the caller -/

/-- What `get_pid` finds is free for the machine in which the caller chooses. -/
lemma pidFree (h : JobInv x) {pid safe : ℤ} (hf : JobSys.Finds x pid safe) : x.sys.PidFree pid := by
  refine ⟨h.finds_pos hf, fun q hq => ?_⟩
  have hno : ∀ v ∈ x.numbers q, v ≠ pid := fun v hv he =>
    hf.first.free (h.taken_iff.mpr ⟨q, hq, he ▸ hv⟩)
  exact ⟨hno _ (by simp [JobSys.numbers]), hno _ (by simp [JobSys.numbers]),
    hno _ (by simp [JobSys.numbers])⟩

/-- A step of the tree that is a run of the other machine. -/
lemma onSys_refines {f : Sys → Option Sys}
    (hf : ∀ s', f x.sys = some s' → ∃ os, run Sys.exec os x.sys = some s')
    (hs : x.onSys f = some x') : ∃ os, run Sys.exec os x.sys = some x'.sys := by
  obtain ⟨s', hs', rfl⟩ := Option.map_eq_some_iff.mp hs
  exact hf s' hs'

lemma run_one {o : Op} {s s' : Sys} (h : Sys.exec o s = some s') : run Sys.exec [o] s = some s' :=
  run_cons_eq_some.mpr ⟨s', h, rfl⟩

lemma run_two {o₁ o₂ : Op} {s s₁ s' : Sys} (h₁ : Sys.exec o₁ s = some s₁)
    (h₂ : Sys.exec o₂ s₁ = some s') : run Sys.exec [o₁, o₂] s = some s' :=
  run_cons_eq_some.mpr ⟨s₁, h₁, run_one h₂⟩

/-- `sys_wait4` in one step is the call, and the report where it sleeps in between. -/
lemma waitAtOnce_refines {s s' : Sys} {w : WaitArgs} {ok : Bool} (hc : s.InUser c)
    (hs : s.waitAtOnce c w ok = some s') : ∃ os, run Sys.exec os s = some s' := by
  obtain ⟨⟨s₁, r⟩, hcall, hrest⟩ := Option.bind_eq_some_iff.mp hs
  have h₁ : Sys.exec (.wait4 c w) s = some s₁ := by
    rw [Sys.exec, if_pos hc, hcall, Option.map_some]
  simp only at hrest
  split at hrest
  · exact absurd hrest.symm (Option.some_ne_none _)
  · next w' p zombie hplace =>
      have h₂ : Sys.exec (.report c ok) s₁ = some s' := by
        simp only [Sys.exec, hplace]
        exact hrest
      exact ⟨_, run_two h₁ h₂⟩
  · obtain rfl := Option.some.inj hrest
    exact ⟨_, run_one h₁⟩

/-- **Every step is a run of the machine in which the caller of `do_fork` chooses the pid.** -/
theorem refines (h : JobInv x) (hfree : x.PidsLeft o) (hs : JobSys.exec o x = some x') :
    ∃ os, run Sys.exec os x.sys = some x'.sys := by
  cases o with
  | fork c flags =>
      obtain ⟨hc, hs⟩ := Option.ite_none_right_eq_some.mp hs
      obtain ⟨⟨x₁, r⟩, hfork, rfl⟩ := Option.map_eq_some_iff.mp hs
      rcases h.doFork hc hfree flags with ⟨e, he, -⟩ | ⟨pid, safe, hf, he, hsys⟩
      · rw [he] at hfork
        obtain ⟨rfl, -⟩ := Prod.mk.inj (Option.some.inj hfork)
        exact ⟨[], rfl⟩
      · rw [he] at hfork
        obtain ⟨rfl, -⟩ := Prod.mk.inj (Option.some.inj hfork)
        refine ⟨[.fork c flags pid], run_one ?_⟩
        rw [Sys.exec, if_pos ⟨hc, h.pidFree hf⟩, hsys]
        rfl
  | attach c pid => exact onSys_refines (fun s' hs' => ⟨[.attach c pid], run_one hs'⟩) hs
  | exit c code =>
      refine onSys_refines (fun s' hs' => ⟨[.exit c code, .exitNotify c], ?_⟩) hs
      obtain ⟨hc, hs'⟩ := Option.ite_none_right_eq_some.mp hs'
      have hgone : (x.sys.exitBegin c code).Listed c ∧ (x.sys.exitBegin c code).place c = .exiting :=
        ⟨hc.1.1, Sys.goto_place_self _ _ _⟩
      exact run_two (if_pos hc) ((if_pos hgone).trans hs')
  | wait4 c w ok =>
      refine onSys_refines (fun s' hs' => ?_) hs
      obtain ⟨hc, hs'⟩ := Option.ite_none_right_eq_some.mp hs'
      exact waitAtOnce_refines hc hs'
  | setpgid p g =>
      obtain ⟨⟨hp, -⟩, hs⟩ := Option.ite_none_right_eq_some.mp hs
      obtain rfl := Option.some.inj hs
      exact ⟨[.setpgid p g], run_one (if_pos hp)⟩
  | setsid c =>
      obtain ⟨hc, hs⟩ := Option.ite_none_right_eq_some.mp hs
      obtain rfl := Option.some.inj hs
      exact ⟨[.setpgid c (x.sys.task c).pid], run_one (if_pos hc.1)⟩
  | daemonize c =>
      obtain ⟨hc, hs⟩ := Option.ite_none_right_eq_some.mp hs
      obtain rfl := Option.some.inj hs
      exact ⟨[.setpgid c 1], run_one (if_pos hc.1)⟩
  | setCred c u k => exact onSys_refines (fun s' hs' => ⟨[.setCred c u k], run_one hs'⟩) hs
  | signal p b => exact onSys_refines (fun s' hs' => ⟨[.signal p b], run_one hs'⟩) hs
  | stop p code => exact onSys_refines (fun s' hs' => ⟨[.stop p code], run_one hs'⟩) hs
  | cont p => exact onSys_refines (fun s' hs' => ⟨[.cont p], run_one hs'⟩) hs

end JobInv

/-! ### Runs -/

section

variable {ops : List JobOp}

/-- With few tasks there is a pid left: a task has at most four numbers. -/
lemma hasFree_of_few (h : 4 * x.sys.eachTask.length + 1 < (pidMax - pidLow).toNat) : x.HasFree := by
  by_contra hno
  have hall : (Finset.Ico pidLow pidMax).erase x.lastPid
      ⊆ (x.sys.eachTask.flatMap x.numbers).toFinset := by
    intro v hv
    obtain ⟨hne, hv⟩ := Finset.mem_erase.mp hv
    obtain ⟨hlow, hmax⟩ := Finset.mem_Ico.mp hv
    by_contra hfree
    refine hno ⟨v, hlow, hmax, hne, fun ht => hfree ?_⟩
    obtain ⟨p, hp, hnum⟩ := ht
    exact List.mem_toFinset.mpr (List.mem_flatMap.mpr ⟨p, hp, hnum⟩)
  have hlen : (x.sys.eachTask.flatMap x.numbers).length = 4 * x.sys.eachTask.length := by
    have hfour : ∀ p, (x.numbers p).length = 4 := fun _ => rfl
    simp only [List.length_flatMap, hfour, List.map_const', List.sum_replicate, smul_eq_mul]
    exact Nat.mul_comm _ _
  have hcard : (pidMax - pidLow).toNat - 1 ≤ 4 * x.sys.eachTask.length :=
    calc (pidMax - pidLow).toNat - 1
        = (Finset.Ico pidLow pidMax).card - 1 := by rw [Int.card_Ico]
      _ ≤ ((Finset.Ico pidLow pidMax).erase x.lastPid).card := Finset.pred_card_le_card_erase
      _ ≤ (x.sys.eachTask.flatMap x.numbers).toFinset.card := Finset.card_le_card hall
      _ ≤ (x.sys.eachTask.flatMap x.numbers).length := List.toFinset_card_le _
      _ = 4 * x.sys.eachTask.length := hlen
  exact absurd (Nat.lt_sub_of_add_lt h) (not_lt.mpr hcard)

lemma pidsLeft_of_few (h : 4 * x.sys.eachTask.length + 1 < (pidMax - pidLow).toNat) (o : JobOp) :
    x.PidsLeft o := by
  cases o with
  | fork c flags => exact hasFree_of_few h
  | _ => trivial

/-- `init` forks 2, which starts a session and forks 3; 2 exits and is reaped, and its number stays the
session of 3; then `init` forks 4. -/
def sessionRun : List JobOp :=
  [.fork 1 .plain, .setsid 2, .fork 2 .plain, .exit 2 0, .wait4 1 (.waitpid (-1) true) true,
    .fork 1 .plain]

lemma sessionRun_runs : ∃ x, run JobSys.exec sessionRun JobSys.booted = some x :=
  Option.isSome_iff_exists.mp (by decide +kernel)

lemma sessionRun_left : Along JobSys.exec JobSys.PidsLeft sessionRun JobSys.booted := by
  have hfew : Along JobSys.exec
      (fun x _ => 4 * x.sys.eachTask.length + 1 < (pidMax - pidLow).toNat) sessionRun
      JobSys.booted := by decide +kernel
  exact hfew.mono fun x o h => pidsLeft_of_few h o

theorem jobInv_of_run (h : run JobSys.exec ops JobSys.booted = some x)
    (hleft : Along JobSys.exec JobSys.PidsLeft ops JobSys.booted) : JobInv x :=
  run_induct_along (fun _ _ _ hx hok hs => JobInv.step hx hok hs) JobInv.booted hleft h

/-- **`get_pid` returns the first free number after the last one**, in every state reached while there
was a pid left for every fork; it returns `0` exactly when there is none left now. -/
theorem getPid_of_run (h : run JobSys.exec ops JobSys.booted = some x)
    (hleft : Along JobSys.exec JobSys.PidsLeft ops JobSys.booted) (c : Addr) :
    ∃ x' pid, x.getPid c false = some (x', pid) ∧ x'.sys = x.sys
      ∧ (x.HasFree → First pidLow pidMax x.Taken x.lastPid pid ∧ 0 < pid ∧ x'.lastPid = pid)
      ∧ (¬ x.HasFree → pid = 0) := by
  have hinv := jobInv_of_run h hleft
  obtain ⟨x', pid, hget, hsys, -, hans⟩ := hinv.record.getPid c
  refine ⟨x', pid, hget, hsys, fun hfree => ?_, fun hno => ?_⟩
  · rcases hans with ⟨-, hf, hlast⟩ | ⟨hno, -⟩
    · exact ⟨hf.first, hinv.finds_pos hf, hlast⟩
    · exact absurd hfree hno
  · rcases hans with ⟨hfree, -, -⟩ | ⟨-, hz⟩
    · exact absurd hfree hno
    · exact hz

theorem getPid_sessionRun : ∃ x, run JobSys.exec sessionRun JobSys.booted = some x
    ∧ ∃ x' pid, x.getPid 1 false = some (x', pid) ∧ x'.sys = x.sys
      ∧ (x.HasFree → First pidLow pidMax x.Taken x.lastPid pid ∧ 0 < pid ∧ x'.lastPid = pid)
      ∧ (¬ x.HasFree → pid = 0) := by
  obtain ⟨x, hx⟩ := sessionRun_runs
  exact ⟨x, hx, getPid_of_run hx sessionRun_left 1⟩

/-- **The allocator refines the choice of the caller**: what `get_pid` gives out is always a number
that the machine without `get_pid` lets the caller choose. -/
theorem exec_of_run (h : run JobSys.exec ops JobSys.booted = some x)
    (hleft : Along JobSys.exec JobSys.PidsLeft ops JobSys.booted) :
    ∃ os, run Sys.exec os Sys.booted = some x.sys := by
  refine (run_induct_along (P := fun x => JobInv x ∧ ∃ os, run Sys.exec os Sys.booted = some x.sys)
    (fun y o y' hy hok hs => ⟨hy.1.step hok hs, ?_⟩) ⟨JobInv.booted, [], rfl⟩ hleft h).2
  obtain ⟨os, hos⟩ := hy.2
  obtain ⟨os', hos'⟩ := hy.1.refines hok hs
  exact ⟨os ++ os', by rw [run_append, hos, Option.bind_some, hos']⟩

theorem exec_sessionRun : ∃ x, run JobSys.exec sessionRun JobSys.booted = some x
    ∧ ∃ os, run Sys.exec os Sys.booted = some x.sys := by
  obtain ⟨x, hx⟩ := sessionRun_runs
  exact ⟨x, hx, exec_of_run hx sessionRun_left⟩

end

end

end Os234123.Family
