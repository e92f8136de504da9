import Os234123.Family.Threads

/-!
What `sys_wait4` comes to, in terms of the tree.

* `Sys.Awaits`: the children a call is about, as its arguments describe them;
* `mem_candidates`, `reportsFirst_of_ready`: the double loop over threads and children looks at these,
  and takes the first one that has something to report;
* `WaitOutcome`: what a call comes to, with the value it returns, the status it writes and all it does
  to the tree: nobody to wait for, nothing to report, a stopped child, or a zombie (`Reaped`);
* `waitReport_outcome`: the report of a child, whether or not user memory can be written;
* `sysWait4_of_run`: so it is in every reachable state.

The CPU times of a zombie, which the call adds to those of the caller, are not part of the tree.
-/

namespace Os234123.Family

open Machine

/-- `p` is one of the children the call of `c` is about: a child of `c` or, unless `__WNOTHREAD`, of
another thread of its group, and the selector and the clone options match it. -/
def Sys.Awaits (s : Sys) (c : Addr) (w : WaitArgs) (p : Addr) : Prop :=
  s.Listed p ∧ w.Selects (s.task c) (s.task p)
    ∧ (s.pPptr p = c ∨ w.options.wnothread = false ∧ s.Listed (s.pPptr p)
      ∧ (s.task (s.pPptr p)).tgid = (s.task c).tgid)

/-- `p` is the first of them that has something to report, in the order of the two loops. -/
def Sys.ReportsFirst (s : Sys) (c : Addr) (w : WaitArgs) (p : Addr) : Prop :=
  s.Awaits c w p ∧ w.Reports (s.task p) ∧ ∃ before after, s.waitedFor c w = before ++ p :: after
    ∧ ∀ q ∈ before, s.Awaits c w q → ¬ w.Reports (s.task q)

/-- There are such children, and none of them has anything to report. -/
def Sys.NoReport (s : Sys) (c : Addr) (w : WaitArgs) : Prop :=
  (∃ p, s.Awaits c w p) ∧ ∀ p, s.Awaits c w p → ¬ w.Reports (s.task p)

/-- The state in which the children are looked at. -/
def Sys.scanning (s : Sys) (c : Addr) (w : WaitArgs) : Sys :=
  s.modTask c fun t => { t with waitBusy := w.pid, state := .interruptible }

/-- Nothing has changed but that `c` waits for nobody. -/
def Sys.stopWaiting (s : Sys) (c : Addr) : Sys := s.modTask c fun t => { t with waitBusy := 0 }

/-- `c` has reaped the zombie `p`: it is gone from the hash table, from the children of its parent and
from its thread group, and nothing else has changed.  `release_task` was called for it as a child of
its parent, with its `first_time_slice`. -/
structure Reaped (s : Sys) (c p : Addr) (s' : Sys) : Prop where
  listed : ∀ q, s'.Listed q ↔ s.Listed q ∧ q ≠ p
  caller : s'.task c = { s.task c with waitBusy := 0 }
  task : ∀ q, q ≠ c → q ≠ p → s'.task q = s.task q
  parents : s'.pPptr = s.pPptr ∧ s'.pOpptr = s.pOpptr
  children : ∀ a, s'.children a = (s.children a).erase p
  threads : ∀ a q, s'.Listed a → (q ∈ s'.threads a ↔ q ∈ s.threads a ∧ q ≠ p)
  place : s'.place = s.place
  log : s'.log = .released c p (s.pPptr p) (s.task p).firstTimeSlice :: .returned c p :: s.log

/-- What a call of `sys_wait4` by `c` comes to: the state, what it returns unless it sleeps, and what
it writes at `stat_addr`. -/
inductive WaitOutcome (s : Sys) (c : Addr) (w : WaitArgs) (m : UserMemory) :
    Sys → Option (Except Errno ℤ) → Option (BitVec 32) → Prop where
  | invalid (hw : w.options.unknown = true) : WaitOutcome s c w m s (some (.error .einval)) none
  | nobody (hw : w.options.unknown = false) (hnone : ∀ p, ¬ s.Awaits c w p) :
      WaitOutcome s c w m (s.stopWaiting c) (some (.error .echild)) none
  | nothing (hw : w.options.unknown = false) (hno : s.NoReport c w)
      (hhang : w.options.wnohang = true) :
      WaitOutcome s c w m (s.stopWaiting c) (some (.ok 0)) none
  | interrupted (hw : w.options.unknown = false) (hno : s.NoReport c w)
      (hhang : w.options.wnohang = false) (hsig : (s.task c).sigpending = true) :
      WaitOutcome s c w m (s.stopWaiting c) (some (.error .erestartsys)) none
  | asleep (hw : w.options.unknown = false) (hno : s.NoReport c w)
      (hhang : w.options.wnohang = false) (hsig : (s.task c).sigpending = false) :
      WaitOutcome s c w m ((s.scanning c w).goto c (.waiting w)) none none
  | fault {p : Addr} (hw : w.options.unknown = false) (hp : s.ReportsFirst c w p)
      (hm : ¬ w.AccessOk m) :
      WaitOutcome s c w m (s.stopWaiting c) (some (.error .efault)) none
  | stopped {p : Addr} (hw : w.options.unknown = false) (hp : s.ReportsFirst c w p)
      (hst : (s.task p).state = .stopped) (hm : w.AccessOk m) :
      WaitOutcome s c w m ((s.modTask p fun t => { t with exitCode := 0 }).stopWaiting c)
        (some (.ok (s.task p).pid))
        (if w.statAddr then some (BitVec.ofInt 32 (s.task p).exitCode <<< 8 ||| 0x7f) else none)
  | reaped {s' : Sys} {p : Addr} (hw : w.options.unknown = false) (hp : s.ReportsFirst c w p)
      (hz : (s.task p).state = .zombie) (hm : w.AccessOk m) (hr : Reaped s c p s') :
      WaitOutcome s c w m s' (some (.ok (s.task p).pid))
        (if w.statAddr then some (BitVec.ofInt 32 (s.task p).exitCode) else none)

section

variable {s s' : Sys} {c p : Addr} {w : WaitArgs}

/-- **The children a call looks at.** -/
lemma mem_waitedFor_iff (h : Links s) (ht : ThreadRings s) (hc : s.Listed c) :
    p ∈ s.waitedFor c w ↔ s.Listed p ∧ (s.pPptr p = c ∨ w.options.wnothread = false
      ∧ s.Listed (s.pPptr p) ∧ (s.task (s.pPptr p)).tgid = (s.task c).tgid) := by
  simp only [Sys.waitedFor, List.mem_flatMap, h.mem_children]
  constructor
  · rintro ⟨a, ha, hp, rfl⟩
    refine ⟨hp, ?_⟩
    split at ha
    · exact Or.inl (List.mem_singleton.mp ha)
    · next hno => exact Or.inr ⟨by simpa using hno, (ht.mem_threads h hc).mp ha⟩
  · rintro ⟨hp, he | ⟨hno, hl, hg⟩⟩
    · refine ⟨c, ?_, hp, he⟩
      split
      · exact List.mem_singleton_self c
      · exact (ht.mem_threads h hc).mpr ⟨hc, rfl⟩
    · refine ⟨s.pPptr p, ?_, hp, rfl⟩
      rw [if_neg (by simp [hno])]
      exact (ht.mem_threads h hc).mpr ⟨hl, hg⟩

/-- The state in which the children are looked at, as the call gets there. -/
lemma scanning_eq (s : Sys) (c : Addr) (w : WaitArgs) :
    ((s.modTask c fun t => { t with waitBusy := w.pid }).modTask c fun t =>
      { t with state := .interruptible }) = s.scanning c w := by
  simp only [Sys.scanning, Sys.modTask, Function.update_self, Function.update_idem]

lemma scanning_task (s : Sys) (c : Addr) (w : WaitArgs) : (s.scanning c w).task
    = Function.update s.task c { s.task c with waitBusy := w.pid, state := .interruptible } := rfl

lemma Quiet.scanning (hc : s.InUser c) (w : WaitArgs) : Quiet s (s.scanning c w) :=
  Quiet.modTask rfl rfl rfl id (iff_of_false (by simp) hc.active.state)

/-- The match does not depend on what the call has written. -/
lemma selects_scanning : w.Selects ((s.scanning c w).task c) ((s.scanning c w).task p)
    ↔ w.Selects (s.task c) (s.task p) := by
  rw [scanning_task, Function.update_self]
  by_cases hp : p = c
  · rw [hp, Function.update_self]
    rfl
  · rw [Function.update_of_ne hp]
    rfl

/-- The caller itself has nothing to report, neither before nor while it looks. -/
lemma reports_scanning (hc : s.InUser c) :
    w.Reports ((s.scanning c w).task p) ↔ w.Reports (s.task p) := by
  rw [scanning_task]
  by_cases hp : p = c
  · rw [hp, Function.update_self]
    simp [WaitArgs.Reports, hc.2.2]
  · rw [Function.update_of_ne hp]

/-- The caller is not the child that is found. -/
lemma Sys.ReportsFirst.ne (hp : s.ReportsFirst c w p) (hc : s.InUser c) : p ≠ c := by
  rintro rfl
  have hr := hp.2.1
  simp [WaitArgs.Reports, hc.2.2] at hr

/-- **The candidates** are the children the call is about. -/
lemma mem_candidates (h : Links s) (ht : ThreadRings s) (hc : s.InUser c) :
    p ∈ (s.scanning c w).candidates c w ↔ s.Awaits c w p := by
  have hwait : (s.scanning c w).waitedFor c w = s.waitedFor c w := rfl
  rw [Sys.candidates, List.mem_filter, hwait, mem_waitedFor_iff h ht hc.1, decide_eq_true_iff,
    selects_scanning, Sys.Awaits]
  tauto

/-- **The child that is found** is the first one. -/
lemma reportsFirst_of_ready (h : Links s) (ht : ThreadRings s) (hc : s.InUser c)
    (hready : (s.scanning c w).readyChild c w = some p) : s.ReportsFirst c w p := by
  obtain ⟨hmem, hr⟩ := readyChild_eq_some hready
  refine ⟨(mem_candidates h ht hc).mp hmem, (reports_scanning hc).mp hr, ?_⟩
  rw [Sys.readyChild, Sys.candidates, List.find?_filter, List.find?_eq_some_iff_append] at hready
  obtain ⟨-, before, after, hsplit, hno⟩ := hready
  refine ⟨before, after, hsplit, fun q hq hw hrq => ?_⟩
  have hnot := hno q hq
  simp only [selects_scanning, reports_scanning hc, hw.2.1, hrq] at hnot
  exact absurd hnot (by decide)

/-! ### What a report does -/

/-- A process that is back in user mode is where it was when it called. -/
lemma Sys.InUser.update_place (hc : s.InUser c) : Function.update s.place c .user = s.place :=
  Function.update_eq_self_iff.mpr hc.2.1.symm

/-- The end of a call that has slept at `x`, or not at all. -/
lemma endWait4_scanning (hc : s.InUser c) (w : WaitArgs) (x : Place) :
    ((s.scanning c w).goto c x).endWait4 c = s.stopWaiting c := by
  have htask : { s.task c with state := .running, waitBusy := 0 }
      = { s.task c with waitBusy := 0 } := by rw [← hc.2.2]
  simp only [Sys.endWait4, Sys.goto, Sys.stopWaiting, Sys.modTask, Sys.scanning,
    Function.update_self, Function.update_idem, hc.update_place, htask]

/-- A call that has not slept is still where it was. -/
lemma goto_user (hc : s.InUser c) (w : WaitArgs) :
    (s.scanning c w).goto c .user = s.scanning c w :=
  congrArg (fun f => { s.scanning c w with place := f }) hc.update_place

/-- The children after `release_task`. -/
lemma Links.children_releaseTask (h : Links s) (hp : s.Listed p) (hz : (s.task p).state = .zombie)
    (hs : s.releaseTask c p = some s') (a : Addr) : s'.children a = (s.children a).erase p := by
  have hkids := ((h.releaseTask hp hz hs).children_spec a).1
  obtain ⟨-, rfl⟩ := releaseTask_eq hs
  obtain ⟨order, hsh, hord⟩ := h.shape
  have hshape : Shape ((s.record (.released c p (s.pPptr p) (s.task p).firstTimeSlice)).unhashPid p)
      order s.children := ⟨hsh.ring, hsh.lists, hsh.nodup, hsh.parent⟩
  have hrem := hshape.removeLinks ((hord p).mpr hp) (h.mem_children.mpr ⟨hp, rfl⟩)
  rw [hshape.update_erase] at hrem
  exact hkids.unique (hrem.lists a)

/-- **A zombie is reaped**: `release_task`, and the end of a call that has slept at `x` or not at all. -/
lemma reaped_of_releaseTask {t : Sys} (h : Links s) (ht : ThreadRings s) (hc : s.InUser c)
    (hp : s.Listed p) (hz : (s.task p).state = .zombie) (hpc : p ≠ c) {x : Place} (hx : Stays x)
    (hrel : (((s.scanning c w).goto c x).record (.returned c p)).releaseTask c p = some t) :
    Reaped s c p (t.endWait4 c) := by
  have hq : Quiet s ((s.scanning c w).goto c x) :=
    have hscan := Quiet.scanning hc w
    hscan.trans (.goto (hscan.active hc.active).listed (hscan.active hc.active).stays hx)
  have hlinks := (h.quiet hq).record (.returned c p)
  have hrings : ThreadRings (((s.scanning c w).goto c x).record (.returned c p)) :=
    ht.kept rfl rfl hq.listed (.of_update (scanning_task s c w) rfl rfl)
  have hp₁ := (hq.listed p).mpr hp
  have hz₁ := (hq.task p).2.2.2.2.mpr hz
  have hrings' := hrings.release hlinks hp₁ hrel
  have hlinks' := hlinks.releaseTask hp₁ hz₁ hrel
  obtain ⟨htask, hpp, hop, -, -, hhash, hplace, -, hlog⟩ := releaseTask_fields hrel
  have hfirst : ((s.scanning c w).task p).firstTimeSlice = (s.task p).firstTimeSlice := by
    rw [scanning_task, Function.update_of_ne hpc]
  have hlisted : ∀ q, t.Listed q ↔ s.Listed q ∧ q ≠ p := fun q => by
    rw [Sys.Listed, hhash, hlinks.nodup.mem_erase_iff, and_comm]
    rfl
  have htgid : ∀ q, (t.task q).tgid = (s.task q).tgid := fun q =>
    (SameGroups.releaseTask hrel q).2.trans (SameGroups.of_update (scanning_task s c w) rfl rfl q).2
  refine ⟨hlisted, ?_, fun q hqc hqp => ?_, ⟨hpp, hop⟩, fun a => ?_, fun a q ha => ?_, ?_, ?_⟩
  · have hown : t.task c = (s.scanning c w).task c := by
      rw [htask, Function.update_of_ne hpc.symm]
      rfl
    rw [Sys.endWait4, Sys.goto, Sys.modTask_task_self, hown, scanning_task, Function.update_self,
      ← hc.2.2]
  · rw [Sys.endWait4, Sys.goto, Sys.modTask_task_of_ne _ _ _ hqc, htask, Function.update_of_ne hqp]
    exact Function.update_of_ne hqc ..
  · exact hlinks.children_releaseTask hp₁ hz₁ hrel a
  · obtain ⟨hla, -⟩ := (hlisted a).mp ha
    have hafter : q ∈ (t.endWait4 c).threads a ↔ t.Listed q ∧ (t.task q).tgid = (t.task a).tgid :=
      hrings'.mem_threads hlinks' ha
    rw [hafter, ht.mem_threads h hla, hlisted, htgid, htgid]
    tauto
  · have hend : (t.endWait4 c).place = Function.update t.place c .user := rfl
    rw [hend, hplace]
    exact (Function.update_idem ..).trans hc.update_place
  · exact hlog.trans (by rw [← hfirst]; rfl)

lemma written_of_accessOk {m : UserMemory} (hm : w.AccessOk m) (status : BitVec 32) :
    w.written m status = if w.statAddr then some status else none := by
  simp only [WaitArgs.written, hm, true_and]

/-- **The report of the child that is found**, wherever the call has slept meanwhile. -/
lemma waitReport_outcome (h : Wf s) (ht : ThreadRings s) (hc : s.InUser c)
    (hw : w.options.unknown = false) (hp : s.ReportsFirst c w p) (m : UserMemory) {x : Place}
    (hx : Stays x) :
    ∃ s' r, ((s.scanning c w).goto c x).waitReport c p (decide ((s.task p).state = .zombie))
        (decide (w.AccessOk m)) = some (s', r)
      ∧ s'.place c = .user
      ∧ WaitOutcome s c w m s' (some r)
        (w.written m ((s.task p).status (decide ((s.task p).state = .zombie)))) := by
  have hpc := hp.ne hc
  have hself : ((s.scanning c w).goto c x).task p = s.task p := Function.update_of_ne hpc ..
  by_cases hm : w.AccessOk m
  · rw [Sys.waitReport, if_neg (by simpa using hm), written_of_accessOk hm, hself]
    rcases hp.2.1 with hz | ⟨hst, -⟩
    · have hpar : (((s.scanning c w).goto c x).record (.returned c p)).pOpptr p
          = (((s.scanning c w).goto c x).record (.returned c p)).pPptr p :=
        (h.untraced p (Or.inr hp.1.1)).1
      obtain ⟨t, hrel⟩ : ∃ t, (((s.scanning c w).goto c x).record (.returned c p)).releaseTask c p
          = some t := ⟨_, if_neg hpc⟩
      simp only [decide_eq_true hz, not_true_eq_false, if_false, hpar, ne_eq, hrel, Option.map_some]
      have hreaped := reaped_of_releaseTask h.toLinks ht hc hp.1.1 hz hpc hx hrel
      exact ⟨_, _, rfl, Sys.goto_place_self .., .reaped hw hp hz hm hreaped⟩
    · have hnot : decide ((s.task p).state = .zombie) = false := by simp [hst]
      -- the change to the child and those to the caller may be made in either order
      have hswap : ((s.scanning c w).goto c x).modTask p (fun t => { t with exitCode := 0 })
          = ((s.modTask p fun t => { t with exitCode := 0 }).scanning c w).goto c x := by
        simp only [Sys.modTask, Sys.goto, Sys.scanning, Function.update_of_ne hpc,
          Function.update_of_ne hpc.symm, Function.update_comm hpc]
      have hc' : (s.modTask p fun t => { t with exitCode := 0 }).InUser c :=
        ⟨hc.1, hc.2.1, (congrArg Task.state (Sys.modTask_task_of_ne _ _ _ hpc.symm)).trans hc.2.2⟩
      simp only [hnot, Bool.false_eq_true, not_false_eq_true, if_true, hswap]
      rw [endWait4_scanning hc']
      exact ⟨_, _, rfl, hc.2.1, .stopped hw hp hst hm⟩
  · rw [Sys.waitReport, if_pos (by simpa using hm), endWait4_scanning hc, WaitArgs.written,
      if_neg fun he => hm he.1]
    exact ⟨_, _, rfl, hc.2.1, .fault hw hp hm⟩

/-! ### The call -/

/-- `sys_wait4` when it finds a child that has something to report. -/
lemma sysWait4_some (hw : w.options.unknown = false)
    (hready : (s.scanning c w).readyChild c w = some p) : s.sysWait4 c w
      = if w.statAddr ∨ w.ru then some ((s.scanning c w).goto c (.reporting w p
          (decide (((s.scanning c w).task p).state = .zombie))), none)
        else ((s.scanning c w).waitReport c p
          (decide (((s.scanning c w).task p).state = .zombie)) true).map fun x => (x.1, some x.2) := by
  rw [Sys.sysWait4, if_neg (by simp [hw]), Sys.waitScan]
  simp only [scanning_eq, hready]

/-- `sys_wait4` when it finds none. -/
lemma sysWait4_none (hw : w.options.unknown = false)
    (hready : (s.scanning c w).readyChild c w = none) : s.sysWait4 c w
      = if (s.scanning c w).candidates c w = []
        then some ((s.scanning c w).endWait4 c, some (.error .echild))
        else if w.options.wnohang then some ((s.scanning c w).endWait4 c, some (.ok 0))
        else if ((s.scanning c w).task c).sigpending
          then some ((s.scanning c w).endWait4 c, some (.error .erestartsys))
        else some ((s.scanning c w).goto c (.waiting w), none) := by
  rw [Sys.sysWait4, if_neg (by simp [hw]), Sys.waitScan]
  simp only [scanning_eq, hready]

section

variable {m : UserMemory} {ok : Bool} {r : Except Errno ℤ}

/-- A call that returns without an access to user memory. -/
lemma waitCall_returns (hs : s.sysWait4 c w = some (s', some r)) (hplace : s'.place c = .user) :
    s.waitCall c w m = some (s', some r, none) ∧ s.waitAtOnce c w ok = some s' := by
  rw [Sys.waitCall, Sys.waitAtOnce, hs, Option.bind_some, Option.bind_some]
  simp only [hplace, and_self]

/-- A call that waits for a child. -/
lemma waitCall_sleeps (hs : s.sysWait4 c w = some (s', none)) (hplace : s'.place c = .waiting w) :
    s.waitCall c w m = some (s', none, none) := by
  rw [Sys.waitCall, hs, Option.bind_some]
  simp only [hplace]

/-- A call that reports about a child with accesses to user memory. -/
lemma waitCall_reports {t : Sys} {zombie : Bool} (hs : s.sysWait4 c w = some (t, none))
    (hplace : t.place c = .reporting w p zombie)
    (hrep : t.waitReport c p zombie (decide (w.AccessOk m)) = some (s', r)) :
    s.waitCall c w m = some (s', some r, w.written m ((t.task p).status zombie))
      ∧ s.waitAtOnce c w (decide (w.AccessOk m)) = some s' := by
  rw [Sys.waitCall, Sys.waitAtOnce, hs, Option.bind_some, Option.bind_some]
  simp only [hplace, hrep, Option.map_some, and_self]

end

/-- A call comes to an outcome; if it returns, then the machine of whole calls has that step. -/
def WaitDone (s : Sys) (c : Addr) (w : WaitArgs) (m : UserMemory) : Prop :=
  ∃ s' r status, s.waitCall c w m = some (s', r, status) ∧ WaitOutcome s c w m s' r status
    ∧ (r ≠ none → s.waitAtOnce c w (decide (w.AccessOk m)) = some s')

/-- `sys_wait4` with a child that has something to report. -/
lemma waitDone_some (h : Wf s) (ht : ThreadRings s) (hc : s.InUser c)
    (hw : w.options.unknown = false) (m : UserMemory)
    (hready : (s.scanning c w).readyChild c w = some p) : WaitDone s c w m := by
  have hcall := sysWait4_some hw hready
  have hp := reportsFirst_of_ready h.toLinks ht hc hready
  have hself : (s.scanning c w).task p = s.task p := Function.update_of_ne (hp.ne hc) ..
  rw [hself] at hcall
  by_cases hmem : w.statAddr = true ∨ w.ru = true
  · rw [if_pos hmem] at hcall
    obtain ⟨s', r, hrep, -, hout⟩ := waitReport_outcome h ht hc hw hp m
      (x := .reporting w p (decide ((s.task p).state = .zombie))) ⟨by simp, by simp⟩
    obtain ⟨hdone, hstep⟩ := waitCall_reports hcall (Sys.goto_place_self ..) hrep
    exact ⟨s', some r, _, hdone, hself ▸ hout, fun _ => hstep⟩
  · rw [if_neg hmem] at hcall
    obtain ⟨hstat, hru⟩ := not_or.mp hmem
    have hm : w.AccessOk m := ⟨fun he => absurd he hru, fun he => absurd he hstat⟩
    obtain ⟨s', r, hrep, hplace, hout⟩ := waitReport_outcome h ht hc hw hp m
      (x := .user) ⟨by simp, by simp⟩
    rw [goto_user hc, decide_eq_true hm] at hrep
    rw [hrep, Option.map_some] at hcall
    rw [written_of_accessOk hm, if_neg hstat] at hout
    obtain ⟨hdone, hstep⟩ := waitCall_returns (m := m) hcall hplace
    exact ⟨s', some r, none, hdone, hout, fun _ => hstep⟩

/-- `sys_wait4` with nothing to report. -/
lemma waitDone_none (h : Wf s) (ht : ThreadRings s) (hc : s.InUser c)
    (hw : w.options.unknown = false) (m : UserMemory)
    (hready : (s.scanning c w).readyChild c w = none) : WaitDone s c w m := by
  have hcall := sysWait4_none hw hready
  have hend : (s.scanning c w).endWait4 c = s.stopWaiting c :=
    goto_user hc w ▸ endWait4_scanning hc w .user
  have hpend : ((s.scanning c w).task c).sigpending = (s.task c).sigpending := by
    rw [scanning_task, Function.update_self]
  rw [hend, hpend] at hcall
  have hback : (s.stopWaiting c).place c = .user := hc.2.1
  have hmem : ∀ p, p ∈ (s.scanning c w).candidates c w ↔ s.Awaits c w p := fun p =>
    mem_candidates h.toLinks ht hc
  by_cases hcand : (s.scanning c w).candidates c w = []
  · rw [if_pos hcand] at hcall
    have hnone : ∀ p, ¬ s.Awaits c w p := fun p hp => by
      rw [← hmem, hcand] at hp
      exact List.not_mem_nil hp
    obtain ⟨hdone, hstep⟩ := waitCall_returns (m := m) hcall hback
    exact ⟨_, _, _, hdone, .nobody hw hnone, fun _ => hstep⟩
  rw [if_neg hcand] at hcall
  have hno : s.NoReport c w := by
    refine ⟨(List.exists_mem_of_ne_nil _ hcand).imp fun p => (hmem p).mp, fun p hp hr => ?_⟩
    have hnot := List.find?_eq_none.mp hready p ((hmem p).mpr hp)
    exact absurd ((reports_scanning hc).mpr hr) (by simpa using hnot)
  by_cases hhang : w.options.wnohang = true
  · rw [if_pos hhang] at hcall
    obtain ⟨hdone, hstep⟩ := waitCall_returns (m := m) hcall hback
    exact ⟨_, _, _, hdone, .nothing hw hno hhang, fun _ => hstep⟩
  rw [if_neg hhang] at hcall
  by_cases hsig : (s.task c).sigpending = true
  · rw [if_pos hsig] at hcall
    obtain ⟨hdone, hstep⟩ := waitCall_returns (m := m) hcall hback
    exact ⟨_, _, _, hdone, .interrupted hw hno (Bool.not_eq_true _ ▸ hhang) hsig, fun _ => hstep⟩
  · rw [if_neg hsig] at hcall
    have hdone := waitCall_sleeps (m := m) hcall (Sys.goto_place_self ..)
    exact ⟨_, _, _, hdone, .asleep hw hno (Bool.not_eq_true _ ▸ hhang) (Bool.not_eq_true _ ▸ hsig),
      fun he => absurd rfl he⟩

/-- **`sys_wait4`**, called from user mode. -/
lemma waitDone (h : Wf s) (ht : ThreadRings s) (hc : s.InUser c) (w : WaitArgs) (m : UserMemory) :
    WaitDone s c w m := by
  by_cases hw : w.options.unknown = true
  · have hcall : s.sysWait4 c w = some (s, some (.error .einval)) := if_pos hw
    obtain ⟨hdone, hstep⟩ := waitCall_returns (m := m) hcall hc.2.1
    exact ⟨_, _, _, hdone, .invalid hw, fun _ => hstep⟩
  have hw : w.options.unknown = false := Bool.not_eq_true _ ▸ hw
  cases hready : (s.scanning c w).readyChild c w with
  | some p => exact waitDone_some h ht hc hw m hready
  | none => exact waitDone_none h ht hc hw m hready

/-! ### Runs -/

/-- `init` forks 2 and 3, and 3 exits with the code 5. -/
def leftRun : List JobOp := [.fork 1 .plain, .fork 1 .plain, .exit 3 1280]

lemma leftRun_runs : ∃ x, run JobSys.exec leftRun JobSys.booted = some x ∧ x.sys.InUser 1 := by
  have h : (run JobSys.exec leftRun JobSys.booted).map (fun x => decide (x.sys.InUser 1))
      = some true := by decide +kernel
  obtain ⟨x, hx, hc⟩ := Option.map_eq_some_iff.mp h
  exact ⟨x, hx, of_decide_eq_true hc⟩

lemma leftRun_left : Along JobSys.exec JobSys.PidsLeft leftRun JobSys.booted := by
  have hfew : Along JobSys.exec
      (fun x _ => 4 * x.sys.eachTask.length + 1 < (pidMax - pidLow).toNat) leftRun
      JobSys.booted := by decide +kernel
  exact hfew.mono fun x o h => pidsLeft_of_few h o

/-- **What `sys_wait4` does**, in every state reached while there was a pid left for every fork: it
fails with `ECHILD` if there is no child for it to wait for, returns at once or sleeps if none of them
has anything to report, and otherwise reports about the first that has: it writes the status where it is
asked to, and reaps the child if it is a zombie.  If user memory cannot be written, it fails with
`EFAULT` and leaves the child as it is.  A call that returns is the step of the machine. -/
theorem sysWait4_of_run {ops : List JobOp} {x : JobSys}
    (h : run JobSys.exec ops JobSys.booted = some x)
    (hleft : Along JobSys.exec JobSys.PidsLeft ops JobSys.booted) (hc : x.sys.InUser c)
    (w : WaitArgs) (m : UserMemory) :
    ∃ s' r status, x.sys.waitCall c w m = some (s', r, status)
      ∧ WaitOutcome x.sys c w m s' r status
      ∧ (r ≠ none → JobSys.exec (.wait4 c w (decide (w.AccessOk m))) x = some { x with sys := s' }) := by
  obtain ⟨hinv, ht⟩ := threadRings_of_run h hleft
  obtain ⟨s', r, status, hcall, hout, hstep⟩ := waitDone hinv.tree ht hc w m
  refine ⟨s', r, status, hcall, hout, fun hr => ?_⟩
  simp only [JobSys.exec, JobSys.onSys, Sys.callExec, if_pos hc, hstep hr, Option.map_some]

/-- The status `init` is given is the exit code of the child. -/
example : ((run JobSys.exec leftRun JobSys.booted).bind fun x =>
    (x.sys.waitCall 1 (.waitpid (-1) true) ⟨true, true⟩).map fun y => y.2.2) = some (some 1280) := by
  decide +kernel

theorem sysWait4_leftRun : ∃ x, run JobSys.exec leftRun JobSys.booted = some x
    ∧ ∃ s' r status, x.sys.waitCall 1 (.waitpid (-1) true) ⟨true, true⟩ = some (s', r, status)
      ∧ WaitOutcome x.sys 1 (.waitpid (-1) true) ⟨true, true⟩ s' r status
      ∧ (r ≠ none → JobSys.exec (.wait4 1 (.waitpid (-1) true)
        (decide ((WaitArgs.waitpid (-1) true).AccessOk ⟨true, true⟩))) x
          = some { x with sys := s' }) := by
  obtain ⟨x, hx, hc⟩ := leftRun_runs
  exact ⟨x, hx, sysWait4_of_run hx leftRun_left hc (.waitpid (-1) true) ⟨true, true⟩⟩

end

end Os234123.Family
