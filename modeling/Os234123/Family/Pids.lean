import Os234123.Lib.Allot
import Os234123.Family.Process

/-!
`get_pid` of `kernel/fork.c`.

* `JobSys`: the process tree with what `get_pid` reads beside it, the sessions and the two static
  variables `last_pid` and `next_safe`;
* `pidPass`, `pidSearch`, `getPid`: one pass of its `for_each_task`, the search that starts a new
  pass after every number in use, and the whole function;
* `Record`: what the two variables say about the numbers in use, which lets `get_pid` return without
  a search;
* `Record.getPid`: `get_pid` returns the first free number after the last one, as long as there is
  one.

The search of the source has no bound; here it makes at most `PID_MAX` passes, and no result is left
when it would make more.
-/

namespace Os234123.Family

open Linked Allot

/-- `PID_MAX`. -/
def pidMax : ℤ := 32768

/-- Where the search starts again, above the pids of daemons. -/
def pidLow : ℤ := 300

/-- The process tree, the sessions, and the static variables of `get_pid`.  Every call is one whole
step here, so no process of a state reached is asleep in `sys_wait4`. -/
structure JobSys where
  sys : Sys
  session : Addr → ℤ
  lastPid : ℤ
  nextSafe : ℤ

/-- `last_pid & 0xffff8000` is not zero. -/
def PidOver (l : ℤ) : Prop := l < 0 ∨ pidMax ≤ l

instance (l : ℤ) : Decidable (PidOver l) := inferInstanceAs (Decidable (_ ∨ _))

/-- `last_pid` and `next_safe` after a number that is in use: where `last_pid` comes to `next_safe`,
it may have to start again, and nothing is known of the numbers above. -/
def pidNext (next safe : ℤ) : ℤ × ℤ :=
  if safe ≤ next then (if PidOver next then pidLow else next, pidMax) else (next, safe)

/-- `next_safe` once the search at `last` has seen the number `v`. -/
def lowerSafe (last safe v : ℤ) : ℤ := if last < v ∧ v < safe then v else safe

namespace JobSys

variable (x : JobSys)

/-- The numbers of a task that a new pid must differ from. -/
def numbers (p : Addr) : List ℤ :=
  [(x.sys.task p).pid, (x.sys.task p).pgrp, (x.sys.task p).tgid, x.session p]

/-- One pass of `for_each_task` for the number `last`: it stops at a task that has it, and lowers
`next_safe` on the way.  The result says whether it has stopped. -/
def pidPass (last : ℤ) : List Addr → ℤ → ℤ × Bool
  | [], safe => (safe, false)
  | p :: ps, safe =>
      if last ∈ x.numbers p then (safe, true)
      else pidPass last ps ((x.numbers p).foldl (lowerSafe last) safe)

/-- The label `repeat`: `last_pid`, `next_safe` and whether a number was found. -/
def pidSearch (beginPid : ℤ) : ℕ → ℤ → ℤ → Option (ℤ × ℤ × Bool)
  | 0, _, _ => none
  | n + 1, last, safe =>
      match x.pidPass last x.sys.eachTask safe with
      | (safe, false) => some (last, safe, true)
      | (safe, true) =>
          let (next, safe) := pidNext (last + 1) safe
          if next = beginPid then some (next, safe, false) else pidSearch beginPid n next safe

/-- The label `inside`: the search at `last`, with nothing known. -/
def getPidInside (last : ℤ) : Option (JobSys × ℤ) :=
  (x.pidSearch x.lastPid pidMax.toNat last pidMax).map fun (last, safe, found) =>
    ({ x with lastPid := last, nextSafe := safe }, if found then last else 0)

/-- `get_pid` by `c`. -/
def getPid (c : Addr) (clonePid : Bool) : Option (JobSys × ℤ) :=
  if clonePid then some (x, (x.sys.task c).pid)
  else
    let last := x.lastPid + 1
    if PidOver last then x.getPidInside pidLow
    else if x.nextSafe ≤ last then x.getPidInside last
    else some ({ x with lastPid := last }, last)

/-! ### What the variables say -/

/-- The number is in use. -/
def Taken (v : ℤ) : Prop := ∃ p ∈ x.sys.eachTask, v ∈ x.numbers p

/-- There is a pid left to give out: one from 300 on and below `PID_MAX`, other than `last_pid` itself,
where the search gives up. -/
def HasFree : Prop := ∃ v, pidLow ≤ v ∧ v < pidMax ∧ v ≠ x.lastPid ∧ ¬ x.Taken v

/-- `last_pid` and `next_safe` in order: nothing between them is in use, and before the first
round no number above `last_pid` is in use. -/
structure Record : Prop where
  last : 0 ≤ x.lastPid ∧ x.lastPid < pidMax
  safe : x.nextSafe ≤ pidMax
  gap : Gap x.Taken x.lastPid x.nextSafe
  young : x.lastPid < pidLow → ∀ v, x.Taken v → v ≤ x.lastPid

end JobSys

/-! ### One pass -/

section

variable {x : JobSys} {last safe v : ℤ}

lemma foldl_lowerSafe_le (vs : List ℤ) : vs.foldl (lowerSafe last) safe ≤ safe := by
  induction vs generalizing safe with
  | nil => exact le_rfl
  | cons v vs ih =>
      refine ih.trans ?_
      rw [lowerSafe]
      split_ifs <;> omega

lemma lt_foldl_lowerSafe (vs : List ℤ) (h : last < safe) : last < vs.foldl (lowerSafe last) safe := by
  induction vs generalizing safe with
  | nil => exact h
  | cons v vs ih =>
      refine ih ?_
      rw [lowerSafe]
      split_ifs <;> omega

/-- `next_safe` ends up at or below every number seen above `last`. -/
lemma foldl_lowerSafe_le_of_mem {vs : List ℤ} (hv : v ∈ vs) (hl : last < v) :
    vs.foldl (lowerSafe last) safe ≤ v := by
  induction vs generalizing safe with
  | nil => exact absurd hv List.not_mem_nil
  | cons u vs ih =>
      rcases List.mem_cons.mp hv with rfl | hv
      · refine (foldl_lowerSafe_le vs).trans ?_
        rw [lowerSafe]
        split_ifs <;> omega
      · exact ih hv

namespace JobSys

/-- A pass never raises `next_safe`. -/
lemma pidPass_le (x : JobSys) (ps : List Addr) : (x.pidPass last ps safe).1 ≤ safe := by
  induction ps generalizing safe with
  | nil => exact le_rfl
  | cons p ps ih =>
      rw [pidPass]
      split
      · exact le_rfl
      · exact ih.trans (foldl_lowerSafe_le (x.numbers p))

/-- A pass keeps `next_safe` above the number it looks for. -/
lemma lt_pidPass (x : JobSys) (ps : List Addr) (h : last < safe) :
    last < (x.pidPass last ps safe).1 := by
  induction ps generalizing safe with
  | nil => exact h
  | cons p ps ih =>
      rw [pidPass]
      split
      · exact h
      · exact ih (lt_foldl_lowerSafe (x.numbers p) h)

/-- A pass that stops has met the number. -/
lemma pidPass_hit {ps : List Addr} (h : (x.pidPass last ps safe).2 = true) :
    ∃ p ∈ ps, last ∈ x.numbers p := by
  induction ps generalizing safe with
  | nil => exact absurd h Bool.false_ne_true
  | cons p ps ih =>
      rw [pidPass] at h
      split at h
      · next hp => exact ⟨p, List.mem_cons_self, hp⟩
      · obtain ⟨q, hq, hl⟩ := ih h
        exact ⟨q, List.mem_cons_of_mem p hq, hl⟩

/-- A pass that goes through has not met the number, and has noted every larger one. -/
lemma pidPass_through {ps : List Addr} (h : (x.pidPass last ps safe).2 = false) :
    ∀ p ∈ ps, last ∉ x.numbers p ∧ ∀ v ∈ x.numbers p, last < v → (x.pidPass last ps safe).1 ≤ v := by
  induction ps generalizing safe with
  | nil => exact fun p hp => absurd hp List.not_mem_nil
  | cons q ps ih =>
      rw [pidPass] at h ⊢
      split at h
      · exact absurd h.symm Bool.false_ne_true
      · next hq =>
          rw [if_neg hq]
          intro p hp
          rcases List.mem_cons.mp hp with rfl | hp
          · refine ⟨hq, fun v hv hl => ?_⟩
            exact (x.pidPass_le ps).trans (foldl_lowerSafe_le_of_mem hv hl)
          · exact ih h p hp

/-! ### The search -/

/-- A number found: it is the first free one, and the gap above it is noted. -/
structure Finds (x : JobSys) (pid safe : ℤ) : Prop where
  first : First pidLow pidMax x.Taken x.lastPid pid
  moves : pid ≠ x.lastPid
  bound : safe ≤ pidMax
  gap : Gap x.Taken pid safe

/-- A pass that goes through finds the number it looks for. -/
lemma finds_of_through (hl : (pidLow ≤ last ∨ x.lastPid < last) ∧ last < pidMax)
    (hne : last ≠ x.lastPid) (hsafe : safe ≤ pidMax)
    (hpassed : ∀ u, Passed pidLow pidMax x.lastPid last u → x.Taken u)
    (h : (x.pidPass last x.sys.eachTask safe).2 = false) :
    Finds x last (x.pidPass last x.sys.eachTask safe).1 := by
  refine ⟨⟨hl, ?_, hpassed⟩, hne, (x.pidPass_le _).trans hsafe, ?_⟩
  · rintro ⟨p, hp, hv⟩
    exact (pidPass_through h p hp).1 hv
  · rintro v ⟨p, hp, hv⟩ hlt
    exact (pidPass_through h p hp).2 v hv hlt

/-- The next number is the next one on the circle, and lies below the new `next_safe`. -/
lemma pidNext_spec (hl : 0 ≤ last) (hsafe : last < safe ∧ safe ≤ pidMax) :
    (pidNext (last + 1) safe).1 = succ pidLow pidMax last
      ∧ (pidNext (last + 1) safe).1 < (pidNext (last + 1) safe).2
      ∧ (pidNext (last + 1) safe).2 ≤ pidMax := by
  simp only [pidNext, PidOver, succ, pidLow, pidMax] at *
  split_ifs <;> omega

/-- **The search** that starts after `last_pid` finds the first free number, or there is none. -/
lemma pidSearch_spec {n : ℕ} (hb : pidLow ≤ x.lastPid ∧ x.lastPid < pidMax)
    (hl : pidLow ≤ last ∧ last < pidMax) (hne : last ≠ x.lastPid)
    (hsafe : last < safe ∧ safe ≤ pidMax)
    (hpassed : ∀ u, Passed pidLow pidMax x.lastPid last u → x.Taken u)
    (hn : left pidLow pidMax x.lastPid last ≤ n) :
    ∃ r, x.pidSearch x.lastPid n last safe = some r
      ∧ (r.2.2 = true ∧ Finds x r.1 r.2.1 ∨ r.2.2 = false ∧ ¬ x.HasFree) := by
  induction n generalizing last safe with
  | zero =>
      have := left_pos (b := x.lastPid) hb.1 hl.2
      omega
  | succ n ih =>
      have hpos : (0 : ℤ) ≤ last := le_trans (by decide) hl.1
      cases hpass : x.pidPass last x.sys.eachTask safe with
      | mk safe' hit =>
          cases hit with
          | false =>
              refine ⟨(last, safe', true), by rw [pidSearch, hpass], Or.inl ⟨rfl, ?_⟩⟩
              have := finds_of_through ⟨Or.inl hl.1, hl.2⟩ hne hsafe.2 hpassed (by rw [hpass])
              rwa [hpass] at this
          | true =>
              -- `last` is in use, so the search has passed it as well
              have htaken : x.Taken last := pidPass_hit (by rw [hpass])
              have hsafe' : last < safe' ∧ safe' ≤ pidMax := by
                have h1 := lt_pidPass x x.sys.eachTask hsafe.1
                have h2 : (x.pidPass last x.sys.eachTask safe).1 ≤ safe := x.pidPass_le _
                rw [hpass] at h1 h2
                exact ⟨h1, h2.trans hsafe.2⟩
              obtain ⟨hnext, hlt, hle⟩ := pidNext_spec hpos hsafe'
              have hpassed' : ∀ u,
                  Passed pidLow pidMax x.lastPid (succ pidLow pidMax last) u → x.Taken u := by
                intro u hu
                rcases passed_succ (by decide) hl.2 hb.2 hu with hold | rfl
                · exact hpassed u hold
                · exact htaken
              cases hpn : pidNext (last + 1) safe' with
              | mk next safe'' =>
                  simp only [pidSearch, hpass, hpn]
                  rw [hpn] at hnext hlt hle
                  obtain rfl : next = succ pidLow pidMax last := hnext
                  by_cases hround : succ pidLow pidMax last = x.lastPid
                  · refine ⟨(succ pidLow pidMax last, safe'', false), if_pos hround,
                      Or.inr ⟨rfl, ?_⟩⟩
                    rintro ⟨v, hv1, hv2, hvne, hfree⟩
                    rw [hround] at hpassed'
                    exact hfree (hpassed' v (passed_round ⟨hv1, hv2⟩ hvne))
                  · have hleft := left_succ hb.1 hb.2 hl.1 hl.2 hround
                    have hrange : pidLow ≤ succ pidLow pidMax last
                        ∧ succ pidLow pidMax last < pidMax := by
                      simp only [succ]
                      split_ifs <;> omega
                    obtain ⟨r, hr, hspec⟩ := ih hrange hround ⟨hlt, hle⟩ hpassed'
                      (by push_cast at hn; omega)
                    exact ⟨r, (if_neg hround).trans hr, hspec⟩

/-! ### The whole function -/

/-- Before the first round every pid of the circle is free. -/
lemma Record.hasFree_of_young (hr : x.Record) (hy : x.lastPid < pidLow) : x.HasFree :=
  ⟨pidLow, le_rfl, by decide, hy.ne', fun ht => absurd (hr.young hy _ ht) (not_le.mpr hy)⟩

lemma Finds.hasFree (hf : Finds x last safe) (hr : x.Record) : x.HasFree := by
  rcases lt_or_ge last pidLow with hlow | hge
  · refine hr.hasFree_of_young ?_
    rcases hf.first.bounds.1 with h | h
    · exact absurd hlow (not_lt.mpr h)
    · exact h.trans hlow
  · exact ⟨last, hge, hf.first.bounds.2, hf.moves, hf.first.free⟩

/-- What `get_pid` returns: the first free number, or `0` when there is none. -/
def Answers (x x' : JobSys) (pid : ℤ) : Prop :=
  x'.sys = x.sys ∧ x'.session = x.session
    ∧ (x.HasFree ∧ Finds x pid x'.nextSafe ∧ x'.lastPid = pid ∨ ¬ x.HasFree ∧ pid = 0)

lemma succ_lastPid_ne (hr : x.Record) : succ pidLow pidMax x.lastPid ≠ x.lastPid := by
  have hl := hr.last
  simp only [succ, pidLow, pidMax] at *
  split_ifs <;> omega

/-- A search from the next number on. -/
lemma Record.getPidInside (hr : x.Record) : ∃ x' pid,
    x.getPidInside (succ pidLow pidMax x.lastPid) = some (x', pid) ∧ Answers x x' pid := by
  have hs : (pidLow ≤ succ pidLow pidMax x.lastPid ∨ x.lastPid < succ pidLow pidMax x.lastPid)
      ∧ succ pidLow pidMax x.lastPid < pidMax := succ_bounds (by decide)
  have hnone : ∀ u, Passed pidLow pidMax x.lastPid (succ pidLow pidMax x.lastPid) u → x.Taken u :=
    fun u hu => absurd hu (not_passed_succ (by decide) hr.last.2)
  have hsafe : succ pidLow pidMax x.lastPid < pidMax ∧ pidMax ≤ pidMax := ⟨hs.2, le_rfl⟩
  obtain ⟨r, hsearch, hspec⟩ : ∃ r, x.pidSearch x.lastPid pidMax.toNat
      (succ pidLow pidMax x.lastPid) pidMax = some r
        ∧ (r.2.2 = true ∧ Finds x r.1 r.2.1 ∨ r.2.2 = false ∧ ¬ x.HasFree) := by
    rcases lt_or_ge x.lastPid pidLow with hy | hold
    · -- the first round: the next number is free, and one pass is enough
      have hfree : ¬ x.Taken (succ pidLow pidMax x.lastPid) := by
        intro ht
        have hle := hr.young hy _ ht
        rcases hs.1 with h | h
        · exact absurd (h.trans hle) (not_le.mpr hy)
        · exact absurd hle (not_le.mpr h)
      have hthrough : (x.pidPass (succ pidLow pidMax x.lastPid) x.sys.eachTask pidMax).2 = false := by
        by_contra hhit
        exact hfree (pidPass_hit (by simpa using hhit))
      have hfinds := finds_of_through hs (succ_lastPid_ne hr) hsafe.2 hnone hthrough
      refine ⟨(succ pidLow pidMax x.lastPid, _, true), ?_, Or.inl ⟨rfl, hfinds⟩⟩
      rw [show pidMax.toNat = 32767 + 1 from rfl, pidSearch]
      cases hpass : x.pidPass (succ pidLow pidMax x.lastPid) x.sys.eachTask pidMax with
      | mk safe hit =>
          obtain rfl : hit = false := by rw [hpass] at hthrough; exact hthrough
          rfl
    · have hlow : pidLow ≤ succ pidLow pidMax x.lastPid := by
        rcases hs.1 with h | h
        · exact h
        · exact le_trans hold (le_of_lt h)
      have hleft := left_le hr.last.2 hlow
      exact pidSearch_spec ⟨hold, hr.last.2⟩ ⟨hlow, hs.2⟩ (succ_lastPid_ne hr) hsafe hnone
        (hleft.trans (by decide))
  obtain ⟨last, safe, found⟩ := r
  refine ⟨{ x with lastPid := last, nextSafe := safe }, if found then last else 0,
    by rw [JobSys.getPidInside, hsearch, Option.map_some], rfl, rfl, ?_⟩
  rcases hspec with ⟨rfl, hf⟩ | ⟨rfl, hno⟩
  · exact Or.inl ⟨hf.hasFree hr, hf, rfl⟩
  · exact Or.inr ⟨hno, rfl⟩

/-- **`get_pid` returns the first free number** after the last one, with or without a search, and `0`
when there is none. -/
theorem Record.getPid (hr : x.Record) (c : Addr) :
    ∃ x' pid, x.getPid c false = some (x', pid) ∧ Answers x x' pid := by
  have hinside := hr.getPidInside
  have hlast := hr.last
  simp only [JobSys.getPid, Bool.false_eq_true, if_false]
  split_ifs with hover hsearch
  · have hge : pidMax ≤ x.lastPid + 1 := by
      rcases hover with h | h
      · omega
      · exact h
    rwa [succ_of_le hge] at hinside
  · have hlt : x.lastPid + 1 < pidMax := by
      simp only [PidOver] at hover
      omega
    rwa [succ_of_lt hlt] at hinside
  · -- the record says that the next number is free
    have hlt := not_le.mp hsearch
    have hfinds : Finds x (x.lastPid + 1) x.nextSafe :=
      ⟨hr.gap.first hlt hr.safe (by decide), (lt_add_one _).ne', hr.safe, hr.gap.next⟩
    exact ⟨_, _, rfl, rfl, rfl, Or.inl ⟨hfinds.hasFree hr, hfinds, rfl⟩⟩

end JobSys

end

end Os234123.Family
