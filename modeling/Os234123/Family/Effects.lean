import Os234123.Family.Steps

/-!
What a step of the machine in which calls may sleep can do.

* `Effect s o s'`: the six kinds of steps: a quiet one, a fork, an attachment, the beginning and the
  end of an exit, the reaping of a child;
* `exec_effect`: every step is one of these;
* `Effect.wf`: all of them keep the links in order.
-/

namespace Os234123.Family

open Linked Machine

section

variable {s s' : Sys} {p q c : Addr} {o : Op}

/-- The zombie that a process asleep in `sys_wait4` has selected. -/
def Place.selected : Place → Option Addr
  | .reporting _ p true => some p
  | _ => none

lemma Place.selected_reporting {w : WaitArgs} {zombie : Bool}
    (h : (Place.reporting w p zombie).selected = some q) : zombie = true ∧ p = q := by
  cases zombie with
  | false => exact nomatch h
  | true => exact ⟨rfl, Option.some.inj h⟩

/-- The kinds of steps.  A quiet step may let a process select a child and sleep; the child that is
reaped was selected just now, or before that process slept. -/
inductive Effect (s : Sys) : Op → Sys → Prop where
  | quiet {o : Op} {s' : Sys} (h : Quiet s s')
      (hsel : ∀ q p, (s'.place q).selected = some p →
        (s.place q).selected = some p ∨ (∃ w, p ∈ s.waitedFor q w) ∧ (s.task p).state = .zombie) :
      Effect s o s'
  | fork {c : Addr} {flags : CloneFlags} {pid : ℤ} (hc : s.InUser c) (hpid : s.PidFree pid) :
      Effect s (.fork c flags pid) (s.forkChild c flags pid)
  | attach {c t : Addr} {pid : ℤ} (hc : s.InUser c) (ht : s.attachTarget c pid = some (.ok t)) :
      Effect s (.attach c pid) (s.relink c t)
  | exit {c : Addr} {code : ℤ} (hc : s.InUser c) (hpid : (s.task c).pid ≠ 1) :
      Effect s (.exit c code) (s.exitBegin c code)
  | exitNotify {c : Addr} (hc : s.Listed c) (hx : s.place c = .exiting) :
      Effect s (.exitNotify c) (s.exitNotify c)
  | reap {o : Op} {c p : Addr} {s₁ s' : Sys} (hc : Active s c) (hp : s.Listed p)
      (hz : (s.task p).state = .zombie)
      (hsel : (∃ w, p ∈ s.waitedFor c w) ∧ (s.place c).selected = none
        ∨ (s.place c).selected = some p)
      (hq : Quiet s s₁) (hpl : s₁.place = s.place) (hr : Reaps s₁ c p s') : Effect s o s'

/-- A quiet step that sends nobody to sleep. -/
lemma Effect.of_place (h : Quiet s s')
    (hpl : ∀ q, s'.place q = s.place q ∨ (s'.place q).selected = none) : Effect s o s' :=
  .quiet h fun q _ hq => Or.inl <|
    (hpl q).elim (fun he => he ▸ hq) fun hn => nomatch hn.symm.trans hq

/-- A change to a record that the links do not depend on. -/
lemma Effect.modTask {f : Task → Task} (hpid : (f (s.task p)).pid = (s.task p).pid)
    (hex : (f (s.task p)).exiting = (s.task p).exiting)
    (htr : (f (s.task p)).ptraced = (s.task p).ptraced)
    (hfts : (f (s.task p)).firstTimeSlice = true → (s.task p).firstTimeSlice = true)
    (hst : (f (s.task p)).state = .zombie ↔ (s.task p).state = .zombie) :
    Effect s o (s.modTask p f) :=
  .of_place (.modTask hpid hex htr hfts hst) fun _ => Or.inl rfl

/-- A process goes where it reports nothing. -/
lemma Effect.goto {x : Place} (hc : Active s c) (hx : Stays x)
    (hr : x.selected = none) : Effect s o (s.goto c x) := by
  refine .of_place (.goto hc.listed hc.stays hx) fun q => ?_
  by_cases hq : q = c
  · rw [hq, Sys.goto_place_self]
    exact Or.inr hr
  · exact Or.inl (Sys.goto_place_of_ne _ _ _ hq)

/-- What a look at the children can do, as an effect. -/
lemma Effect.of_scanned {w : WaitArgs} (h : Wf s) (hc : Active s c)
    (hno : (s.place c).selected = none) (hs : Scanned s c w s') : Effect s o s' := by
  rcases hs with ⟨hq, x, hpl, hx⟩ | ⟨p, hp, hz, s₁, hq, hpl, hr⟩
  · refine .quiet hq fun q _ hqp => ?_
    by_cases hqc : q = c
    · rw [hqc, hpl, Function.update_self] at hqp
      rcases hx with rfl | rfl | ⟨p', hp', rfl⟩
      · exact nomatch hqp
      · exact nomatch hqp
      · obtain ⟨hz, rfl⟩ := Place.selected_reporting hqp
        exact Or.inr ⟨⟨w, hqc ▸ hp'⟩, of_decide_eq_true hz⟩
    · rw [hpl, Function.update_of_ne hqc] at hqp
      exact Or.inl hqp
  · exact .reap hc (h.mem_waitedFor hp) hz (Or.inl ⟨⟨w, hp⟩, hno⟩) hq hpl hr

/-- **Every step is of one of these kinds**, as long as the zombie a process comes back to has not
been released meanwhile. -/
theorem exec_effect (h : Wf s)
    (hrep : ∀ c ok, o = .report c ok → ∀ p, (s.place c).selected = some p →
      s.Listed p ∧ (s.task p).state = .zombie) (hs : Sys.exec o s = some s') : Effect s o s' := by
  cases o with
  | fork c flags pid =>
      obtain ⟨⟨hc, hpid⟩, hs⟩ := Option.ite_none_right_eq_some.mp hs
      obtain rfl := Option.some.inj hs
      rcases doFork_cases (h.pids c hc.1) hpid.1 flags with he | he <;> rw [he]
      · exact .of_place (.refl s) fun _ => Or.inl rfl
      · exact .fork hc hpid
  | attach c pid =>
      obtain ⟨hc, hs⟩ := Option.ite_none_right_eq_some.mp hs
      obtain ⟨⟨s₁, r⟩, hatt, rfl⟩ := Option.map_eq_some_iff.mp hs
      rcases sysAttachProc_cases hatt with ⟨-, -, rfl⟩ | ⟨t, ht, -, rfl⟩
      · exact .of_place (.refl _) fun _ => Or.inl rfl
      · exact .attach hc ht
  | exit c code =>
      obtain ⟨⟨hc, hpid⟩, hs⟩ := Option.ite_none_right_eq_some.mp hs
      exact Option.some.inj hs ▸ .exit hc hpid
  | exitNotify c =>
      obtain ⟨⟨hc, hx⟩, hs⟩ := Option.ite_none_right_eq_some.mp hs
      exact Option.some.inj hs ▸ .exitNotify hc hx
  | wait4 c w =>
      obtain ⟨hc, hs⟩ := Option.ite_none_right_eq_some.mp hs
      obtain ⟨⟨s₁, r⟩, hw, rfl⟩ := Option.map_eq_some_iff.mp hs
      exact .of_scanned h hc.active (hc.2.1 ▸ rfl) (h.sysWait4_cases hc hw)
  | rescan c =>
      rw [Sys.exec] at hs
      split at hs
      · next w hw =>
          obtain ⟨⟨s₁, r⟩, hscan, rfl⟩ := Option.map_eq_some_iff.mp hs
          have hc : Active s c := h.active (hw ▸ fun he => nomatch he)
            (hw ▸ ⟨fun he => (nomatch he), fun he => nomatch he⟩)
          exact .of_scanned h hc (hw ▸ rfl) (h.waitScan_cases hc hscan)
      · exact nomatch hs
  | report c ok =>
      rw [Sys.exec] at hs
      split at hs
      · next w p zombie hw =>
          obtain ⟨⟨s₁, r⟩, hreport, rfl⟩ := Option.map_eq_some_iff.mp hs
          have hc : Active s c := h.active (hw ▸ fun he => nomatch he)
            (hw ▸ ⟨fun he => (nomatch he), fun he => nomatch he⟩)
          have hsel : zombie = true → s.Listed p ∧ (s.task p).state = .zombie := fun hz =>
            hrep c ok rfl p (hw ▸ hz ▸ rfl)
          rcases waitReport_cases hc (fun hz => (h.untraced p (Or.inr (hsel hz).1)).1) hreport with
            ⟨hq, hpl⟩ | ⟨rfl, -, hr⟩
          · refine .of_place hq fun q => ?_
            by_cases hqc : q = c
            · exact Or.inr (by rw [hpl, hqc, Function.update_self]; rfl)
            · exact Or.inl (by rw [hpl, Function.update_of_ne hqc])
          · exact .reap hc (hsel rfl).1 (hsel rfl).2 (Or.inr (hw ▸ rfl)) (.refl s) rfl hr
      · exact nomatch hs
  | getChildren c maxLength =>
      obtain ⟨hc, hs⟩ := Option.ite_none_right_eq_some.mp hs
      split at hs
      · exact Option.some.inj hs ▸ .of_place (.refl s) fun _ => Or.inl rfl
      · obtain rfl := Option.some.inj hs
        exact .goto hc.active ⟨fun he => (nomatch he), fun he => nomatch he⟩ rfl
  | walkChildren c allocated =>
      rw [Sys.exec] at hs
      split at hs
      · next size hsize =>
          have hc : Active s c := h.active (hsize ▸ fun he => nomatch he)
            (hsize ▸ ⟨fun he => (nomatch he), fun he => nomatch he⟩)
          have huser : Effect s (.walkChildren c allocated) (s.goto c .user) :=
            .goto hc ⟨fun he => (nomatch he), fun he => nomatch he⟩ rfl
          split at hs
          · obtain ⟨-, -, rfl⟩ := Option.map_eq_some_iff.mp hs
            exact huser
          · exact Option.some.inj hs ▸ huser
      · exact nomatch hs
  | setpgid p g =>
      obtain ⟨-, hs⟩ := Option.ite_none_right_eq_some.mp hs
      exact Option.some.inj hs ▸ .modTask rfl rfl rfl id Iff.rfl
  | setCred c u k =>
      obtain ⟨-, hs⟩ := Option.ite_none_right_eq_some.mp hs
      exact Option.some.inj hs ▸ .modTask rfl rfl rfl id Iff.rfl
  | signal p b =>
      obtain ⟨-, hs⟩ := Option.ite_none_right_eq_some.mp hs
      exact Option.some.inj hs ▸ .modTask rfl rfl rfl id Iff.rfl
  | expire p =>
      obtain ⟨-, hs⟩ := Option.ite_none_right_eq_some.mp hs
      exact Option.some.inj hs ▸ .modTask rfl rfl rfl (fun he => nomatch he) Iff.rfl
  | stop p code =>
      obtain ⟨hp, hs⟩ := Option.ite_none_right_eq_some.mp hs
      exact Option.some.inj hs ▸ .modTask rfl rfl rfl id
        (iff_of_false (fun he => nomatch he) hp.active.state)
  | cont p =>
      obtain ⟨⟨-, hst⟩, hs⟩ := Option.ite_none_right_eq_some.mp hs
      refine Option.some.inj hs ▸ .modTask rfl rfl rfl id (iff_of_false (fun he => nomatch he) ?_)
      exact hst ▸ fun he => nomatch he

/-- **Every step keeps the links in order.** -/
theorem Effect.wf (he : Effect s o s') (h : Wf s) (hi : HasInit s) : Wf s' ∧ HasInit s' := by
  cases he with
  | quiet hq _ => exact ⟨h.quiet hq, hi.quiet hq⟩
  | fork hc hpid =>
      exact ⟨h.forkChild (Or.inr hc.1) hc.active.stays (fun _ => hc.1) hpid.1 fun q hq => (hpid.2 q hq).1,
        hi.forkChild h.toLinks _ _ _⟩
  | attach hc ht =>
      have hlt := (findTaskByPid_eq_some (attachTarget_ok ht).1).1
      exact ⟨h.relink (h.alive_of_stays (Or.inr hc.1) hc.active.stays).1 hlt, hi.relink _ _⟩
  | exit hc hpid => exact ⟨h.exitBegin hc.1 hc.active.stays _, hi.exitBegin hpid _⟩
  | exitNotify hc hx =>
      have hex := (h.exiting _ (Or.inr hc)).mpr (Or.inl hx)
      exact ⟨h.exitNotify hi hc hex, hi.exitNotify h.toLinks hc hex⟩
  | reap hc hp hz _ hq _ hr =>
      have hp₁ := (hq.listed _).mpr hp
      have hz₁ := (hq.task _).2.2.2.2.mpr hz
      exact ⟨(h.quiet hq).reaps (hq.active hc) hp₁ hz₁ hr,
        (hi.quiet hq).reaps (h.quiet hq).toLinks (hq.active hc) hp₁ hz₁ hr⟩

end

end Os234123.Family
