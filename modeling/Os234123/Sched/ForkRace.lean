import Os234123.Sched.Boot

/-!
Forks that sleep halfway.  `do_fork` copies the record of its parent, may be suspended, and
shares the slice only later, when the parent may be of another class.

* `ForkInv`: the invariant of the machine with the forks under way;
* `Agreeing`: the condition on a step, that a child shares the slice of a parent whose class its
  policy still fits;
* `forkExec_inv`: a step that meets the condition keeps the invariant;
* `ForkOk`, `forkRun_ok`: the class markers agree and every new child is runnable, in every
  state of a run whose steps meet the condition;
* `raceRun`, `not_forkOk`: a run on which they do not.
-/

namespace Os234123.Sched

open Machine

/-! ### The invariant -/

/-- A child that has taken its share of the slice: it is in order, and a regular SHORT father
has a regular SHORT child. -/
structure Ready (s : Sys) (f : PendingFork) : Prop where
  parent : f.parent = s.curr
  class_ok : ClassOk (s.task f.child)
  regular : (s.task s.curr).isShort = 1 → (s.task f.child).isShort = 1

/-- The runqueue is in order, and so are the children under way: nobody knows them yet, they
and their parents are distinct, and only the running task can be past the sharing. -/
structure ForkInv (x : ForkSys) : Prop where
  sys : Inv x.sys
  unknown : ∀ f ∈ x.forks, ¬ x.sys.Known f.child
  child_inj : ∀ f ∈ x.forks, ∀ g ∈ x.forks, f.child = g.child → f = g
  parent_inj : ∀ f ∈ x.forks, ∀ g ∈ x.forks, f.parent = g.parent → f = g
  copied : ∀ f ∈ x.forks, f.shared = false → Copied (x.sys.task f.child)
  ready : ∀ f ∈ x.forks, f.shared = true → Ready x.sys f

namespace ForkSys

variable {x : ForkSys} {f : PendingFork}

lemma current_spec (h : x.current = some f) : f ∈ x.forks ∧ f.parent = x.sys.curr :=
  ⟨List.mem_of_find?_eq_some h, by simpa using List.find?_some h⟩

lemma parent_ne_of_current (h : x.current = none) (hf : f ∈ x.forks) : f.parent ≠ x.sys.curr := by
  simpa using List.find?_eq_none.mp h f hf

lemma mem_others : f ∈ x.others ↔ f ∈ x.forks ∧ f.parent ≠ x.sys.curr := by
  simp [others, List.mem_filter]

end ForkSys

namespace ForkInv

variable {M : Arch} {x y : ForkSys} {f : PendingFork}

/-- The child of the fork the running task is in is the child of no other fork. -/
lemma child_ne (h : ForkInv x) (hf : x.current = some f) {g : PendingFork} (hg : g ∈ x.others) :
    g.child ≠ f.child := fun he => by
  obtain ⟨hmem, hpar⟩ := ForkSys.current_spec hf
  obtain ⟨hg, hne⟩ := ForkSys.mem_others.mp hg
  exact hne (h.child_inj g hg f hmem he ▸ hpar)

/-- A step that leaves the children of the forks it keeps alone. -/
lemma keep (h : ForkInv x) (hinv : Inv y.sys) (hsub : ∀ g ∈ y.forks, g ∈ x.forks)
    (hunknown : ∀ g ∈ y.forks, ¬ y.sys.Known g.child)
    (htask : ∀ g ∈ y.forks, y.sys.task g.child = x.sys.task g.child)
    (hcurr : ∀ g ∈ y.forks, g.shared = true → y.sys.curr = x.sys.curr
      ∧ ((y.sys.task y.sys.curr).isShort = 1 → (x.sys.task x.sys.curr).isShort = 1)) :
    ForkInv y where
  sys := hinv
  unknown := hunknown
  child_inj := fun g hg g' hg' => h.child_inj g (hsub g hg) g' (hsub g' hg')
  parent_inj := fun g hg g' hg' => h.parent_inj g (hsub g hg) g' (hsub g' hg')
  copied := fun g hg hs => htask g hg ▸ h.copied g (hsub g hg) hs
  ready := fun g hg hs => by
    obtain ⟨hpar, hcls, hreg⟩ := h.ready g (hsub g hg) hs
    obtain ⟨hc, h1⟩ := hcurr g hg hs
    exact ⟨hpar.trans hc.symm, htask g hg ▸ hcls, fun hy => htask g hg ▸ hreg (h1 hy)⟩

/-- One more fork. -/
lemma cons {s : Sys} {fs : List PendingFork} (h : ForkInv ⟨s, fs⟩) (hunknown : ¬ s.Known f.child)
    (hchild : ∀ g ∈ fs, g.child ≠ f.child) (hparent : ∀ g ∈ fs, g.parent ≠ f.parent)
    (hcopied : f.shared = false → Copied (s.task f.child)) (hready : f.shared = true → Ready s f) :
    ForkInv ⟨s, f :: fs⟩ := by
  refine ⟨h.sys, ?_, ?_, ?_, ?_, ?_⟩
  · exact List.forall_mem_cons.mpr ⟨hunknown, h.unknown⟩
  · refine List.forall_mem_cons.mpr ⟨List.forall_mem_cons.mpr ⟨fun _ => rfl, ?_⟩, fun g hg => ?_⟩
    · exact fun g hg he => absurd he.symm (hchild g hg)
    · exact List.forall_mem_cons.mpr ⟨fun he => absurd he (hchild g hg), h.child_inj g hg⟩
  · refine List.forall_mem_cons.mpr ⟨List.forall_mem_cons.mpr ⟨fun _ => rfl, ?_⟩, fun g hg => ?_⟩
    · exact fun g hg he => absurd he.symm (hparent g hg)
    · exact List.forall_mem_cons.mpr ⟨fun he => absurd he (hparent g hg), h.parent_inj g hg⟩
  · exact List.forall_mem_cons.mpr ⟨hcopied, h.copied⟩
  · exact List.forall_mem_cons.mpr ⟨hready, h.ready⟩

/-- A child under way stands on no queue. -/
lemma child_off (h : ForkInv x) (hf : f ∈ x.forks) : (x.sys.task f.child).array = none := by
  by_contra hne
  exact h.unknown f hf (Or.inl (h.sys.queued _ hne))

/-! ### The steps -/

/-- An operation of another part of the kernel, or of another process. -/
lemma op (h : ForkInv x) {o : Op} {s' : Sys} (ho : x.Allowed o) (hs : x.sys.exec M o = some s') :
    ForkInv { x with sys := s' } := by
  have hstep := exec_step h.sys hs
  have hchild : o.child = none := by
    cases o with
    | fork flags c => simp [ForkSys.Allowed] at ho
    | _ => rfl
  have hlive : ∀ q, s'.live q = true → x.sys.live q = true := fun q hq => by
    rw [hstep.live] at hq
    cases o with
    | fork flags c => simp [ForkSys.Allowed] at ho
    | reap p =>
        by_cases hqp : q = p
        · simp [Op.liveAfter, hqp] at hq
        · simpa [Op.liveAfter, Function.update_of_ne hqp] using hq
    | _ => exact hq
  have hknown : ∀ q, s'.Known q → x.sys.Known q := by
    rintro q (⟨h1, h2⟩ | h1)
    · exact Or.inl ⟨hlive q h1, hstep.idle ▸ h2⟩
    · exact Or.inr (h1.trans hstep.idle)
  refine h.keep hstep.inv (fun g hg => hg) (fun g hg hk => h.unknown g hg (hknown _ hk))
    (fun g hg => hstep.off _ (h.unknown g hg) (by simp [hchild])) fun g hg hsh => ?_
  -- past the sharing only interrupts come in
  have hcur : x.current = some g := by
    cases hc : x.current with
    | none => exact absurd (h.ready g hg hsh).parent (ForkSys.parent_ne_of_current hc hg)
    | some f =>
        obtain ⟨hf, hfp⟩ := ForkSys.current_spec hc
        exact congrArg some (h.parent_inj f hf g hg (hfp.trans (h.ready g hg hsh).parent.symm))
  have hint : o.switches = false ∧ ∀ pid pol lp, o ≠ .setscheduler pid pol lp := by
    cases o <;> simp [ForkSys.Allowed, hcur, hsh, Op.switches] at ho ⊢
  have hc : s'.curr = x.sys.curr := hstep.curr hint.1
  refine ⟨hc, fun h1 => ?_⟩
  rw [show ({ x with sys := s' } : ForkSys).sys = s' from rfl, hc] at h1
  have heff := hstep.effect x.sys.curr h.sys.known_curr
  generalize s'.task x.sys.curr = t at heff h1
  cases heff with
  | keep _ hsame => exact hsame.isShort ▸ h1
  | tick _ ht => exact ht.isShort_one h1
  | share _ _ _ => simp [Op.child] at hchild
  | change _ _ _ _ => exact absurd rfl (hint.2 _ _ _)
  | credit _ _ hsame => exact hsame.isShort ▸ h1

lemma forkCopy (h : ForkInv x) {c : Tid} (hcur : x.current = none) (hc : x.sys.IsFresh c)
    (hfs : ∀ g ∈ x.forks, g.child ≠ c) :
    ForkInv { sys := x.sys.forkCopy c, forks := ⟨x.sys.curr, c, false⟩ :: x.forks } := by
  have hk : ¬ x.sys.Known c := fun hk => hk.elim (fun ht => hc.1 ht.1) hc.2.1
  have hne : ∀ q, q ≠ c → (x.sys.forkCopy c).task q = x.sys.task q := fun q hq =>
    Sys.modTask_task_of_ne _ _ _ hq
  have h₀ : Inv (x.sys.forkCopy c) := h.sys.modUnknown hk rfl
  have h₁ : ForkInv ⟨x.sys.forkCopy c, x.forks⟩ := by
    refine h.keep h₀ (fun g hg => hg) h.unknown (fun g hg => hne _ (hfs g hg)) fun g hg hs => ?_
    refine ⟨rfl, fun h1 => ?_⟩
    rwa [← hne _ hc.2.2.symm]
  refine h₁.cons hk hfs (fun g hg => ForkSys.parent_ne_of_current hcur hg) (fun _ => ?_) (by simp)
  rw [show (x.sys.forkCopy c).task c = Sys.childOf (x.sys.task x.sys.curr) from
    Sys.modTask_task_self ..]
  exact childOf_copied (h.sys.toRqInv.classOk h.sys.known_curr)

lemma forkShare (h : ForkInv x) {p c : Tid} {s' : Sys} (hcur : x.current = some ⟨p, c, false⟩)
    (ha : Agree (x.sys.task c) (x.sys.task x.sys.curr)) (hs : x.sys.forkShare M c = some s') :
    ForkInv { sys := s', forks := ⟨p, c, true⟩ :: x.others } := by
  obtain ⟨hmem, hpar⟩ := ForkSys.current_spec hcur
  have hk := h.unknown _ hmem
  have hoff := h.child_off hmem
  have hcc : c ≠ x.sys.curr := fun he => hk (he ▸ h.sys.known_curr)
  have hsh := forkShare_shared hcc hs
  obtain ⟨hlive, hidle, hcurr, hchild, hother⟩ := hsh.frame hcc
  have hknown : ∀ q, s'.Known q ↔ x.sys.Known q := fun q => by
    rw [Sys.Known, Sys.Known, Sys.IsTask, Sys.IsTask, hlive, hidle]
  have hne : ∀ g ∈ x.others, g.parent ≠ x.sys.curr := fun g hg => (ForkSys.mem_others.mp hg).2
  have hin : ∀ g ∈ x.others, g ∈ x.forks := fun g hg => (ForkSys.mem_others.mp hg).1
  have h₁ : ForkInv ⟨s', x.others⟩ := h.keep (hsh.inv h.sys hk hoff) hin
    (fun g hg hkg => h.unknown g (hin g hg) ((hknown _).mp hkg))
    (fun g hg => hother _ (h.child_ne hcur hg) fun he =>
      h.unknown g (hin g hg) (he ▸ h.sys.known_curr))
    fun g hg hs => absurd (h.ready g (hin g hg) hs).parent (hne g hg)
  refine h₁.cons (fun hkc => hk ((hknown c).mp hkc)) (fun g hg => h.child_ne hcur hg)
    (fun g hg he => hne g hg (he.trans hpar)) (by simp) fun _ => ⟨hpar.trans hcurr.symm, ?_, ?_⟩
  · rw [hchild]
    exact inherit_classOk (h.sys.toRqInv.classOk h.sys.known_curr) (h.copied _ hmem rfl) ha
  · rw [hcurr]
    exact hsh.match_one h.sys.toRqInv hk hcc hoff

/-- Waking the child of the running task keeps the invariant and makes the child runnable. -/
lemma forkWake (h : ForkInv x) {p c : Tid} (hcur : x.current = some ⟨p, c, true⟩)
    (flags : ForkFlags) :
    ForkInv { sys := x.sys.forkWake M flags c, forks := x.others }
      ∧ (x.sys.forkWake M flags c).Runnable c
      ∧ ((x.sys.forkWake M flags c).task c).array ≠ none := by
  obtain ⟨hmem, hpar⟩ := ForkSys.current_spec hcur
  have hk := h.unknown _ hmem
  obtain ⟨-, hcls, hreg⟩ := h.ready _ hmem rfl
  obtain ⟨hinv, hn, -, hst, hqd⟩ :=
    h.sys.forkWake M hk hcls (h.child_off hmem) hreg flags
  have hin : ∀ g ∈ x.others, g ∈ x.forks := fun g hg => (ForkSys.mem_others.mp hg).1
  refine ⟨h.keep hinv hin (fun g hg hkg => ?_) (fun g hg => ?_) fun g hg hs => ?_,
    ⟨hn.isTask fun hi => hk (Or.inr hi), hst⟩, hqd⟩
  · exact h.unknown g (hin g hg) ((hn.known_of_ne (h.child_ne hcur hg)).mp hkg)
  · exact hn.off _ (h.child_ne hcur hg) (h.unknown g (hin g hg))
  · exact absurd (h.ready g (hin g hg) hs).parent (ForkSys.mem_others.mp hg).2

lemma forkFail (h : ForkInv x) : ForkInv { x with forks := x.others } :=
  have hin : ∀ g ∈ x.others, g ∈ x.forks := fun _ hg => (ForkSys.mem_others.mp hg).1
  h.keep h.sys hin (fun g hg => h.unknown g (hin g hg)) (fun _ _ => rfl)
    fun _ _ _ => ⟨rfl, fun h1 => h1⟩

end ForkInv

/-! ### Runs -/

/-- A step of the machine that does not share a slice across classes: when the slice of the
running task is shared, the policy its child copied fits the class the running task is in. -/
def Agreeing (x : ForkSys) : ForkOp → Prop
  | .forkShare => ∀ f, x.current = some f → Agree (x.sys.task f.child) (x.sys.task x.sys.curr)
  | _ => True

instance (x : ForkSys) (o : ForkOp) : Decidable (Agreeing x o) := by
  unfold Agreeing
  induction o using ForkOp.casesOn with
  | forkShare =>
      exact inferInstanceAs (Decidable (∀ f ∈ x.current, Agree (x.sys.task f.child)
        (x.sys.task x.sys.curr)))
  | _ => infer_instance

/-- **A step that meets the condition keeps the invariant.** -/
theorem forkExec_inv {M : Arch} {x y : ForkSys} {o : ForkOp} (h : ForkInv x) (ho : Agreeing x o)
    (hs : x.forkExec M o = some y) : ForkInv y := by
  cases o with
  | op o =>
      simp only [ForkSys.forkExec] at hs
      split_ifs at hs with hallow
      obtain ⟨s', hs', rfl⟩ := Option.map_eq_some_iff.mp hs
      exact h.op hallow hs'
  | forkCopy c =>
      simp only [ForkSys.forkExec] at hs
      split_ifs at hs with hc
      obtain rfl := Option.some.inj hs
      exact h.forkCopy (Option.isNone_iff_eq_none.mp hc.1) hc.2.2.1 hc.2.2.2
  | forkShare =>
      simp only [ForkSys.forkExec] at hs
      split at hs
      · rename_i p c hcur
        obtain ⟨s', hs', rfl⟩ := Option.map_eq_some_iff.mp hs
        exact h.forkShare hcur (ho _ hcur) hs'
      · simp at hs
  | forkWake flags =>
      simp only [ForkSys.forkExec] at hs
      split at hs
      · rename_i p c hcur
        obtain rfl := Option.some.inj hs
        exact (h.forkWake hcur flags).1
      · simp at hs
  | forkFail =>
      simp only [ForkSys.forkExec] at hs
      split at hs
      · obtain rfl := Option.some.inj hs
        exact h.forkFail
      · simp at hs

/-- The machine after booting, with no fork under way. -/
def forkBooted (M : Arch) : ForkSys := ⟨Sys.booted M, []⟩

lemma forkBooted_inv (M : Arch) : ForkInv (forkBooted M) :=
  ⟨booted_inv M, by simp [forkBooted], by simp [forkBooted], by simp [forkBooted],
    by simp [forkBooted], by simp [forkBooted]⟩

/-- What a state owes to interrupted forks: the class markers of every task agree, and a fork
that now ends leaves a runnable child. -/
structure ForkOk (M : Arch) (x : ForkSys) : Prop where
  markers : ∀ p, x.sys.Known p → ClassMarkers x.sys.active x.sys.expired (x.sys.task p)
  runnable : ∀ f flags y, x.current = some f → x.forkExec M (.forkWake flags) = some y →
    y.sys.Runnable f.child ∧ (y.sys.task f.child).array ≠ none

lemma ForkInv.forkOk {M : Arch} {x : ForkSys} (h : ForkInv x) : ForkOk M x where
  markers := by
    rintro p (hp | rfl)
    · exact (h.sys.tasks p hp).markers
    · have hi := h.sys.idle
      exact Or.inr (Or.inr ⟨by simp [hi.policy], Or.inl hi.isShort,
        Or.inl h.sys.toRqInv.idle_array⟩)
  runnable := fun f flags y hf hs => by
    simp only [ForkSys.forkExec, hf] at hs
    split at hs
    · rename_i p c heq
      obtain rfl := Option.some.inj heq
      obtain rfl := Option.some.inj hs
      exact (h.forkWake hf flags).2
    · simp at hs

/-- **Interrupted forks keep the classes apart** in every run in which each slice is shared
between a parent and a child whose policy still fits it. -/
theorem forkRun_ok {M : Arch} {ops : List ForkOp} {x : ForkSys}
    (hok : Along (ForkSys.forkExec M) Agreeing ops (forkBooted M))
    (h : run (ForkSys.forkExec M) ops (forkBooted M) = some x) : ForkOk M x :=
  (run_induct_along (fun _ _ _ hi ho hs => forkExec_inv hi ho hs) (forkBooted_inv M) hok h).forkOk

/-- A run with an interrupted fork that meets the condition: the parent sleeps while it is
copied, and is woken in the class it had. -/
def quietForkRun : List ForkOp :=
  [.forkCopy 1, .forkShare, .forkWake ⟨false, false⟩, .op .schedule, .forkCopy 2,
    .op (.setState .uninterruptible), .op .schedule, .op .tick, .op (.wake 1), .op .schedule,
    .forkShare, .forkWake ⟨false, false⟩]

theorem forkOk_quietForkRun : ∃ x,
    run (ForkSys.forkExec .hz100) quietForkRun (forkBooted .hz100) = some x
      ∧ ForkOk .hz100 x := by
  obtain ⟨x, hx⟩ := Option.isSome_iff_exists.mp (by decide +kernel :
    (run (ForkSys.forkExec .hz100) quietForkRun (forkBooted .hz100)).isSome = true)
  exact ⟨x, hx, forkRun_ok (by decide +kernel) hx⟩

/-- A run in which task 1 forks, sleeps in the copying, is made SHORT by task 3, and shares its
slice when it runs again. -/
def raceRun : List ForkOp :=
  [.forkCopy 1, .forkShare, .forkWake ⟨false, false⟩, .forkCopy 3, .forkShare,
    .forkWake ⟨false, false⟩, .op .schedule, .forkCopy 2, .op (.setState .uninterruptible),
    .op .schedule, .op (.setscheduler 1 5 (.readable ⟨0, 100⟩)), .op (.wake 1), .op .schedule,
    .forkShare, .forkWake ⟨false, false⟩]

/-- At the end of that run the child of task 1 is an ordinary task among the SHORT ones. -/
theorem not_forkOk : ¬ ∀ (M : Arch) (ops : List ForkOp) (x : ForkSys),
    run (ForkSys.forkExec M) ops (forkBooted M) = some x → ForkOk M x := by
  intro hall
  have hrun : ((run (ForkSys.forkExec .hz100) raceRun (forkBooted .hz100)).any fun x =>
      decide (x.sys.live 2 = true ∧ x.sys.idle = 0
        ∧ ¬ ClassMarkers x.sys.active x.sys.expired (x.sys.task 2))) = true := by
    decide +kernel
  obtain ⟨x, hx, hbad⟩ := (Option.any_eq_true _ _).mp hrun
  obtain ⟨hlive, hidle, hbad⟩ := of_decide_eq_true hbad
  exact hbad ((hall _ _ x hx).markers 2 (Or.inl ⟨hlive, by rw [hidle]; decide⟩))

end Os234123.Sched
