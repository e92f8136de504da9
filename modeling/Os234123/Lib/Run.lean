import Mathlib.Tactic

/-!
Runs of a labelled machine: a partial step function `step : ω → σ → Option σ`, a list of
labels, and the state it leads to.

* `run`: the state after a list of labels, `none` once a label is not enabled;
* `Along`: a condition on every step of a run, read on the state before the step;
* `tally`: a number summed over the steps of a run;
* `observed`: the machine that carries a value which the steps update and never read;
* `run_induct`, `run_induct_along`: what each step preserves, the whole run preserves.
-/

namespace Machine

variable {σ ω γ : Type*} (step : ω → σ → Option σ)

/-- The state a list of labels leads to. -/
def run : List ω → σ → Option σ
  | [], s => some s
  | o :: os, s => (step o s).bind (run os)

/-- Every step of the run meets the condition `ok`, which sees the state before the step
and the label. -/
def Along (ok : σ → ω → Prop) : List ω → σ → Prop
  | [], _ => True
  | o :: os, s => ok s o ∧ ∀ s', step o s = some s' → Along ok os s'

/-- Whether a run meets a condition can be computed. -/
instance Along.decidable (ok : σ → ω → Prop) [∀ s o, Decidable (ok s o)] :
    ∀ (os : List ω) (s : σ), Decidable (Along step ok os s)
  | [], _ => inferInstanceAs (Decidable True)
  | o :: os, s =>
      match h : step o s with
      | none => decidable_of_iff (ok s o) (by simp [Along, h])
      | some s' =>
          have := Along.decidable ok os s'
          decidable_of_iff (ok s o ∧ Along step ok os s') (by simp [Along, h])

/-- The sum of `f` over the steps of the run. -/
def tally (f : σ → ω → ℕ) : List ω → σ → ℕ
  | [], _ => 0
  | o :: os, s => f s o + (step o s).elim 0 (tally f os)

/-- The machine carrying an observed value beside the state. -/
def observed (upd : ω → σ → σ → γ → γ) (o : ω) (x : σ × γ) : Option (σ × γ) :=
  (step o x.1).map fun s' => (s', upd o x.1 s' x.2)

variable {step}

@[simp] lemma run_nil (s : σ) : run step [] s = some s := rfl

lemma run_cons (o : ω) (os : List ω) (s : σ) :
    run step (o :: os) s = (step o s).bind (run step os) := rfl

/-- The first step of a run that goes through. -/
lemma run_cons_eq_some {o : ω} {os : List ω} {s t : σ} :
    run step (o :: os) s = some t ↔ ∃ s', step o s = some s' ∧ run step os s' = some t := by
  rw [run_cons, Option.bind_eq_some_iff]

/-- A run splits over an append. -/
lemma run_append (os os' : List ω) (s : σ) :
    run step (os ++ os') s = (run step os s).bind (run step os') := by
  induction os generalizing s with
  | nil => rfl
  | cons o os ih =>
      rw [List.cons_append, run_cons, run_cons, Option.bind_assoc]
      exact congrArg _ (funext ih)

/-- A run and one more step. -/
lemma run_snoc_eq_some {os : List ω} {o : ω} {s u : σ} :
    run step (os ++ [o]) s = some u ↔ ∃ t, run step os s = some t ∧ step o t = some u := by
  have hone : ∀ t, run step [o] t = step o t := fun t => by
    rw [run_cons]
    exact Option.bind_fun_some (step o t)
  rw [run_append, Option.bind_eq_some_iff]
  simp only [hone]

/-- **The induction rule**: a property of the first state that each step preserves holds of
the last. -/
theorem run_induct {P : σ → Prop} (hstep : ∀ s o s', P s → step o s = some s' → P s')
    {os : List ω} {s t : σ} (hs : P s) (h : run step os s = some t) : P t := by
  induction os generalizing s with
  | nil =>
      rw [run_nil, Option.some.injEq] at h
      exact h ▸ hs
  | cons o os ih =>
      obtain ⟨s', h1, h2⟩ := run_cons_eq_some.mp h
      exact ih (hstep s o s' hs h1) h2

/-- The induction rule along a condition on the steps. -/
theorem run_induct_along {P : σ → Prop} {ok : σ → ω → Prop}
    (hstep : ∀ s o s', P s → ok s o → step o s = some s' → P s') {os : List ω} {s t : σ}
    (hs : P s) (hok : Along step ok os s) (h : run step os s = some t) : P t := by
  induction os generalizing s with
  | nil =>
      rw [run_nil, Option.some.injEq] at h
      exact h ▸ hs
  | cons o os ih =>
      obtain ⟨s', h1, h2⟩ := run_cons_eq_some.mp h
      exact ih (hstep s o s' hs hok.1 h1) (hok.2 s' h1) h2

/-- A condition on the steps may be weakened. -/
lemma Along.mono {ok ok' : σ → ω → Prop} (himp : ∀ s o, ok s o → ok' s o) {os : List ω} {s : σ}
    (h : Along step ok os s) : Along step ok' os s := by
  induction os generalizing s with
  | nil => trivial
  | cons o os ih => exact ⟨himp s o h.1, fun s' hs' => ih (h.2 s' hs')⟩

/-- A condition on the labels alone. -/
lemma Along.of_forall {P : ω → Prop} {os : List ω} (h : ∀ o ∈ os, P o) (s : σ) :
    Along step (fun _ o => P o) os s := by
  induction os generalizing s with
  | nil => trivial
  | cons o os ih =>
      exact ⟨h o List.mem_cons_self, fun s' _ => ih (fun o' ho => h o' (List.mem_cons_of_mem _ ho)) s'⟩

/-- Two conditions on the steps at once. -/
lemma Along.and {ok ok' : σ → ω → Prop} {os : List ω} {s : σ} (h : Along step ok os s)
    (h' : Along step ok' os s) : Along step (fun s o => ok s o ∧ ok' s o) os s := by
  induction os generalizing s with
  | nil => trivial
  | cons o os ih => exact ⟨⟨h.1, h'.1⟩, fun s' hs' => ih (h.2 s' hs') (h'.2 s' hs')⟩

/-- **The accounting rule**: if each step spends what it earns and what it takes off a potential,
so does the whole run. -/
theorem tally_balance {P : σ → Prop} {ok : σ → ω → Prop} {f g : σ → ω → ℕ} {μ : σ → ℤ}
    (hstep : ∀ s o s', P s → ok s o → step o s = some s' →
      P s' ∧ (f s o : ℤ) + μ s' = g s o + μ s)
    {os : List ω} {s t : σ} (hs : P s) (hok : Along step ok os s) (h : run step os s = some t) :
    (tally step f os s : ℤ) + μ t = tally step g os s + μ s := by
  induction os generalizing s with
  | nil =>
      rw [run_nil, Option.some.injEq] at h
      simp [tally, h]
  | cons o os ih =>
      obtain ⟨s', h1, h2⟩ := run_cons_eq_some.mp h
      obtain ⟨hP, hμ⟩ := hstep s o s' hs hok.1 h1
      have := ih hP (hok.2 s' h1) h2
      simp only [tally, h1, Option.elim_some, Nat.cast_add]
      linarith

/-- The accounting rule when nothing is earned. -/
theorem tally_add_eq {P : σ → Prop} {ok : σ → ω → Prop} {f : σ → ω → ℕ} {μ : σ → ℕ}
    (hstep : ∀ s o s', P s → ok s o → step o s = some s' → P s' ∧ f s o + μ s' = μ s)
    {os : List ω} {s t : σ} (hs : P s) (hok : Along step ok os s) (h : run step os s = some t) :
    tally step f os s + μ t = μ s := by
  induction os generalizing s with
  | nil =>
      rw [run_nil, Option.some.injEq] at h
      simp [tally, h]
  | cons o os ih =>
      obtain ⟨s', h1, h2⟩ := run_cons_eq_some.mp h
      obtain ⟨hP, hμ⟩ := hstep s o s' hs hok.1 h1
      have := ih hP (hok.2 s' h1) h2
      simp only [tally, h1, Option.elim_some]
      omega

/-- The accounting rule below a bound: a step that would go beyond it need not balance. -/
theorem tally_add_below {f g : σ → ω → ℕ} {μ : σ → ℕ} {N : ℕ}
    (hstep : ∀ s o s', step o s = some s' → μ s + g s o < N → f s o + μ s' = μ s + g s o)
    {os : List ω} {s t : σ} (h : run step os s = some t) (hN : μ s + tally step g os s < N) :
    tally step f os s + μ t = μ s + tally step g os s := by
  induction os generalizing s with
  | nil =>
      rw [run_nil, Option.some.injEq] at h
      simp [tally, h]
  | cons o os ih =>
      obtain ⟨s', h1, h2⟩ := run_cons_eq_some.mp h
      simp only [tally, h1, Option.elim_some] at hN ⊢
      have hone := hstep s o s' h1 (by omega)
      have := ih h2 (by omega)
      omega

end Machine
