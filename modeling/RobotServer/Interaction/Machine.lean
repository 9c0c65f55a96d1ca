import Mathlib.Data.List.Forall2

/-!
# Machine — steps that may fail, taken one after another

A machine takes a step for each event of a list and stops where a step has no result.  `EachStep P`
says that `P` holds of all the steps it takes.

- `run_invariant` is the induction rule of a run, and `run_length` bounds a run by a measure;
- `trace` is what a run shows of itself, and `run_simulates` has a second machine follow it there;
- `run_lockstep` has a second machine take a step for each step of the first, and answer alike.
-/

namespace Interaction

namespace Machine

variable {σ ε : Type} {step : σ → ε → Option σ}

/-- `P` holds of the state before each step that is taken, of its event and of its result. -/
def EachStep (step : σ → ε → Option σ) (P : σ → ε → Option σ → Prop) : σ → List ε → Prop
  | _, [] => True
  | s, e :: rest => P s e (step s e) ∧ ∀ s', step s e = some s' → EachStep step P s' rest

/-- Two properties that agree where an invariant holds agree along a run, if the invariant is kept
by the steps that have one of them. -/
theorem eachStep_iff {P Q : σ → ε → Option σ → Prop} {Inv : σ → Prop}
    (hagree : ∀ s e, Inv s → (P s e (step s e) ↔ Q s e (step s e)))
    (hkeep : ∀ s e s', Inv s → Q s e (step s e) → step s e = some s' → Inv s') (events : List ε) :
    ∀ s, Inv s → (EachStep step P s events ↔ EachStep step Q s events) := by
  induction events with
  | nil => exact fun _ _ => Iff.rfl
  | cons e rest ih =>
      intro s hinv
      refine Iff.trans (and_congr_left' (hagree s e hinv)) (and_congr_right fun hstep => ?_)
      refine forall_congr' fun s' => forall_congr' fun hs' => ?_
      exact ih s' (hkeep s e s' hinv hstep hs')

/-! ## Runs -/

/-- The state behind a list of events, if each of them can be taken. -/
def run (step : σ → ε → Option σ) : σ → List ε → Option σ
  | s, [] => some s
  | s, e :: rest => (step s e).bind fun s' => run step s' rest

@[simp] theorem run_nil (s : σ) : run step s [] = some s := rfl

theorem run_cons_iff {s s'' : σ} {e : ε} {rest : List ε} :
    run step s (e :: rest) = some s'' ↔
      ∃ s', step s e = some s' ∧ run step s' rest = some s'' :=
  Option.bind_eq_some_iff

@[simp] theorem run_singleton (s : σ) (e : ε) : run step s [e] = step s e :=
  Option.bind_fun_some _

theorem run_append_iff {s s'' : σ} {first second : List ε} :
    run step s (first ++ second) = some s'' ↔
      ∃ s', run step s first = some s' ∧ run step s' second = some s'' := by
  induction first generalizing s with
  | nil => simp
  | cons e rest ih =>
      simp only [List.cons_append, run_cons_iff, ih]
      constructor
      · rintro ⟨s₁, hstep, s₂, hrest, hsecond⟩
        exact ⟨s₂, ⟨s₁, hstep, hrest⟩, hsecond⟩
      · rintro ⟨s₂, ⟨s₁, hstep, hrest⟩, hsecond⟩
        exact ⟨s₁, hstep, s₂, hrest, hsecond⟩

/-- What every step keeps, a run keeps. -/
theorem run_invariant {Inv : σ → Prop}
    (hkeep : ∀ s e s', Inv s → step s e = some s' → Inv s') (events : List ε) :
    ∀ {s s' : σ}, Inv s → run step s events = some s' → Inv s' := by
  induction events with
  | nil =>
      intro s s' hinv hrun
      injection hrun with hrun
      exact hrun ▸ hinv
  | cons e rest ih =>
      intro s s'' hinv hrun
      obtain ⟨s', hstep, hrest⟩ := run_cons_iff.mp hrun
      exact ih (hkeep s e s' hinv hstep) hrest

/-- A run whose steps all lower a measure is no longer than the measure at its start. -/
theorem run_length {Inv : σ → Prop} {Ok : ε → Prop} {weight : σ → Nat}
    (hkeep : ∀ s e s', Inv s → Ok e → step s e = some s' → Inv s')
    (hless : ∀ s e s', Inv s → Ok e → step s e = some s' → weight s' < weight s)
    (events : List ε) : ∀ {s s' : σ}, Inv s → (∀ e ∈ events, Ok e) →
      run step s events = some s' → Inv s' ∧ events.length + weight s' ≤ weight s := by
  induction events with
  | nil =>
      intro s s' hinv _ hrun
      injection hrun with hrun
      subst hrun
      exact ⟨hinv, Nat.le_of_eq (Nat.zero_add _)⟩
  | cons e rest ih =>
      intro s s'' hinv hok hrun
      obtain ⟨s', hstep, hrest⟩ := run_cons_iff.mp hrun
      have he := hok e List.mem_cons_self
      obtain ⟨hinv', hlength⟩ :=
        ih (hkeep s e s' hinv he hstep) (fun e' h => hok e' (List.mem_cons_of_mem _ h)) hrest
      have hdown := hless s e s' hinv he hstep
      refine ⟨hinv', ?_⟩
      rw [List.length_cons]
      omega

/-! ## What a run shows -/

section Trace

variable {υ α : Type} {label : σ → ε → List υ} {abstractStep : α → υ → Option α}

/-- The labels of the steps of a run, in their order. -/
def trace (step : σ → ε → Option σ) (label : σ → ε → List υ) : σ → List ε → List υ
  | _, [] => []
  | s, e :: rest => label s e ++ ((step s e).elim [] fun s' => trace step label s' rest)

@[simp] theorem trace_nil (s : σ) : trace step label s [] = [] := rfl

theorem trace_cons {s s' : σ} {e : ε} {rest : List ε} (hstep : step s e = some s') :
    trace step label s (e :: rest) = label s e ++ trace step label s' rest := by
  rw [trace, hstep]
  rfl

/-- A machine that follows each step by its labels follows each run by its trace. -/
theorem run_simulates {R : α → σ → Prop}
    (hsim : ∀ a s e s', R a s → step s e = some s' →
      ∃ a', run abstractStep a (label s e) = some a' ∧ R a' s') (events : List ε) :
    ∀ {a : α} {s s' : σ}, R a s → run step s events = some s' →
      ∃ a', run abstractStep a (trace step label s events) = some a' ∧ R a' s' := by
  induction events with
  | nil =>
      intro a s s' hrel hrun
      injection hrun with hrun
      subst hrun
      exact ⟨a, rfl, hrel⟩
  | cons e rest ih =>
      intro a s s'' hrel hrun
      obtain ⟨s', hstep, hrest⟩ := run_cons_iff.mp hrun
      obtain ⟨a', habs, hrel'⟩ := hsim a s e s' hrel hstep
      obtain ⟨a'', habs', hrel''⟩ := ih hrel' hrest
      refine ⟨a'', ?_, hrel''⟩
      rw [trace_cons hstep]
      exact run_append_iff.mpr ⟨a', habs, habs'⟩

end Trace

/-- A machine whose steps always have a result is a fold. -/
theorem run_some (f : σ → ε → σ) (events : List ε) (s : σ) :
    run (fun s e => some (f s e)) s events = some (events.foldl f s) := by
  induction events generalizing s with
  | nil => rfl
  | cons e rest ih => exact ih (f s e)

/-! ## Two machines in step -/

section Lockstep

variable {α υ β γ : Type} {abstractStep : α → υ → Option α}

/-- A machine that can follow each step of a second one, with answers to match, can follow its
runs. -/
theorem run_lockstep {R : α → σ → Prop} {event : ε → υ} {answers : α → υ → List β}
    {replies : σ → ε → List γ} {Matches : β → γ → Prop}
    (hsim : ∀ a s e a', R a s → abstractStep a (event e) = some a' →
      ∃ s', step s e = some s' ∧ R a' s' ∧
        List.Forall₂ Matches (answers a (event e)) (replies s e))
    (events : List ε) : ∀ {a a' : α} {s : σ}, R a s →
      run abstractStep a (events.map event) = some a' →
        ∃ s', run step s events = some s' ∧ R a' s' ∧
          List.Forall₂ Matches (trace abstractStep answers a (events.map event))
            (trace step replies s events) := by
  induction events with
  | nil =>
      intro a a' s hrel hrun
      injection hrun with hrun
      exact ⟨s, rfl, hrun ▸ hrel, .nil⟩
  | cons e rest ih =>
      intro a a'' s hrel hrun
      obtain ⟨a', habs, hrest⟩ := run_cons_iff.mp hrun
      obtain ⟨s', hstep, hrel', hmatch⟩ := hsim a s e a' hrel habs
      obtain ⟨s'', hrun', hrel'', htrace⟩ := ih hrel' hrest
      refine ⟨s'', run_cons_iff.mpr ⟨s', hstep, hrun'⟩, hrel'', ?_⟩
      rw [List.map_cons, trace_cons habs, trace_cons hstep]
      exact List.rel_append hmatch htrace

/-- A machine that is stuck where the one it follows is stuck has no more runs than it. -/
theorem run_isSome_of_lockstep {R : α → σ → Prop} {event : ε → υ}
    (hsim : ∀ a s e a', R a s → abstractStep a (event e) = some a' →
      ∃ s', step s e = some s' ∧ R a' s')
    (hstuck : ∀ a s e, R a s → abstractStep a (event e) = none → step s e = none)
    (events : List ε) : ∀ {a : α} {s : σ}, R a s → (run step s events).isSome →
      (run abstractStep a (events.map event)).isSome := by
  induction events with
  | nil => exact fun _ _ => rfl
  | cons e rest ih =>
      intro a s hrel hrun
      obtain ⟨s'', hrun⟩ := Option.isSome_iff_exists.mp hrun
      obtain ⟨s', hstep, hrest⟩ := run_cons_iff.mp hrun
      cases habs : abstractStep a (event e) with
      | none =>
          rw [hstuck a s e hrel habs] at hstep
          cases hstep
      | some a' =>
          obtain ⟨s₁, hstep₁, hrel'⟩ := hsim a s e a' hrel habs
          obtain rfl : s' = s₁ := Option.some.inj (hstep.symm.trans hstep₁)
          rw [List.map_cons, run, habs]
          exact ih hrel' (Option.isSome_of_eq_some hrest)

end Lockstep

end Machine

end Interaction
