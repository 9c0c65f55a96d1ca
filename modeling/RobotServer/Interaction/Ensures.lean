import RobotServer.Interaction.Program

/-!
# Ensures — total correctness of a run

`Ensures E p s Q` says that from state `s` of the environment `E` the program `p` returns, and
that `Q` holds of the operations it performed, of its value and of the state it leaves behind.
The rules follow the constructors of programs and their composition.
-/

namespace Interaction

namespace Program

variable {I : Interface} {σ α β : Type} {E : Environment I σ}

/-- The program returns, and its run satisfies `Q`. -/
def Ensures (E : Environment I σ) (p : Program I α) (s : σ)
    (Q : List I.Op → α → σ → Prop) : Prop :=
  ∃ a, (p.run E s).result = some a ∧ Q (p.run E s).trace a (p.run E s).final

namespace Ensures

theorem ret {a : α} {s : σ} {Q : List I.Op → α → σ → Prop} (h : Q [] a s) :
    Ensures E (.ret a) s Q :=
  ⟨a, rfl, h⟩

theorem call {o : I.Op} {k : I.Reply o → Program I α} {s : σ} {Q : List I.Op → α → σ → Prop}
    (h : Ensures E (k (E.answer o s).1) (E.answer o s).2 fun trace => Q (o :: trace)) :
    Ensures E (.call o k) s Q :=
  h

theorem mono {p : Program I α} {s : σ} {Q Q' : List I.Op → α → σ → Prop}
    (h : Ensures E p s Q) (himp : ∀ trace a s', Q trace a s' → Q' trace a s') :
    Ensures E p s Q' := by
  rcases h with ⟨a, hresult, hQ⟩
  exact ⟨a, hresult, himp _ _ _ hQ⟩

/-- What the first program ensures is what the second one may rely on. -/
theorem bind {p : Program I α} {f : α → Program I β} {s : σ} {Q : List I.Op → α → σ → Prop}
    {Q' : List I.Op → β → σ → Prop} (hp : Ensures E p s Q)
    (hf : ∀ trace a s', Q trace a s' →
      Ensures E (f a) s' fun trace' b s'' => Q' (trace ++ trace') b s'') :
    Ensures E (p >>= f) s Q' := by
  rcases hp with ⟨a, hresult, hQ⟩
  rcases hf _ a _ hQ with ⟨b, hresult', hQ'⟩
  refine ⟨b, ?_, ?_⟩
  · rw [run_bind_of_result E hresult]
    exact hresult'
  · rw [run_bind_of_result E hresult]
    exact hQ'

theorem effects {p : Program I α} {s : σ} {Q : List I.Op → Unit → σ → Prop}
    (h : Ensures E p s fun trace _ s' => Q trace () s') : Ensures E p.effects s Q := by
  refine h.bind ?_
  intro trace a s' hQ
  apply ret
  rw [List.append_nil]
  exact hQ

end Ensures

end Program

end Interaction
