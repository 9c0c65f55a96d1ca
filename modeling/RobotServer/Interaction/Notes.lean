import RobotServer.Interaction.Program

/-!
# Notes — programs that note values on their way

`I.noting N` has the operations of `I` and one more, which notes a value of `N` and has no reply.

- `Program.erase` leaves the notes out: what is left is a program over `I`;
- `Program.notes` are the notes of a run against an environment of `I`;
- `Program.AllNotes` is a property of all of them;
- `Program.Sound` says besides that the run returns, with a rule for each way to build a program.
-/

namespace Interaction

/-- The operations of the interface and notes of type `N`. -/
abbrev Interface.noting (I : Interface) (N : Type) : Interface where
  Op := N ⊕ I.Op
  Reply
    | .inl _ => Unit
    | .inr o => I.Reply o

namespace Program

variable {I : Interface} {N σ α β : Type}

def note (n : N) : Program (I.noting N) Unit :=
  .call (.inl n) .ret

/-- The program without its notes. -/
def erase : Program (I.noting N) α → Program I α
  | .ret a => .ret a
  | .call (.inl _) k => (k ()).erase
  | .call (.inr o) k => .call o fun r => (k r).erase
  | .fault => .fault

/-- A program that notes nothing. -/
def silent : Program I α → Program (I.noting N) α
  | .ret a => .ret a
  | .call o k => .call (I := I.noting N) (.inr o) fun r => (k r).silent
  | .fault => .fault

@[simp] theorem erase_ret (a : α) : (ret a : Program (I.noting N) α).erase = .ret a := rfl

@[simp] theorem erase_fault : (fault : Program (I.noting N) α).erase = .fault := rfl

@[simp] theorem erase_note_bind (n : N) (f : Unit → Program (I.noting N) α) :
    (note n >>= f).erase = (f ()).erase := rfl

@[simp] theorem erase_note (n : N) : (note n : Program (I.noting N) Unit).erase = .ret () := rfl

theorem erase_bind (p : Program (I.noting N) α) (f : α → Program (I.noting N) β) :
    (p >>= f).erase = p.erase >>= fun a => (f a).erase := by
  induction p with
  | ret a => rfl
  | call o k ih =>
      cases o with
      | inl n => exact ih ()
      | inr o => exact congrArg (Program.call o) (funext ih)
  | fault => rfl

theorem erase_onlyIf (c : Bool) (p : Program (I.noting N) Unit) :
    (onlyIf c p).erase = onlyIf c p.erase := by
  cases c with
  | false => rfl
  | true => rfl

@[simp] theorem erase_silent (p : Program I α) : (p.silent : Program (I.noting N) α).erase = p := by
  induction p with
  | ret a => rfl
  | call o k ih => exact congrArg (Program.call o) (funext ih)
  | fault => rfl

/-! ## The notes of a run -/

variable (E : Environment I σ)

def notes : Program (I.noting N) α → σ → List N
  | .ret _, _ => []
  | .call (.inl n) k, s => n :: (k ()).notes s
  | .call (.inr o) k, s => (k (E.answer o s).1).notes (E.answer o s).2
  | .fault, _ => []

theorem notes_silent (p : Program I α) (s : σ) :
    (p.silent : Program (I.noting N) α).notes E s = [] := by
  induction p generalizing s with
  | ret a => rfl
  | call o k ih => exact ih _ _
  | fault => rfl

/-- The second program of a composition notes from where the first one ended. -/
theorem notes_bind (p : Program (I.noting N) α) (f : α → Program (I.noting N) β) (s : σ) :
    (p >>= f).notes E s = p.notes E s ++
      match (p.erase.run E s).result with
      | some a => (f a).notes E (p.erase.run E s).final
      | none => [] := by
  induction p generalizing s with
  | ret a => rfl
  | call o k ih =>
      cases o with
      | inl n => exact congrArg (List.cons n) (ih () s)
      | inr o => exact ih _ _
  | fault => rfl

/-- Every note of the run satisfies `P`. -/
def AllNotes (P : N → Prop) (p : Program (I.noting N) α) (s : σ) : Prop :=
  ∀ n ∈ p.notes E s, P n

section AllNotes

variable {E} {P : N → Prop} {s : σ}

theorem allNotes_ret (a : α) : (ret a : Program (I.noting N) α).AllNotes E P s :=
  fun _ hn => absurd hn List.not_mem_nil

theorem allNotes_silent (p : Program I α) : (p.silent : Program (I.noting N) α).AllNotes E P s := by
  intro n hn
  rw [notes_silent] at hn
  cases hn

theorem allNotes_note_bind (n : N) (f : Unit → Program (I.noting N) α) :
    (note n >>= f).AllNotes E P s ↔ P n ∧ (f ()).AllNotes E P s :=
  List.forall_mem_cons

theorem allNotes_note (n : N) : (note n : Program (I.noting N) Unit).AllNotes E P s ↔ P n :=
  List.forall_mem_singleton

theorem allNotes_bind (p : Program (I.noting N) α) (f : α → Program (I.noting N) β) :
    (p >>= f).AllNotes E P s ↔ p.AllNotes E P s ∧
      ∀ a, (p.erase.run E s).result = some a → (f a).AllNotes E P (p.erase.run E s).final := by
  rw [AllNotes, notes_bind, List.forall_mem_append]
  refine and_congr_right' ?_
  cases hresult : (p.erase.run E s).result with
  | none => simp
  | some a =>
      constructor
      · rintro h b hb
        cases hb
        exact h
      · intro h
        exact h a rfl

end AllNotes

/-! ## Runs that return -/

/-- Every note of the run satisfies `P`, and the run returns. -/
def Sound (P : N → Prop) (p : Program (I.noting N) α) (s : σ) : Prop :=
  p.AllNotes E P s ∧ (p.erase.run E s).result.isSome

section Sound

variable {E} {P : N → Prop} {s : σ}

theorem sound_ret (a : α) : (ret a : Program (I.noting N) α).Sound E P s :=
  ⟨allNotes_ret a, rfl⟩

theorem not_sound_fault : ¬ (fault : Program (I.noting N) α).Sound E P s :=
  fun h => Bool.false_ne_true h.2

theorem sound_silent (p : Program I α) :
    (p.silent : Program (I.noting N) α).Sound E P s ↔ (p.run E s).result.isSome := by
  rw [Sound, erase_silent]
  exact and_iff_right (allNotes_silent p)

theorem sound_note (n : N) : (note n : Program (I.noting N) Unit).Sound E P s ↔ P n :=
  (and_iff_left rfl).trans (allNotes_note n)

theorem sound_note_bind (n : N) (f : Unit → Program (I.noting N) α) :
    (note n >>= f).Sound E P s ↔ P n ∧ (f ()).Sound E P s := by
  rw [Sound, allNotes_note_bind, erase_note_bind, and_assoc]
  rfl

theorem sound_bind (p : Program (I.noting N) α) (f : α → Program (I.noting N) β) :
    (p >>= f).Sound E P s ↔ p.Sound E P s ∧
      ∀ a, (p.erase.run E s).result = some a → (f a).Sound E P (p.erase.run E s).final := by
  rw [Sound, Sound, allNotes_bind, erase_bind, run_bind]
  cases hresult : (p.erase.run E s).result with
  | none => simp
  | some a =>
      simp only [Option.some.injEq, forall_eq', Option.isSome_some, and_true, and_assoc]
      rfl

theorem sound_silent_bind (p : Program I α) (f : α → Program (I.noting N) β) :
    (p.silent >>= f).Sound E P s ↔
      ∃ a, (p.run E s).result = some a ∧ (f a).Sound E P (p.run E s).final := by
  rw [sound_bind, sound_silent, erase_silent]
  cases (p.run E s).result with
  | none => simp
  | some a => simp

theorem sound_ofOption_bind (a : Option α) (f : α → Program (I.noting N) β) :
    (ofOption a >>= f).Sound E P s ↔ ∃ x, a = some x ∧ (f x).Sound E P s := by
  cases a with
  | none => exact iff_of_false not_sound_fault fun ⟨x, hx, _⟩ => nomatch hx
  | some a =>
      constructor
      · intro h
        exact ⟨a, rfl, h⟩
      · rintro ⟨x, ⟨⟩, h⟩
        exact h

/-- The value of a program is not needed. -/
theorem sound_effects (p : Program (I.noting N) α) :
    p.effects.Sound E P s ↔ p.Sound E P s := by
  rw [effects, sound_bind]
  exact and_iff_left fun _ _ => sound_ret ()

end Sound

end Program

end Interaction
