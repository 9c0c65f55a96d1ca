import Mathlib.Tactic.Common

/-!
# Programs — finite interaction trees over an interface

A `Program I α` performs operations of the interface `I`, branches on their replies, and ends
in a value of `α` or in a `fault` (undefined behaviour: nothing more can be said about the run).

- `Program.bind`, with the monad laws, composes programs;
- `Program.Returns` is a postcondition on every value a program may return, `Program.Total` says
  that it cannot fault;
- `Program.effects` forgets the value, `Program.times` repeats a program;
- `Program.run` runs a program against an `Environment`, recording the performed operations.
-/

namespace Interaction

/-! ## Interfaces and programs -/

/-- The operations a program may perform, each with the type of its reply. -/
structure Interface where
  Op : Type
  Reply : Op → Type

inductive Program (I : Interface) (α : Type) where
  | ret (a : α)
  | call (o : I.Op) (k : I.Reply o → Program I α)
  | fault

namespace Program

variable {I : Interface} {α β γ : Type}

/-- Sequential composition: a fault in the first program is final. -/
def bind : Program I α → (α → Program I β) → Program I β
  | .ret a, f => f a
  | .call o k, f => .call o fun r => (k r).bind f
  | .fault, _ => .fault

instance : Monad (Program I) where
  pure := Program.ret
  bind := Program.bind

/-- Perform one operation and return its reply. -/
def perform (o : I.Op) : Program I (I.Reply o) :=
  .call o .ret

/-- Continue with the value of `a`, or fault when there is none. -/
def ofOption : Option α → Program I α
  | some a => .ret a
  | none => .fault

/-- `p` when the condition holds, nothing otherwise. -/
def onlyIf (c : Bool) (p : Program I Unit) : Program I Unit :=
  if c then p else .ret ()

@[simp] theorem pure_eq_ret (a : α) : (pure a : Program I α) = .ret a := rfl

@[simp] theorem ret_bind (a : α) (f : α → Program I β) : (.ret a : Program I α) >>= f = f a := rfl

@[simp] theorem call_bind (o : I.Op) (k : I.Reply o → Program I α) (f : α → Program I β) :
    (.call o k : Program I α) >>= f = .call o fun r => k r >>= f := rfl

@[simp] theorem fault_bind (f : α → Program I β) : (.fault : Program I α) >>= f = .fault := rfl

@[simp] theorem perform_bind (o : I.Op) (f : I.Reply o → Program I β) :
    perform o >>= f = .call o f := rfl

@[simp] theorem ofOption_some (a : α) : (ofOption (some a) : Program I α) = .ret a := rfl

@[simp] theorem ofOption_none : (ofOption none : Program I α) = .fault := rfl

@[simp] theorem onlyIf_true (p : Program I Unit) : onlyIf true p = p := rfl

@[simp] theorem onlyIf_false (p : Program I Unit) : onlyIf false p = .ret () := rfl

theorem bind_ret_eq (p : Program I α) : p >>= Program.ret = p := by
  induction p with
  | ret a => rfl
  | call o k ih =>
      have hk : (fun r => k r >>= Program.ret) = k := funext ih
      simp [hk]
  | fault => rfl

theorem bind_assoc_eq (p : Program I α) (f : α → Program I β) (g : β → Program I γ) :
    p >>= f >>= g = p >>= fun a => f a >>= g := by
  induction p with
  | ret a => rfl
  | call o k ih =>
      have hk : (fun r => k r >>= f >>= g) = fun r => k r >>= fun a => f a >>= g := funext ih
      simp [hk]
  | fault => rfl

instance : LawfulMonad (Program I) :=
  LawfulMonad.mk' (Program I) (fun p => bind_ret_eq p) (fun _ _ => rfl) bind_assoc_eq

/-! ## Postconditions -/

/-- Every value the program may return, whatever the replies, satisfies `Q`. -/
def Returns (Q : α → Prop) : Program I α → Prop
  | .ret a => Q a
  | .call _ k => ∀ r, (k r).Returns Q
  | .fault => True

@[simp] theorem returns_ret {Q : α → Prop} {a : α} : (ret a : Program I α).Returns Q ↔ Q a :=
  Iff.rfl

theorem returns_true (p : Program I α) : p.Returns fun _ => True := by
  induction p with
  | ret a => trivial
  | call o k ih => exact ih
  | fault => trivial

theorem Returns.mono {Q Q' : α → Prop} {p : Program I α} (h : p.Returns Q)
    (himp : ∀ a, Q a → Q' a) : p.Returns Q' := by
  induction p with
  | ret a => exact himp a h
  | call o k ih => exact fun r => ih r (h r)
  | fault => trivial

theorem Returns.bind {Q : α → Prop} {Q' : β → Prop} {p : Program I α} {f : α → Program I β}
    (h : p.Returns Q) (hf : ∀ a, Q a → (f a).Returns Q') : (p >>= f).Returns Q' := by
  induction p with
  | ret a => exact hf a h
  | call o k ih => exact fun r => ih r (h r)
  | fault => trivial

/-- A postcondition that every continuation ensures needs nothing of the program before. -/
theorem returns_bind_of_forall {Q : β → Prop} (p : Program I α) {f : α → Program I β}
    (hf : ∀ a, (f a).Returns Q) : (p >>= f).Returns Q :=
  (returns_true p).bind fun a _ => hf a

/-- Continuations that agree on the values a program may return are interchangeable. -/
theorem bind_congr_of_returns {Q : α → Prop} {p : Program I α} {f g : α → Program I β}
    (h : p.Returns Q) (hfg : ∀ a, Q a → f a = g a) : p >>= f = p >>= g := by
  induction p with
  | ret a => exact hfg a h
  | call o k ih =>
      have hk : (fun r => k r >>= f) = fun r => k r >>= g := funext fun r => ih r (h r)
      simp [hk]
  | fault => rfl

/-- No replies lead the program into a fault. -/
def Total : Program I α → Prop
  | .ret _ => True
  | .call _ k => ∀ r, (k r).Total
  | .fault => False

theorem total_perform (o : I.Op) : (perform o : Program I _).Total :=
  fun _ => trivial

theorem Total.bind {p : Program I α} {f : α → Program I β} (hp : p.Total)
    (hf : ∀ a, (f a).Total) : (p >>= f).Total := by
  induction p with
  | ret a => exact hf a
  | call o k ih => exact fun r => ih r (hp r)
  | fault => cases hp

theorem total_onlyIf {c : Bool} {p : Program I Unit} (h : p.Total) : (onlyIf c p).Total := by
  cases c with
  | false => trivial
  | true => exact h

/-! ## Effects and repetition -/

/-- The program without the value it returns. -/
def effects (p : Program I α) : Program I Unit :=
  p >>= fun _ => .ret ()

@[simp] theorem effects_ret (a : α) : (ret a : Program I α).effects = .ret () := rfl

theorem effects_bind (p : Program I α) (f : α → Program I β) :
    (p >>= f).effects = p >>= fun a => (f a).effects :=
  bind_assoc_eq p f fun _ => .ret ()

/-- The program repeated `n` times. -/
def times (p : Program I Unit) : Nat → Program I Unit
  | 0 => .ret ()
  | n + 1 => p >>= fun _ => p.times n

/-- The operation a program starts with. -/
def firstOp : Program I α → Option I.Op
  | .ret _ => none
  | .call o _ => some o
  | .fault => none

/-- Some replies lead the program to the value `a`. -/
inductive CanReturn : Program I α → α → Prop where
  | ret (a : α) : CanReturn (.ret a) a
  | call (o : I.Op) (k : I.Reply o → Program I α) (r : I.Reply o) (a : α) :
      CanReturn (k r) a → CanReturn (.call o k) a

/-- A common first part of two equal programs can be removed. -/
theorem CanReturn.bind_cancel {p : Program I α} {a : α} (h : p.CanReturn a)
    {f g : α → Program I β} (heq : p >>= f = p >>= g) : f a = g a := by
  induction h with
  | ret a => exact heq
  | call o k r a _ ih =>
      simp only [call_bind, call.injEq, heq_eq_eq, true_and] at heq
      exact ih (congrFun heq r)

/-- A program that starts with an operation and can return is repeated as often as its
repetition tells. -/
theorem times_injective {o : I.Op} {k : I.Reply o → Program I Unit}
    (hreturn : (call o k).CanReturn ()) :
    ∀ m n : Nat, (call o k).times m = (call o k).times n → m = n := by
  intro m
  induction m with
  | zero =>
      intro n h
      cases n with
      | zero => rfl
      | succ n => cases h
  | succ m ih =>
      intro n h
      cases n with
      | zero => cases h
      | succ n => exact congrArg Nat.succ (ih n (hreturn.bind_cancel h))

end Program

/-! ## Running a program against an environment -/

/-- An environment answers every operation and moves to its next state. -/
structure Environment (I : Interface) (σ : Type) where
  answer : (o : I.Op) → σ → I.Reply o × σ

/-- What a run leaves behind: the performed operations in order, the returned value
(`none` after a fault) and the final state of the environment. -/
structure Outcome (I : Interface) (σ α : Type) where
  trace : List I.Op
  result : Option α
  final : σ

namespace Program

variable {I : Interface} {σ α β : Type} (E : Environment I σ)

def run : Program I α → σ → Outcome I σ α
  | .ret a, s => ⟨[], some a, s⟩
  | .call o k, s =>
      let out := (k (E.answer o s).1).run (E.answer o s).2
      ⟨o :: out.trace, out.result, out.final⟩
  | .fault, s => ⟨[], none, s⟩

@[simp] theorem run_ret (a : α) (s : σ) : (ret a : Program I α).run E s = ⟨[], some a, s⟩ := rfl

@[simp] theorem run_fault (s : σ) : (fault : Program I α).run E s = ⟨[], none, s⟩ := rfl

@[simp] theorem run_call (o : I.Op) (k : I.Reply o → Program I α) (s : σ) :
    (call o k).run E s =
      ⟨o :: ((k (E.answer o s).1).run E (E.answer o s).2).trace,
        ((k (E.answer o s).1).run E (E.answer o s).2).result,
        ((k (E.answer o s).1).run E (E.answer o s).2).final⟩ := rfl

/-- The second program of a composition runs from where the first one ended. -/
theorem run_bind (p : Program I α) (f : α → Program I β) (s : σ) :
    (p >>= f).run E s =
      match (p.run E s).result with
      | some a =>
          ⟨(p.run E s).trace ++ ((f a).run E (p.run E s).final).trace,
            ((f a).run E (p.run E s).final).result, ((f a).run E (p.run E s).final).final⟩
      | none => ⟨(p.run E s).trace, none, (p.run E s).final⟩ := by
  induction p generalizing s with
  | ret a => simp
  | call o k ih =>
      simp only [call_bind, run_call, ih]
      cases ((k (E.answer o s).1).run E (E.answer o s).2).result <;> simp
  | fault => simp

theorem run_bind_of_result {p : Program I α} {f : α → Program I β} {s : σ} {a : α}
    (h : (p.run E s).result = some a) :
    (p >>= f).run E s =
      ⟨(p.run E s).trace ++ ((f a).run E (p.run E s).final).trace,
        ((f a).run E (p.run E s).final).result, ((f a).run E (p.run E s).final).final⟩ := by
  rw [run_bind, h]

theorem result_bind_of_none {p : Program I α} {f : α → Program I β} {s : σ}
    (h : (p.run E s).result = none) : ((p >>= f).run E s).result = none := by
  rw [run_bind, h]

/-- The operations of the first program of a composition come first. -/
theorem exists_trace_bind (p : Program I α) (f : α → Program I β) (s : σ) :
    ∃ later, ((p >>= f).run E s).trace = (p.run E s).trace ++ later ∧
      (later = [] ∨ ∃ a, (p.run E s).result = some a ∧
        later = ((f a).run E (p.run E s).final).trace) := by
  rw [run_bind]
  cases hresult : (p.run E s).result with
  | none => exact ⟨[], (List.append_nil _).symm, .inl rfl⟩
  | some a => exact ⟨_, rfl, .inr ⟨a, rfl, rfl⟩⟩

/-- Changing the value of a program performs nothing. -/
theorem trace_bind_ret (p : Program I α) (f : α → β) (s : σ) :
    ((p >>= fun a => .ret (f a)).run E s).trace = (p.run E s).trace := by
  rcases exists_trace_bind E p (fun a => Program.ret (f a)) s with ⟨later, htrace, hlater⟩
  have hnil : later = [] := by
    rcases hlater with hnil | ⟨a, -, hret⟩
    · exact hnil
    · exact hret
  rw [htrace, hnil, List.append_nil]

theorem trace_effects (p : Program I α) (s : σ) :
    (p.effects.run E s).trace = (p.run E s).trace :=
  trace_bind_ret E p (fun _ => ()) s

/-- The run of a program that forgets its value. -/
theorem run_effects (p : Program I α) (s : σ) :
    p.effects.run E s =
      ⟨(p.run E s).trace, (p.run E s).result.map fun _ => (), (p.run E s).final⟩ := by
  rw [effects, run_bind]
  cases (p.run E s).result with
  | none => rfl
  | some a => simp

theorem Total.isSome_result {p : Program I α} (h : p.Total) (s : σ) :
    (p.run E s).result.isSome := by
  induction p generalizing s with
  | ret a => rfl
  | call o k ih => exact ih _ (h _) _
  | fault => cases h

/-- A composition returns exactly when its first program does, and its second one from there. -/
theorem isSome_result_bind (p : Program I α) (f : α → Program I β) (s : σ) :
    ((p >>= f).run E s).result.isSome ↔
      ∃ a, (p.run E s).result = some a ∧ ((f a).run E (p.run E s).final).result.isSome := by
  rw [run_bind]
  cases (p.run E s).result with
  | none => simp
  | some a => simp

/-- Continuations that cannot fault leave it to the first program. -/
theorem isSome_result_bind_of_total (p : Program I α) {f : α → Program I β}
    (hf : ∀ a, (f a).Total) (s : σ) :
    ((p >>= f).run E s).result.isSome ↔ (p.run E s).result.isSome := by
  rw [isSome_result_bind, Option.isSome_iff_exists]
  exact exists_congr fun a => and_iff_left ((hf a).isSome_result E _)

/-- A run behind a partial step returns exactly when the step has a value and the rest returns. -/
theorem isSome_result_ofOption_bind (a : Option α) (f : α → Program I β) (s : σ) :
    ((ofOption a >>= f).run E s).result.isSome ↔
      ∃ x, a = some x ∧ ((f x).run E s).result.isSome := by
  cases a with
  | none => simp
  | some x => simp

/-- The operations of a run tell where it ends. -/
theorem final_eq_foldl (p : Program I α) (s : σ) :
    (p.run E s).final = (p.run E s).trace.foldl (fun s o => (E.answer o s).2) s := by
  induction p generalizing s with
  | ret a => rfl
  | call o k ih => exact ih _ _
  | fault => rfl

/-- What no operation changes, a run leaves alone. -/
theorem run_keeps {view : σ → β} (hkeep : ∀ o s, view (E.answer o s).2 = view s)
    (p : Program I α) (s : σ) : view (p.run E s).final = view s := by
  induction p generalizing s with
  | ret a => rfl
  | call o k ih => exact (ih _ _).trans (hkeep o s)
  | fault => rfl

/-- The value of a run is one the program may return. -/
theorem Returns.of_result {Q : α → Prop} {p : Program I α} (h : p.Returns Q) {s : σ} {a : α}
    (hresult : (p.run E s).result = some a) : Q a := by
  induction p generalizing s with
  | ret b =>
      injection hresult with heq
      exact heq ▸ h
  | call o k ih => exact ih _ (h _) hresult
  | fault => cases hresult

end Program

end Interaction
