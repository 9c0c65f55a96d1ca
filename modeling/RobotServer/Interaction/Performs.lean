import RobotServer.Interaction.Program

/-!
# Performs — a property of the operations of a program

`Performs P p` says that every operation that `p` may perform satisfies `P`, whatever the replies.
The rules follow the constructors of programs and their composition; `Performs.trace` hands the
property to the operations of a run.  `AtLeast P p n` counts: a run of `p` that returns performs `n`
operations of the kind `P`, or more.
-/

namespace Interaction

/-- Every operation the program may perform, whatever the replies, satisfies `P`. -/
def Program.Performs {I : Interface} {α : Type} (P : I.Op → Prop) : Program I α → Prop
  | .ret _ => True
  | .call o k => P o ∧ ∀ r, (k r).Performs P
  | .fault => True

namespace Program

variable {I : Interface} {α β : Type} {P : I.Op → Prop}

theorem performs_perform {o : I.Op} (h : P o) : (perform o : Program I _).Performs P :=
  ⟨h, fun _ => trivial⟩

theorem Performs.bind {p : Program I α} {f : α → Program I β} (hp : p.Performs P)
    (hf : ∀ a, (f a).Performs P) : (p >>= f).Performs P := by
  induction p with
  | ret a => exact hf a
  | call o k ih => exact ⟨hp.1, fun r => ih r (hp.2 r)⟩
  | fault => trivial

theorem performs_ofOption (a : Option α) : (ofOption a : Program I α).Performs P := by
  cases a with
  | none => trivial
  | some a => trivial

theorem performs_onlyIf {c : Bool} {p : Program I Unit} (h : p.Performs P) :
    (onlyIf c p).Performs P := by
  cases c with
  | false => trivial
  | true => exact h

theorem Performs.mono {P' : I.Op → Prop} {p : Program I α} (h : p.Performs P)
    (himp : ∀ o, P o → P' o) : p.Performs P' := by
  induction p with
  | ret a => trivial
  | call o k ih => exact ⟨himp o h.1, fun r => ih r (h.2 r)⟩
  | fault => trivial

/-- What holds of the operations of a program holds of those it performed in a run. -/
theorem Performs.trace {σ : Type} {p : Program I α} (h : p.Performs P) (E : Environment I σ)
    (s : σ) : ∀ o ∈ (p.run E s).trace, P o := by
  induction p generalizing s with
  | ret a =>
      intro o ho
      cases ho
  | call o' k ih =>
      intro o ho
      rcases List.mem_cons.mp ho with rfl | hrest
      · exact h.1
      · exact ih _ (h.2 _) _ o hrest
  | fault =>
      intro o ho
      cases ho

/-! ## Counting operations -/

/-- Every run that returns performs at least `n` operations of the kind `P`. -/
def AtLeast (P : I.Op → Bool) : Program I α → Nat → Prop
  | .ret _, n => n = 0
  | .call o k, n => ∀ r, (k r).AtLeast P (if P o then n - 1 else n)
  | .fault, _ => True

section AtLeast

variable {P : I.Op → Bool}

theorem AtLeast.mono {p : Program I α} {m n : Nat} (h : p.AtLeast P n) (hle : m ≤ n) :
    p.AtLeast P m := by
  induction p generalizing m n with
  | ret a => exact Nat.le_zero.mp (Nat.le_trans hle (Nat.le_of_eq h))
  | call o k ih =>
      intro r
      refine ih r (h r) ?_
      split
      · exact Nat.sub_le_sub_right hle 1
      · exact hle
  | fault => trivial

theorem atLeast_zero (p : Program I α) : p.AtLeast P 0 := by
  induction p with
  | ret a => rfl
  | call o k ih =>
      intro r
      rw [Nat.zero_sub, ite_self]
      exact ih r
  | fault => trivial

/-- The operations of two programs add up. -/
theorem AtLeast.bind {Q : α → Prop} {p : Program I α} {f : α → Program I β} {m n : Nat}
    (hp : p.AtLeast P m) (hreturns : p.Returns Q) (hf : ∀ a, Q a → (f a).AtLeast P n) :
    (p >>= f).AtLeast P (m + n) := by
  induction p generalizing m with
  | ret a =>
      have hm : m = 0 := hp
      rw [hm, Nat.zero_add]
      exact hf a hreturns
  | call o k ih =>
      intro r
      refine AtLeast.mono (ih r (hp r) (hreturns r)) ?_
      split
      · omega
      · exact Nat.le_refl _
  | fault => trivial

/-- What every continuation performs is performed, whatever the program before. -/
theorem atLeast_bind_of_forall (p : Program I α) {f : α → Program I β} {n : Nat}
    (hf : ∀ a, (f a).AtLeast P n) : (p >>= f).AtLeast P n := by
  have hbind := (atLeast_zero p).bind (returns_true p) fun a _ => hf a
  rw [Nat.zero_add] at hbind
  exact hbind

theorem AtLeast.length_filter {σ : Type} {p : Program I α} {n : Nat} (h : p.AtLeast P n)
    (E : Environment I σ) (s : σ) (hresult : (p.run E s).result.isSome) :
    n ≤ ((p.run E s).trace.filter P).length := by
  induction p generalizing n s with
  | ret a => exact Nat.le_of_eq h
  | call o k ih =>
      have hrest := ih _ (h (E.answer o s).1) (E.answer o s).2 hresult
      change n ≤ ((o :: _).filter P).length
      by_cases ho : P o = true
      · rw [if_pos ho] at hrest
        rw [List.filter_cons_of_pos ho, List.length_cons]
        exact Nat.sub_le_iff_le_add.mp hrest
      · rw [if_neg ho] at hrest
        rw [List.filter_cons_of_neg ho]
        exact hrest
  | fault => cases hresult

end AtLeast

end Program

end Interaction
