import Mathlib.Data.Set.Insert
import RobotServer.Interaction.Interleaving

/-!
# Ownership — programs that give back what they take

A `Ledger` tells of every operation which resources it needs, which it gives back and which its
reply hands out.  `Program.Owns` follows what a program holds: every operation needs only what is
held, and what is held at the end is told by a postcondition.

- `Owns.bind` composes programs;
- `Config.run_owns` runs such programs side by side: where the environment hands out only what
  nobody holds, every operation of a thread is on what the thread itself holds.
-/

namespace Interaction

structure Ledger (I : Interface) (ρ : Type) where
  needs : I.Op → List ρ
  releases : I.Op → Option ρ
  acquires : (o : I.Op) → I.Reply o → Option ρ

namespace Ledger

variable {I : Interface} {ρ : Type} (L : Ledger I ρ)

/-- What is held behind an operation with its reply. -/
def after (held : Set ρ) (o : I.Op) (reply : I.Reply o) : Set ρ :=
  {r | (r ∈ held ∧ L.releases o ≠ some r) ∨ L.acquires o reply = some r}

theorem mem_after {held : Set ρ} {o : I.Op} {reply : I.Reply o} {r : ρ} :
    r ∈ L.after held o reply ↔
      (r ∈ held ∧ L.releases o ≠ some r) ∨ L.acquires o reply = some r :=
  Iff.rfl

theorem after_of_release {held : Set ρ} {o : I.Op} {reply : I.Reply o} {r : ρ}
    (hrelease : L.releases o = some r) (hacquire : L.acquires o reply = none) :
    L.after held o reply = held \ {r} := by
  ext r'
  rw [mem_after, hrelease, hacquire]
  simp [eq_comm]

theorem after_of_acquire {held : Set ρ} {o : I.Op} {reply : I.Reply o} {r : ρ}
    (hrelease : L.releases o = none) (hacquire : L.acquires o reply = some r) :
    L.after held o reply = insert r held := by
  ext r'
  rw [mem_after, hrelease, hacquire]
  simp [eq_comm, or_comm]

theorem after_of_none {held : Set ρ} {o : I.Op} {reply : I.Reply o}
    (hrelease : L.releases o = none) (hacquire : L.acquires o reply = none) :
    L.after held o reply = held := by
  ext r'
  rw [mem_after, hrelease, hacquire]
  simp

end Ledger

namespace Program

variable {I : Interface} {ρ α β : Type} (L : Ledger I ρ)

/-- From `held` on, the program needs only what it holds, and ends with `Q`.  Nothing is said of what
follows a fault. -/
def Owns (Q : α → Set ρ → Prop) : Program I α → Set ρ → Prop
  | .ret a, held => Q a held
  | .call o k, held =>
      (∀ r ∈ L.needs o, r ∈ held) ∧
        ∀ reply, (∀ r, L.acquires o reply = some r → r ∉ held) →
          (k reply).Owns Q (L.after held o reply)
  | .fault, _ => True

variable {L} {Q Q' : α → Set ρ → Prop}

theorem Owns.mono {p : Program I α} (himp : ∀ a held, Q a held → Q' a held) :
    ∀ {held : Set ρ}, p.Owns L Q held → p.Owns L Q' held := by
  induction p with
  | ret a => exact fun h => himp a _ h
  | call o k ih => exact fun h => ⟨h.1, fun reply hfresh => ih reply (h.2 reply hfresh)⟩
  | fault => exact fun _ => trivial

theorem Owns.bind {R : β → Set ρ → Prop} {p : Program I α} {f : α → Program I β}
    (hf : ∀ a held, Q a held → (f a).Owns L R held) :
    ∀ {held : Set ρ}, p.Owns L Q held → (p >>= f).Owns L R held := by
  induction p with
  | ret a => exact fun h => hf a _ h
  | call o k ih => exact fun h => ⟨h.1, fun reply hfresh => ih reply (h.2 reply hfresh)⟩
  | fault => exact fun _ => trivial

end Program

/-! ## Side by side -/

/-- The environment hands out what nobody holds, and knows what is held. -/
structure Honest {I : Interface} {σ ρ : Type} (L : Ledger I ρ) (E : Environment I σ)
    (live : σ → Set ρ) : Prop where
  fresh : ∀ o s r, L.acquires o (E.answer o s).1 = some r → r ∉ live s
  live_answer : ∀ o s, live (E.answer o s).2 = L.after (live s) o (E.answer o s).1

namespace Config

variable {ι σ ρ : Type} {I : Interface} [DecidableEq ι]

/-- What thread `i` has taken and not given back. -/
def holdings (L : Ledger I ρ) (i : ι) (history : List (Event ι I)) : Set ρ :=
  history.foldl (fun held e => if e.thread = i then L.after held e.op e.reply else held) ∅

variable {L : Ledger I ρ}

theorem holdings_concat (i : ι) (history : List (Event ι I)) (e : Event ι I) :
    holdings L i (history ++ [e]) =
      if e.thread = i then L.after (holdings L i history) e.op e.reply
      else holdings L i history := by
  rw [holdings, List.foldl_append]
  rfl

/-- What holds of threads that own what they use. -/
structure Apart (L : Ledger I ρ) (live : σ → Set ρ) (c : Config ι I σ) : Prop where
  owns : ∀ i, (c.pool i).Owns L (fun _ held => held = ∅) (holdings L i c.history)
  unique : ∀ i j r, r ∈ holdings L i c.history → r ∈ holdings L j c.history → i = j
  live_iff : ∀ r, r ∈ live c.state ↔ ∃ i, r ∈ holdings L i c.history
  needs : ∀ before e after, c.history = before ++ e :: after → ∀ r ∈ L.needs e.op,
    r ∈ holdings L e.thread before ∧ ∀ j, r ∈ holdings L j before → j = e.thread

variable {E : Environment I σ} {live : σ → Set ρ}

theorem Apart.step (hhonest : Honest L E live)
    (hrelease : ∀ o r, L.releases o = some r → r ∈ L.needs o) {c : Config ι I σ}
    (h : Apart L live c) (i : ι) : Apart L live (c.step E i) := by
  rcases step_cases (E := E) c i with hsame | ⟨o, hnext⟩
  · rw [hsame]
    exact h
  rcases exists_call_of_next hnext with ⟨k, hcall⟩
  have howns := h.owns i
  rw [hcall] at howns
  obtain ⟨hneeds, hgo⟩ := howns
  -- What the environment hands out is with no thread.
  have hfresh : ∀ r, L.acquires o (E.answer o c.state).1 = some r →
      ∀ j, r ∉ holdings L j c.history := fun r hr j hj =>
    hhonest.fresh o c.state r hr ((h.live_iff r).mpr ⟨j, hj⟩)
  rw [step_of_call hcall]
  have hself : holdings L i (c.history ++ [⟨i, o, (E.answer o c.state).1⟩]) =
      L.after (holdings L i c.history) o (E.answer o c.state).1 := by
    rw [holdings_concat, if_pos rfl]
  have hother : ∀ j, j ≠ i → holdings L j (c.history ++ [⟨i, o, (E.answer o c.state).1⟩]) =
      holdings L j c.history := fun j hj => by
    rw [holdings_concat, if_neg (Ne.symm hj)]
  have hnotmine : ∀ j r, j ≠ i → r ∈ holdings L j c.history →
      r ∉ L.after (holdings L i c.history) o (E.answer o c.state).1 := by
    intro j r hj hr hin
    rcases hin with ⟨hmine, -⟩ | hnew
    · exact hj (h.unique j i r hr hmine)
    · exact hfresh r hnew j hr
  refine ⟨fun j => ?_, fun j j' r hj hj' => ?_, fun r => ?_, fun before e after hsplit => ?_⟩
  · by_cases hj : j = i
    · subst hj
      simp only [Function.update_self]
      rw [hself]
      exact hgo _ fun r hr => hfresh r hr j
    · simp only [Function.update_of_ne hj]
      rw [hother j hj]
      exact h.owns j
  · simp only at hj hj'
    by_cases hji : j = i
    · by_cases hji' : j' = i
      · rw [hji, hji']
      · rw [hother j' hji'] at hj'
        rw [hji, hself] at hj
        exact absurd hj (hnotmine j' r hji' hj')
    · rw [hother j hji] at hj
      by_cases hji' : j' = i
      · rw [hji', hself] at hj'
        exact absurd hj' (hnotmine j r hji hj)
      · rw [hother j' hji'] at hj'
        exact h.unique j j' r hj hj'
  · simp only
    rw [hhonest.live_answer, Ledger.mem_after, h.live_iff]
    constructor
    · rintro (⟨⟨j, hj⟩, hkept⟩ | hnew)
      · by_cases hji : j = i
        · subst hji
          exact ⟨j, by rw [hself]; exact .inl ⟨hj, hkept⟩⟩
        · exact ⟨j, by rw [hother j hji]; exact hj⟩
      · exact ⟨i, by rw [hself]; exact .inr hnew⟩
    · rintro ⟨j, hj⟩
      by_cases hji : j = i
      · rw [hji, hself] at hj
        rcases hj with ⟨hmine, hkept⟩ | hnew
        · exact .inl ⟨⟨i, hmine⟩, hkept⟩
        · exact .inr hnew
      · rw [hother j hji] at hj
        refine .inl ⟨⟨j, hj⟩, fun hreleased => ?_⟩
        -- What is given back was held by the thread that gives it back.
        exact hji (h.unique j i r hj (hneeds r (hrelease o r hreleased)))
  · rcases List.eq_nil_or_concat after with rfl | ⟨middle, last, rfl⟩
    · obtain ⟨hbefore, hlast⟩ := List.append_inj' hsplit rfl
      subst hbefore
      cases hlast
      exact fun r hr => ⟨hneeds r hr, fun j hj => h.unique j i r hj (hneeds r hr)⟩
    · have hsplit' : c.history ++ [⟨i, o, (E.answer o c.state).1⟩] =
          (before ++ e :: middle) ++ [last] := by
        rw [List.concat_eq_append] at hsplit
        rw [List.append_assoc, List.cons_append]
        exact hsplit
      exact h.needs before e middle (List.append_inj' hsplit' rfl).1

/-- Threads that give back what they take stay apart in every schedule. -/
theorem run_owns (hhonest : Honest L E live)
    (hrelease : ∀ o r, L.releases o = some r → r ∈ L.needs o)
    {pool : ι → Program I Unit} (hpool : ∀ i, (pool i).Owns L (fun _ held => held = ∅) ∅)
    {s : σ} (hlive : live s = ∅) (schedule : List ι) :
    Apart L live ((start pool s).run E schedule) := by
  induction schedule using List.reverseRecOn with
  | nil =>
      refine ⟨hpool, fun _ _ _ hr => (nomatch hr), fun r => ?_, fun before e after hsplit => ?_⟩
      · rw [run_nil]
        exact iff_of_false (hlive ▸ Set.notMem_empty r) fun ⟨_, hr⟩ => (nomatch hr)
      · exact absurd hsplit.symm (List.append_ne_nil_of_right_ne_nil _ (List.cons_ne_nil _ _))
  | append_singleton schedule i ih =>
      rw [run_concat]
      exact ih.step hhonest hrelease i

end Config

end Interaction
