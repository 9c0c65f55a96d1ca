import Mathlib.Logic.Function.Basic
import Mathlib.Tactic.Common

/-!
# TwoWay — two maps that are meant to be inverse

`R` maps keys of one side to the other side and `P` maps them back; `Paired f g R P` says that one
holds a pair exactly when the other does, where `f` and `g` encode the two sides as values.  The
lemmas tell when writing a pair into both maps, or into one of them, keeps this.
-/

namespace TwoWay

variable {δ υ α β : Type} [DecidableEq δ] [DecidableEq υ]

/-- Each pair stands in both maps or in none. -/
def Paired (f : υ → α) (g : δ → β) (R : δ → Option α) (P : υ → Option β) : Prop :=
  ∀ u d, R d = some (f u) ↔ P u = some (g d)

/-- The two sides of a pair are not taken by others. -/
def Free (f : υ → α) (g : δ → β) (R : δ → Option α) (P : υ → Option β) (u : υ) (d : δ) : Prop :=
  (∀ u', R d = some (f u') → u' = u) ∧ ∀ d', P u = some (g d') → d' = d

variable {f : υ → α} {g : δ → β} {R : δ → Option α} {P : υ → Option β}

/-- A pair can be written into both maps exactly when its sides are free. -/
theorem paired_update_iff (hf : Function.Injective f) (hg : Function.Injective g)
    (h : Paired f g R P) (u : υ) (d : δ) :
    Paired f g (Function.update R d (some (f u))) (Function.update P u (some (g d))) ↔
      Free f g R P u d := by
  constructor
  · intro hupdate
    refine ⟨?_, ?_⟩
    · intro u' hu'
      -- The other side of an old pair would still point here.
      by_contra hne
      have hback := (h u' d).mp hu'
      have hforward := (hupdate u' d).mpr (by rw [Function.update_of_ne hne]; exact hback)
      rw [Function.update_self] at hforward
      exact hne (hf (Option.some.inj hforward)).symm
    · intro d' hd'
      by_contra hne
      have hforward := (h u d').mpr hd'
      have hback := (hupdate u d').mp (by rw [Function.update_of_ne hne]; exact hforward)
      rw [Function.update_self] at hback
      exact hne (hg (Option.some.inj hback)).symm
  · rintro ⟨hleft, hright⟩ u' d'
    by_cases hu : u' = u
    · subst hu
      rw [Function.update_self]
      by_cases hd : d' = d
      · subst hd
        rw [Function.update_self]
        exact iff_of_true rfl rfl
      · rw [Function.update_of_ne hd]
        refine iff_of_false ?_ ?_
        · exact fun heq => hd (hright d' ((h u' d').mp heq))
        · exact fun heq => hd (hg (Option.some.inj heq)).symm
    · rw [Function.update_of_ne hu]
      by_cases hd : d' = d
      · subst hd
        rw [Function.update_self]
        refine iff_of_false ?_ ?_
        · exact fun heq => hu (hf (Option.some.inj heq)).symm
        · exact fun heq => hu (hleft u' ((h u' d').mpr heq))
      · rw [Function.update_of_ne hd]
        exact h u' d'

omit [DecidableEq δ] in
/-- A pair can be written into one map alone exactly when it stands there. -/
theorem paired_update_right_iff (h : Paired f g R P) (u : υ) (d : δ) :
    Paired f g R (Function.update P u (some (g d))) ↔ P u = some (g d) := by
  constructor
  · intro hupdate
    refine (h u d).mp ((hupdate u d).mpr ?_)
    exact Function.update_self _ _ _
  · intro hpair
    rw [Function.update_eq_self_iff.mpr hpair.symm]
    exact h

end TwoWay
