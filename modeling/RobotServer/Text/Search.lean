import Mathlib.Data.Nat.Find
import Mathlib.Tactic.Common

/-!
# Search — places in a list

`FollowedAt key t p` says that `key` stands in `t` at index `p` with something behind it, and
`IsFirst key t p` that it does so there for the first time.  `OccursAt` and `FirstAt` say the same
of a place with or without something behind it.  `UpTo sep value t` is the stretch of a list in
front of the first separator.  Blocks that are closed by a separator can be read off their
concatenation (`flatten_injective_of_closed`).
-/

namespace Search

variable {α : Type}

/-! ## Occurrences -/

def FollowedAt (key t : List α) (p : Nat) : Prop :=
  ∃ c rest, t.drop p = key ++ c :: rest

structure IsFirst (key t : List α) (p : Nat) : Prop where
  followed : FollowedAt key t p
  first : ∀ q, q < p → ¬ FollowedAt key t q

variable {key t : List α} {p q : Nat}

theorem FollowedAt.isInfix (h : FollowedAt key t p) : key <:+: t := by
  rcases h with ⟨c, rest, hdrop⟩
  refine ⟨t.take p, c :: rest, ?_⟩
  rw [List.append_assoc, ← hdrop, List.take_append_drop]

theorem FollowedAt.lt_length (h : FollowedAt key t p) : p + key.length < t.length := by
  rcases h with ⟨c, rest, hdrop⟩
  have hlength := congrArg List.length hdrop
  rw [List.length_drop, List.length_append, List.length_cons] at hlength
  omega

theorem IsFirst.unique (hp : IsFirst key t p) (hq : IsFirst key t q) : p = q := by
  rcases Nat.lt_trichotomy p q with hlt | heq | hgt
  · exact absurd hp.followed (hq.first p hlt)
  · exact heq
  · exact absurd hq.followed (hp.first q hgt)

/-- The head of a list is in front of every other place. -/
theorem IsFirst.zero (h : FollowedAt key t 0) : IsFirst key t 0 :=
  ⟨h, fun _ hq => absurd hq (Nat.not_lt_zero _)⟩

theorem IsFirst.cons {c : α} (hhead : ¬ FollowedAt key (c :: t) 0) (h : IsFirst key t p) :
    IsFirst key (c :: t) (p + 1) := by
  refine ⟨h.followed, ?_⟩
  intro q hq
  cases q with
  | zero => exact hhead
  | succ q => exact h.first q (Nat.lt_of_succ_lt_succ hq)

/-! ## Occurrences at the end -/

/-- `key` stands in `t` at index `p`. -/
def OccursAt (key t : List α) (p : Nat) : Prop :=
  p ≤ t.length ∧ key <+: t.drop p

structure FirstAt (key t : List α) (p : Nat) : Prop where
  occurs : OccursAt key t p
  first : ∀ q, q < p → ¬ OccursAt key t q

theorem OccursAt.add_length_le (h : OccursAt key t p) : p + key.length ≤ t.length := by
  have hlength := h.2.length_le
  rw [List.length_drop] at hlength
  have hp := h.1
  omega

theorem followedAt_iff : FollowedAt key t p ↔ OccursAt key t p ∧ p + key.length < t.length := by
  constructor
  · intro h
    have hlength := h.lt_length
    rcases h with ⟨c, rest, hdrop⟩
    refine ⟨⟨by omega, ?_⟩, hlength⟩
    rw [hdrop]
    exact List.prefix_append _ _
  · rintro ⟨⟨hp, rest, hrest⟩, hlength⟩
    cases rest with
    | nil =>
        have heq := congrArg List.length hrest
        rw [List.append_nil, List.length_drop] at heq
        omega
    | cons c rest => exact ⟨c, rest, hrest.symm⟩

/-- An occurrence is told by its elements. -/
theorem occursAt_iff_getElem? : OccursAt key t p ↔
    p + key.length ≤ t.length ∧ ∀ d, d < key.length → t[p + d]? = key[d]? := by
  constructor
  · intro h
    refine ⟨h.add_length_le, ?_⟩
    intro d hd
    rw [← List.getElem?_drop, List.getElem?_eq_getElem hd]
    exact List.prefix_iff_getElem?.mp h.2 d hd
  · rintro ⟨hlength, helem⟩
    refine ⟨by omega, List.prefix_iff_getElem?.mpr ?_⟩
    intro d hd
    rw [List.getElem?_drop, helem d hd, List.getElem?_eq_getElem hd]

theorem FirstAt.unique (hp : FirstAt key t p) (hq : FirstAt key t q) : p = q := by
  rcases Nat.lt_trichotomy p q with hlt | heq | hgt
  · exact absurd hp.occurs (hq.first p hlt)
  · exact heq
  · exact absurd hq.occurs (hp.first q hgt)

/-- In front of a place with something behind it, every place has something behind it. -/
theorem IsFirst.firstAt (h : IsFirst key t p) : FirstAt key t p := by
  have hlength := h.followed.lt_length
  refine ⟨(followedAt_iff.mp h.followed).1, ?_⟩
  intro q hq hoccurs
  exact h.first q hq (followedAt_iff.mpr ⟨hoccurs, by omega⟩)

theorem OccursAt.exists_firstAt (h : OccursAt key t p) : ∃ q, FirstAt key t q := by
  classical
  have hexists : ∃ q, OccursAt key t q := ⟨p, h⟩
  exact ⟨Nat.find hexists, Nat.find_spec hexists, fun _ => Nat.find_min hexists⟩

/-! ## Stretches -/

/-- `value` is what stands in front of the first separator. -/
def UpTo (sep : α) (value t : List α) : Prop :=
  sep ∉ value ∧ ∃ rest, t = value ++ sep :: rest

variable {sep : α} {value value' : List α}

theorem UpTo.takeWhile_eq [DecidableEq α] (h : UpTo sep value t) :
    t.takeWhile (fun c => decide (c ≠ sep)) = value := by
  rcases h with ⟨hvalue, rest, rfl⟩
  have hall : ∀ c ∈ value, decide (c ≠ sep) = true := fun c hc =>
    decide_eq_true fun heq => hvalue (heq ▸ hc)
  rw [List.takeWhile_append_of_pos hall]
  simp

theorem UpTo.unique [DecidableEq α] (h : UpTo sep value t) (h' : UpTo sep value' t) :
    value = value' :=
  h.takeWhile_eq.symm.trans h'.takeWhile_eq

theorem upTo_nil (rest : List α) : UpTo sep [] (sep :: rest) :=
  ⟨List.not_mem_nil, rest, rfl⟩

theorem UpTo.cons {c : α} (hc : c ≠ sep) (h : UpTo sep value t) :
    UpTo sep (c :: value) (c :: t) := by
  rcases h with ⟨hvalue, rest, rfl⟩
  refine ⟨?_, rest, rfl⟩
  rw [List.mem_cons, not_or]
  exact ⟨Ne.symm hc, hvalue⟩

/-- The first element of a stretch is the first element of the list. -/
theorem upTo_cons_iff {c : α} (hc : c ≠ sep) :
    UpTo sep value (c :: t) ↔ ∃ value', value = c :: value' ∧ UpTo sep value' t := by
  constructor
  · rintro ⟨hvalue, rest, ht⟩
    cases value with
    | nil =>
        rw [List.nil_append, List.cons.injEq] at ht
        exact absurd ht.1 hc
    | cons d value =>
        rw [List.cons_append, List.cons.injEq] at ht
        rcases ht with ⟨rfl, ht⟩
        exact ⟨value, rfl, fun h => hvalue (List.mem_cons_of_mem _ h), rest, ht⟩
  · rintro ⟨value', rfl, h⟩
    exact h.cons hc

theorem upTo_separator_iff {rest : List α} : UpTo sep value (sep :: rest) ↔ value = [] := by
  constructor
  · rintro ⟨hvalue, rest', ht⟩
    cases value with
    | nil => rfl
    | cons d value =>
        rw [List.cons_append, List.cons.injEq] at ht
        exact absurd (ht.1 ▸ List.mem_cons_self) hvalue
  · rintro rfl
    exact upTo_nil rest

theorem not_upTo_nil : ¬ UpTo sep value [] := by
  rintro ⟨-, rest, ht⟩
  exact absurd ht.symm (List.append_ne_nil_of_right_ne_nil _ (List.cons_ne_nil _ _))

/-- A last element that is no separator ends no stretch. -/
theorem upTo_concat_iff {c : α} (hc : c ≠ sep) : UpTo sep value (t ++ [c]) ↔ UpTo sep value t := by
  induction t generalizing value with
  | nil =>
      refine iff_of_false ?_ not_upTo_nil
      rw [List.nil_append, upTo_cons_iff hc]
      rintro ⟨value', -, h⟩
      exact not_upTo_nil h
  | cons d t ih =>
      rw [List.cons_append]
      by_cases hd : d = sep
      · rw [hd, upTo_separator_iff, upTo_separator_iff]
      · rw [upTo_cons_iff hd, upTo_cons_iff hd]
        exact exists_congr fun value' => and_congr_right fun _ => ih

/-! ## Closed blocks -/

/-- Two lists that are cut at their first separator are cut alike. -/
theorem append_cons_inj [DecidableEq α] {rest rest' : List α} (hvalue : sep ∉ value)
    (hvalue' : sep ∉ value') (h : value ++ sep :: rest = value' ++ sep :: rest') :
    value = value' ∧ rest = rest' := by
  have heq : value = value' := UpTo.unique ⟨hvalue, rest, rfl⟩ ⟨hvalue', rest', h⟩
  subst heq
  exact ⟨rfl, List.tail_eq_of_cons_eq (List.append_cancel_left h)⟩

/-- The separator stands at the end of the block and nowhere else. -/
def Closed (sep : α) (block : List α) : Prop :=
  ∃ body, sep ∉ body ∧ block = body ++ [sep]

theorem flatten_injective_of_closed [DecidableEq α] {blocks : List (List α)} :
    ∀ {blocks' : List (List α)}, (∀ block ∈ blocks, Closed sep block) →
      (∀ block ∈ blocks', Closed sep block) → blocks.flatten = blocks'.flatten →
        blocks = blocks' := by
  induction blocks with
  | nil =>
      intro blocks' _ hclosed' h
      cases blocks' with
      | nil => rfl
      | cons block' blocks' =>
          rcases hclosed' block' List.mem_cons_self with ⟨body', -, rfl⟩
          rw [List.flatten_nil, List.flatten_cons, List.append_assoc] at h
          exact absurd h.symm (List.append_ne_nil_of_right_ne_nil _ (List.cons_ne_nil _ _))
  | cons block blocks ih =>
      intro blocks' hclosed hclosed' h
      rcases hclosed block List.mem_cons_self with ⟨body, hbody, rfl⟩
      cases blocks' with
      | nil =>
          rw [List.flatten_nil, List.flatten_cons, List.append_assoc] at h
          exact absurd h (List.append_ne_nil_of_right_ne_nil _ (List.cons_ne_nil _ _))
      | cons block' blocks' =>
          rcases hclosed' block' List.mem_cons_self with ⟨body', hbody', rfl⟩
          rw [List.flatten_cons, List.flatten_cons, List.append_assoc, List.append_assoc] at h
          -- The first blocks end at the first separator of the same list.
          rcases append_cons_inj hbody hbody' h with ⟨rfl, hrest⟩
          rw [ih (fun b hb => hclosed b (List.mem_cons_of_mem _ hb))
            (fun b hb => hclosed' b (List.mem_cons_of_mem _ hb)) hrest]

end Search
