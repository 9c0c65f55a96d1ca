import Mathlib.Data.List.Infix
import RobotServer.Text.Search

/-!
# Find — the first place of a key

`find key t` runs through `t` from its head.  `find_eq_some_iff` and `find_eq_none_iff` tell its
result by `FirstAt` and `OccursAt`; the other lemmas move a place between a list and its beginnings.
-/

namespace Search

variable {α : Type} {key t u : List α} {p : Nat}

/-! ## Places in a beginning -/

theorem occursAt_append_iff (h : p + key.length ≤ t.length) :
    OccursAt key (t ++ u) p ↔ OccursAt key t p := by
  rw [occursAt_iff_getElem?, occursAt_iff_getElem?, List.length_append]
  refine and_congr (iff_of_true (by omega) h) (forall₂_congr fun d hd => ?_)
  rw [List.getElem?_append_left (by omega)]

theorem FirstAt.append (h : FirstAt key t p) : FirstAt key (t ++ u) p := by
  have hlength := h.occurs.add_length_le
  refine ⟨(occursAt_append_iff hlength).mpr h.occurs, fun q hq hoccurs => ?_⟩
  exact h.first q hq ((occursAt_append_iff (by omega)).mp hoccurs)

theorem occursAt_append_self (t key : List α) : OccursAt key (t ++ key) t.length := by
  refine ⟨by rw [List.length_append]; omega, ?_⟩
  rw [List.drop_left]

/-- What stands in a part of the list stands in the list. -/
theorem OccursAt.of_take {n : Nat} (h : OccursAt key (t.take n) p) : OccursAt key t p := by
  rw [← List.take_append_drop n t]
  exact (occursAt_append_iff h.add_length_le).mpr h

theorem OccursAt.isInfix (h : OccursAt key t p) : key <:+: t := by
  rcases h.2 with ⟨rest, hrest⟩
  refine ⟨t.take p, rest, ?_⟩
  rw [List.append_assoc, hrest, List.take_append_drop]

/-! ## Places from the head on -/

theorem occursAt_nil : OccursAt key [] p ↔ key = [] ∧ p = 0 := by
  unfold OccursAt
  rw [List.drop_nil, List.prefix_nil, List.length_nil, Nat.le_zero, and_comm]

theorem occursAt_cons_succ {c : α} : OccursAt key (c :: t) (p + 1) ↔ OccursAt key t p := by
  unfold OccursAt
  rw [List.length_cons, Nat.succ_le_succ_iff, List.drop_succ_cons]

theorem firstAt_zero_iff : FirstAt key t 0 ↔ key <+: t :=
  ⟨fun h => h.occurs.2, fun h => ⟨⟨Nat.zero_le _, h⟩, fun _ hq => absurd hq (Nat.not_lt_zero _)⟩⟩

theorem firstAt_cons_succ {c : α} (hhead : ¬ key <+: c :: t) :
    FirstAt key (c :: t) (p + 1) ↔ FirstAt key t p := by
  constructor
  · intro h
    exact ⟨occursAt_cons_succ.mp h.occurs, fun q hq hoccurs =>
      h.first (q + 1) (Nat.succ_lt_succ hq) (occursAt_cons_succ.mpr hoccurs)⟩
  · intro h
    refine ⟨occursAt_cons_succ.mpr h.occurs, fun q hq hoccurs => ?_⟩
    cases q with
    | zero => exact hhead hoccurs.2
    | succ q => exact h.first q (Nat.lt_of_succ_lt_succ hq) (occursAt_cons_succ.mp hoccurs)

/-! ## Finding -/

variable [DecidableEq α]

def find (key : List α) : List α → Option Nat
  | [] => if key = [] then some 0 else none
  | c :: t => if key.isPrefixOf (c :: t) then some 0 else (find key t).map (· + 1)

theorem find_eq_some_iff : find key t = some p ↔ FirstAt key t p := by
  induction t generalizing p with
  | nil =>
      unfold find
      split
      case isTrue hkey =>
          rw [Option.some.injEq, eq_comm]
          constructor
          · rintro rfl
            exact firstAt_zero_iff.mpr (hkey ▸ List.nil_prefix)
          · exact fun h => (occursAt_nil.mp h.occurs).2
      case isFalse hkey =>
          exact iff_of_false (fun h => nomatch h) fun h => hkey (occursAt_nil.mp h.occurs).1
  | cons c t ih =>
      unfold find
      split
      case isTrue hprefix =>
          rw [List.isPrefixOf_iff_prefix] at hprefix
          rw [Option.some.injEq, eq_comm]
          constructor
          · rintro rfl
            exact firstAt_zero_iff.mpr hprefix
          · exact fun h => h.unique (firstAt_zero_iff.mpr hprefix)
      case isFalse hprefix =>
          rw [List.isPrefixOf_iff_prefix] at hprefix
          cases p with
          | zero =>
              refine iff_of_false (fun h => ?_) fun h => hprefix (firstAt_zero_iff.mp h)
              rcases Option.map_eq_some_iff.mp h with ⟨q, -, hq⟩
              exact Nat.succ_ne_zero q hq
          | succ p =>
              rw [firstAt_cons_succ hprefix, ← ih, Option.map_eq_some_iff]
              constructor
              · rintro ⟨q, hfind, hq⟩
                rwa [← Nat.succ_injective hq]
              · exact fun hfind => ⟨p, hfind, rfl⟩

theorem find_eq_none_iff : find key t = none ↔ ∀ p, ¬ OccursAt key t p := by
  constructor
  · intro h p hoccurs
    rcases hoccurs.exists_firstAt with ⟨q, hq⟩
    rw [find_eq_some_iff.mpr hq] at h
    cases h
  · intro h
    cases hfind : find key t with
    | none => rfl
    | some p => exact absurd (find_eq_some_iff.mp hfind).occurs (h p)

theorem find_isSome_iff : (find key t).isSome ↔ key <:+: t := by
  constructor
  · intro h
    rcases Option.isSome_iff_exists.mp h with ⟨p, hp⟩
    exact (find_eq_some_iff.mp hp).occurs.isInfix
  · rintro ⟨before, behind, rfl⟩
    rw [Option.isSome_iff_ne_none]
    intro hnone
    refine find_eq_none_iff.mp hnone before.length ?_
    rw [occursAt_append_iff (by rw [List.length_append])]
    exact occursAt_append_self before key

end Search
