import RobotServer.Model.Workqueue

/-!
# Lists — what `LL_ADD` and `LL_REMOVE` do to a list

`LL_ADD` leaves the item that was first without a pointer back to the new one, so that no item of
a list has one.  `LL_REMOVE` relies on that pointer: it removes the first item, and cuts the list
behind any other (`represents_edits`).
-/

namespace RobotServer

namespace Workqueue

open Memory Links

variable {α : Type}

/-- A list as the macros leave it: no item points back. -/
structure Stacked (l : Links α) (items : List α) : Prop where
  represents : l.Represents items
  prev_eq_none : ∀ item ∈ items, l.prev item = none

theorem stacked_zero : Stacked (zero : Links α) [] :=
  ⟨represents_zero, fun _ h => nomatch h⟩

theorem Stacked.head {l : Links α} {items : List α} (h : Stacked l items) :
    l.head = items.head? :=
  h.represents.start

/-- A list whose first item is forgotten. -/
theorem Stacked.forget (l : Links α) : Stacked { l with head := none } [] :=
  ⟨rfl, fun _ h => nomatch h⟩

variable [DecidableEq α]

theorem Stacked.llAdd {l : Links α} {items : List α} (h : Stacked l items) {item : α}
    (hnew : item ∉ items) : Stacked (llAdd item l) (item :: items) := by
  have hne : ∀ other ∈ items, other ≠ item := fun other hother heq => hnew (heq ▸ hother)
  constructor
  · refine ⟨rfl, ?_⟩
    simp only [Workqueue.llAdd, next_setNext, next_setPrev, Function.update_self]
    exact h.represents.congr fun other hother => Function.update_of_ne (hne other hother) ..
  · intro other hother
    simp only [Workqueue.llAdd, prev_setNext, prev_setPrev]
    rcases List.mem_cons.mp hother with rfl | hold
    · exact Function.update_self ..
    · rw [Function.update_of_ne (hne other hold)]
      exact h.prev_eq_none other hold

/-! ## Removing -/

/-- `LL_REMOVE` of an item that does not point back. -/
theorem llRemove_of_prev {l : Links α} {item : α} (hprev : l.prev item = none) :
    (llRemove item l).head = (if l.head = some item then l.next item else l.head) ∧
      (llRemove item l).next = Function.update l.next item none ∧
      ∀ other, l.prev other = none → (llRemove item l).prev other = none := by
  cases hnext : l.next item with
  | none =>
      by_cases hhead : l.head = some item <;>
        simp +contextual [llRemove, hprev, hnext, hhead, Function.update_apply]
  | some behind =>
      by_cases hhead : l.head = some item <;>
        simp +contextual [llRemove, hprev, hnext, hhead, Function.update_apply]

/-- The first item is taken out. -/
theorem Stacked.llRemove_head {l : Links α} {item : α} {rest : List α}
    (h : Stacked l (item :: rest)) : Stacked (llRemove item l) rest := by
  obtain ⟨hhead, hnext, hprev⟩ := llRemove_of_prev (h.prev_eq_none item List.mem_cons_self)
  have hnotin := (List.nodup_cons.mp h.represents.nodup).1
  constructor
  · unfold Represents
    rw [hhead, if_pos h.represents.1, hnext]
    refine h.represents.2.congr fun other hother => Function.update_of_ne ?_ ..
    rintro rfl
    exact hnotin hother
  · exact fun other hother =>
      hprev other (h.prev_eq_none other (List.mem_cons_of_mem _ hother))

/-- Behind any other item the list ends, and the item stays. -/
theorem Stacked.llRemove_inner {l : Links α} {first : List α} {item : α} {rest : List α}
    (hfirst : first ≠ []) (h : Stacked l (first ++ item :: rest)) :
    Stacked (llRemove item l) (first ++ [item]) := by
  have hmem : item ∈ first ++ item :: rest := List.mem_append_right _ List.mem_cons_self
  obtain ⟨hhead, hnext, hprev⟩ := llRemove_of_prev (h.prev_eq_none item hmem)
  obtain ⟨x, first, rfl⟩ := List.exists_cons_of_ne_nil hfirst
  have hx : x ≠ item := by
    rintro rfl
    exact (List.nodup_cons.mp h.represents.nodup).1
      (List.mem_append_right _ List.mem_cons_self)
  constructor
  · have hstart : l.head ≠ some item := fun heq =>
      hx (Option.some.inj (h.represents.1.symm.trans heq))
    unfold Represents
    rw [hhead, if_neg hstart, hnext]
    exact h.represents.cut
  · intro other hother
    refine hprev other (h.prev_eq_none other ?_)
    rcases List.mem_append.mp hother with hin | hlast
    · exact List.mem_append_left _ hin
    · exact List.mem_singleton.mp hlast ▸ hmem

/-! ## Whole lives of a list -/

inductive Edit (α : Type) where
  | add (item : α)
  | remove (item : α)
  deriving DecidableEq, Repr

/-- The macro that makes an edit. -/
def edit (l : Links α) : Edit α → Links α
  | .add item => llAdd item l
  | .remove item => llRemove item l

/-- The items up to `item`, with it. -/
def through (item : α) : List α → List α
  | [] => []
  | x :: rest => if x = item then [x] else x :: through item rest

/-- What an edit makes of the items: an item that is new is added, one that is there removed. -/
def edited : List α → Edit α → Option (List α)
  | items, .add item => if item ∈ items then none else some (item :: items)
  | items, .remove item =>
      if item ∈ items then
        if items.head? = some item then some items.tail else some (through item items)
      else none

theorem through_append {first rest : List α} {item : α} (h : item ∉ first) :
    through item (first ++ item :: rest) = first ++ [item] := by
  induction first with
  | nil => exact if_pos rfl
  | cons x first ih =>
      have hne : x ≠ item := fun heq => h (heq ▸ List.mem_cons_self)
      rw [List.cons_append, through, if_neg hne, ih fun hin => h (List.mem_cons_of_mem _ hin),
        List.cons_append]

/-- One edit. -/
theorem Stacked.edit {l : Links α} {items items' : List α} {e : Edit α} (h : Stacked l items)
    (he : edited items e = some items') : Stacked (edit l e) items' := by
  cases e with
  | add item =>
      simp only [edited] at he
      split at he
      case isTrue => cases he
      case isFalse hnew => cases he; exact h.llAdd hnew
  | remove item =>
      simp only [edited] at he
      split at he
      case isFalse => cases he
      case isTrue hmem =>
          obtain ⟨first, rest, rfl, hfirst⟩ := List.eq_append_cons_of_mem hmem
          rcases first with - | ⟨x, first⟩
          · rw [List.nil_append, List.head?_cons, if_pos rfl] at he
            cases he
            exact h.llRemove_head
          · have hx : x ≠ item := fun heq => hfirst (heq ▸ List.mem_cons_self)
            rw [List.cons_append, List.head?_cons, if_neg fun heq => hx (Option.some.inj heq),
              ← List.cons_append, through_append hfirst] at he
            cases he
            exact h.llRemove_inner (List.cons_ne_nil _ _)

open Interaction in
/-- Any number of edits. -/
theorem Stacked.edits : ∀ {edits : List (Edit α)} {l : Links α} {items items' : List α},
    Stacked l items → Machine.run edited items edits = some items' →
      Stacked (edits.foldl Workqueue.edit l) items'
  | [], _, _, _, h, hrun => Option.some.inj hrun ▸ h
  | _ :: _, _, _, _, h, hrun => by
      obtain ⟨items, he, hrest⟩ := Machine.run_cons_iff.mp hrun
      exact (h.edit he).edits hrest

open Interaction in
/-- Whatever has been added to a list and removed from it, `LL_REMOVE` takes an item out of it
exactly where it is the first one. -/
theorem represents_edits {edits : List (Edit α)} {items : List α}
    (hrun : Machine.run edited [] edits = some items) :
    (edits.foldl edit zero).Represents items ∧
      ∀ item ∈ items, (llRemove item (edits.foldl edit zero)).Represents (items.erase item) ↔
        items.head? = some item := by
  have hstacked := stacked_zero.edits hrun
  refine ⟨hstacked.represents, fun item hmem => ?_⟩
  obtain ⟨first, rest, rfl, hfirst⟩ := List.eq_append_cons_of_mem hmem
  rcases first with - | ⟨x, first⟩
  · simp only [List.nil_append, List.erase_cons_head, List.head?_cons, iff_true]
    exact hstacked.llRemove_head.represents
  · have hx : x ≠ item := fun heq => hfirst (heq ▸ List.mem_cons_self)
    have hne : (x :: first ++ item :: rest).head? ≠ some item := fun heq =>
      hx (Option.some.inj heq)
    refine iff_of_false (fun herase => ?_) hne
    -- The item is still found, at the end of what is left.
    have hcut := (hstacked.llRemove_inner (List.cons_ne_nil _ _)).represents
    have hsame := herase.unique hcut
    have hgone := hstacked.represents.nodup.not_mem_erase (a := item)
    rw [hsame] at hgone
    exact hgone (List.mem_append_right _ List.mem_cons_self)

theorem represents_edits_third :
    ((([.add 1, .add 2, .add 3] : List (Edit Nat)).foldl edit zero).Represents [3, 2, 1]) ∧
      ∀ item ∈ [3, 2, 1], (llRemove item
        (([.add 1, .add 2, .add 3] : List (Edit Nat)).foldl edit zero)).Represents
          ([3, 2, 1].erase item) ↔ [3, 2, 1].head? = some item :=
  represents_edits (by decide)

end Workqueue

end RobotServer
