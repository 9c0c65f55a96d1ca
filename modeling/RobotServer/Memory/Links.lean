import Mathlib.Data.List.Nodup
import Mathlib.Logic.Function.Basic

/-!
# Links — items that point to each other

A linked list is a first item and, for every item, the one it points forward to and the one it
points back to.  `Represents l items` says which items are reached from the first one.

- a chain depends on the forward pointers of its own items only (`Chain.congr`), has one list of
  items (`Chain.unique`) and passes no item twice (`Chain.nodup`).
-/

namespace Memory

structure Links (α : Type) where
  head : Option α
  next : α → Option α
  prev : α → Option α

namespace Links

variable {α : Type} {next next' : α → Option α} {p : Option α} {items : List α}

/-- The list of a structure that is filled with zeros. -/
def zero : Links α :=
  ⟨none, fun _ => none, fun _ => none⟩

section Assign

variable [DecidableEq α]

def setNext (l : Links α) (item : α) (target : Option α) : Links α :=
  { l with next := Function.update l.next item target }

def setPrev (l : Links α) (item : α) (target : Option α) : Links α :=
  { l with prev := Function.update l.prev item target }

@[simp] theorem head_setNext (l : Links α) (item : α) (target : Option α) :
    (l.setNext item target).head = l.head := rfl

@[simp] theorem prev_setNext (l : Links α) (item : α) (target : Option α) :
    (l.setNext item target).prev = l.prev := rfl

@[simp] theorem next_setNext (l : Links α) (item : α) (target : Option α) :
    (l.setNext item target).next = Function.update l.next item target := rfl

@[simp] theorem head_setPrev (l : Links α) (item : α) (target : Option α) :
    (l.setPrev item target).head = l.head := rfl

@[simp] theorem next_setPrev (l : Links α) (item : α) (target : Option α) :
    (l.setPrev item target).next = l.next := rfl

@[simp] theorem prev_setPrev (l : Links α) (item : α) (target : Option α) :
    (l.setPrev item target).prev = Function.update l.prev item target := rfl

end Assign

/-! ## Chains -/

/-- `items` are reached from `p` on, and nothing behind them. -/
def Chain (next : α → Option α) : Option α → List α → Prop
  | p, [] => p = none
  | p, item :: rest => p = some item ∧ Chain next (next item) rest

def Represents (l : Links α) (items : List α) : Prop :=
  Chain l.next l.head items

@[simp] theorem represents_zero : Represents (zero : Links α) [] := rfl

theorem Chain.start (h : Chain next p items) : p = items.head? := by
  cases items with
  | nil => exact h
  | cons item rest => exact h.1

theorem Chain.congr : ∀ {p : Option α} {items : List α}, Chain next p items →
    (∀ item ∈ items, next' item = next item) → Chain next' p items
  | _, [], h, _ => h
  | _, item :: rest, h, hsame => by
      refine ⟨h.1, ?_⟩
      rw [hsame item List.mem_cons_self]
      exact h.2.congr fun other hother => hsame other (List.mem_cons_of_mem _ hother)

theorem Chain.unique : ∀ {p : Option α} {items items' : List α},
    Chain next p items → Chain next p items' → items = items'
  | _, [], [], _, _ => rfl
  | _, [], _ :: _, h, h' => nomatch (h.symm.trans h'.1)
  | _, _ :: _, [], h, h' => nomatch (h'.symm.trans h.1)
  | _, item :: rest, item' :: rest', h, h' => by
      have hitem : item = item' := Option.some.inj (h.1.symm.trans h'.1)
      subst hitem
      rw [h.2.unique h'.2]

theorem Chain.suffix : ∀ {p : Option α} {first : List α} {item : α} {rest : List α},
    Chain next p (first ++ item :: rest) → Chain next (some item) (item :: rest)
  | _, [], _, _, h => ⟨rfl, h.2⟩
  | _, _ :: _, _, _, h => h.2.suffix

theorem Chain.nodup : ∀ {p : Option α} {items : List α}, Chain next p items → items.Nodup
  | _, [], _ => List.nodup_nil
  | _, item :: rest, h => by
      refine List.nodup_cons.mpr ⟨fun hmem => ?_, h.2.nodup⟩
      -- A second occurrence would start the same chain again, which is longer.
      obtain ⟨first, second, hrest⟩ := List.append_of_mem hmem
      have hsecond : Chain next (some item) (item :: second) := (hrest ▸ h.2).suffix
      have hfirst : Chain next (some item) (item :: rest) := ⟨rfl, h.2⟩
      have hsame := hfirst.unique hsecond
      have hlength : rest.length = first.length + (second.length + 1) := by
        rw [hrest, List.length_append, List.length_cons]
      have htail := congrArg List.length (List.cons.inj hsame).2
      omega

/-- Cutting a chain behind one of its items leaves what is in front of the cut. -/
theorem Chain.cut [DecidableEq α] : ∀ {p : Option α} {first : List α} {item : α} {rest : List α},
    Chain next p (first ++ item :: rest) →
      Chain (Function.update next item none) p (first ++ [item])
  | _, [], item, _, h => ⟨h.1, by rw [Function.update_self]; rfl⟩
  | _, other :: first, item, rest, h => by
      have hne : other ≠ item := by
        rintro rfl
        exact (List.nodup_cons.mp h.nodup).1 (List.mem_append_right _ List.mem_cons_self)
      refine ⟨h.1, ?_⟩
      rw [Function.update_of_ne hne]
      exact h.2.cut

end Links

end Memory
