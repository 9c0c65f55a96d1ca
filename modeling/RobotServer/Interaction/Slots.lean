import Mathlib.Data.List.Induction
import Mathlib.Logic.Function.Basic
import Mathlib.Tactic.Common

/-!
# Slots — one value for each key, put and taken

A family of slots holds at most one value for each key: `put` replaces it, `take` empties it.
What a `take` finds is the value of the last `put` for its key behind the last `take` of it
(`mem_after_iff`), and every `put` is found by at most one `take` (`Delivered.take_unique`).
-/

namespace Slots

variable {κ ν : Type}

inductive Event (κ ν : Type) where
  | put (key : κ) (value : ν)
  | take (key : κ)

def Event.key : Event κ ν → κ
  | .put key _ => key
  | .take key => key

@[simp] theorem Event.key_put (key : κ) (value : ν) : (Event.put key value).key = key := rfl

@[simp] theorem Event.key_take (key : κ) : (Event.take key : Event κ ν).key = key := rfl

/-- `put` number `j` is what `take` number `i` finds: nothing touches the key in between. -/
structure Delivered (events : List (Event κ ν)) (j i : Nat) : Prop where
  lt : j < i
  put_take : ∃ key value, events[j]? = some (.put key value) ∧ events[i]? = some (.take key) ∧
    ∀ m, j < m → m < i → ∀ e, events[m]? = some e → e.key ≠ key

/-- A value is found once. -/
theorem Delivered.take_unique {events : List (Event κ ν)} {j i i' : Nat}
    (h : Delivered events j i) (h' : Delivered events j i') : i = i' := by
  rcases h.put_take with ⟨key, value, hj, hi, hbetween⟩
  rcases h'.put_take with ⟨key', value', hj', hi', hbetween'⟩
  have hsame : Event.put key value = Event.put key' value' := Option.some.inj (hj.symm.trans hj')
  injection hsame with hkey
  subst hkey
  rcases Nat.lt_trichotomy i i' with hlt | heq | hgt
  · exact absurd rfl (hbetween' i h.lt hlt _ hi)
  · exact heq
  · exact absurd rfl (hbetween i' h'.lt hgt _ hi')

section Run

variable [DecidableEq κ]

def step (slots : κ → Option ν) : Event κ ν → κ → Option ν
  | .put key value => Function.update slots key (some value)
  | .take key => Function.update slots key none

/-- The slots after a list of events. -/
def after (slots : κ → Option ν) (events : List (Event κ ν)) : κ → Option ν :=
  events.foldl step slots

@[simp] theorem after_nil (slots : κ → Option ν) : after slots [] = slots := rfl

@[simp] theorem after_cons (slots : κ → Option ν) (e : Event κ ν) (events : List (Event κ ν)) :
    after slots (e :: events) = after (step slots e) events := rfl

theorem after_concat (slots : κ → Option ν) (events : List (Event κ ν)) (e : Event κ ν) :
    after slots (events ++ [e]) = step (after slots events) e := by
  rw [after, List.foldl_append]
  rfl

/-- An event leaves the slots of other keys alone. -/
theorem step_of_ne {slots : κ → Option ν} {e : Event κ ν} {key : κ} (h : e.key ≠ key) :
    step slots e key = slots key := by
  cases e with
  | put k value => exact Function.update_of_ne (Ne.symm h) _ _
  | take k => exact Function.update_of_ne (Ne.symm h) _ _

/-- Events for other keys leave a slot alone. -/
theorem after_of_ne {events : List (Event κ ν)} {key : κ} : ∀ {slots : κ → Option ν},
    (∀ e ∈ events, e.key ≠ key) → after slots events key = slots key := by
  induction events with
  | nil => exact fun _ => rfl
  | cons e rest ih =>
      intro slots h
      rw [after_cons, ih fun e' he' => h e' (List.mem_cons_of_mem _ he'),
        step_of_ne (h e List.mem_cons_self)]

/-- A value was put for a key, and nothing touches the key since. -/
def Waits {κ ν : Type} (events : List (Event κ ν)) (key : κ) (value : ν) : Prop :=
  ∃ j : Nat, events[j]? = some (.put key value) ∧
    ∀ m : Nat, j < m → ∀ e, events[m]? = some e → e.key ≠ key

/-- A slot holds the last value put into it that was not taken since. -/
theorem mem_after_iff (events : List (Event κ ν)) (key : κ) (value : ν) :
    after (fun _ => none) events key = some value ↔
      ∃ j : Nat, events[j]? = some (.put key value) ∧
        ∀ m : Nat, j < m → ∀ e, events[m]? = some e → e.key ≠ key := by
  -- The events are taken from the last one back.
  induction events using List.reverseRecOn with
  | nil => simp
  | append_singleton events e ih =>
      have hlast : (events ++ [e])[events.length]? = some e := by simp
      -- An event of the longer list is an old one or the new one.
      have hold : ∀ {m e'}, (events ++ [e])[m]? = some e' →
          (m < events.length ∧ events[m]? = some e') ∨ (m = events.length ∧ e = e') := by
        intro m e' hm
        rcases Nat.lt_trichotomy m events.length with hlt | heq | hgt
        · rw [List.getElem?_append_left hlt] at hm
          exact .inl ⟨hlt, hm⟩
        · subst heq
          rw [hlast] at hm
          exact .inr ⟨rfl, Option.some.inj hm⟩
        · rw [List.getElem?_eq_none (by simp; omega)] at hm
          cases hm
      rw [after_concat]
      by_cases hkey : e.key = key
      · -- The last event decides the slot.
        cases e with
        | put k v =>
            change k = key at hkey
            subst hkey
            rw [step, Function.update_self]
            constructor
            · intro hv
              injection hv with hv
              subst hv
              refine ⟨events.length, hlast, ?_⟩
              intro m hm e' he'
              rcases hold he' with ⟨hlt, -⟩ | ⟨heq, -⟩
              · omega
              · omega
            · rintro ⟨j, hj, hbehind⟩
              rcases hold hj with ⟨hlt, -⟩ | ⟨-, heq⟩
              · exact absurd rfl (hbehind events.length hlt _ hlast)
              · injection heq with _ hv
                rw [hv]
        | take k =>
            change k = key at hkey
            subst hkey
            rw [step, Function.update_self]
            constructor
            · intro hv
              cases hv
            · rintro ⟨j, hj, hbehind⟩
              rcases hold hj with ⟨hlt, -⟩ | ⟨-, heq⟩
              · exact absurd rfl (hbehind events.length hlt _ hlast)
              · cases heq
      -- It speaks of another slot, so the put is an old one.
      · rw [step_of_ne hkey, ih]
        constructor
        · rintro ⟨j, hj, hbehind⟩
          have hlt : j < events.length := (List.getElem?_eq_some_iff.mp hj).1
          refine ⟨j, by rw [List.getElem?_append_left hlt]; exact hj, ?_⟩
          intro m hm e' he'
          rcases hold he' with ⟨-, hmem⟩ | ⟨-, rfl⟩
          · exact hbehind m hm e' hmem
          · exact hkey
        · rintro ⟨j, hj, hbehind⟩
          rcases hold hj with ⟨hlt, hmem⟩ | ⟨-, rfl⟩
          · refine ⟨j, hmem, ?_⟩
            intro m hm e' he'
            have hm' : m < events.length := (List.getElem?_eq_some_iff.mp he').1
            exact hbehind m hm e' (by rw [List.getElem?_append_left hm']; exact he')
          · exact absurd rfl hkey

/-- What a `take` finds is what was delivered to it. -/
theorem after_take_iff {events : List (Event κ ν)} {i : Nat} {key : κ}
    (hi : events[i]? = some (.take key)) (value : ν) :
    after (fun _ => none) (events.take i) key = some value ↔
      ∃ j, Delivered events j i ∧ events[j]? = some (.put key value) := by
  rw [mem_after_iff]
  constructor
  · rintro ⟨j, hj, hbehind⟩
    -- The put stands in front of the take.
    have hlt : j < i := by
      have hbound := (List.getElem?_eq_some_iff.mp hj).1
      rw [List.length_take] at hbound
      omega
    rw [List.getElem?_take_of_lt hlt] at hj
    refine ⟨j, ⟨hlt, key, value, hj, hi, ?_⟩, hj⟩
    intro m hm hmi e he
    exact hbehind m hm e (by rw [List.getElem?_take_of_lt hmi]; exact he)
  · rintro ⟨j, hdelivered, hj⟩
    rcases hdelivered.put_take with ⟨key', value', hj', hi', hbetween⟩
    have hkey : Event.take key' = (Event.take key : Event κ ν) :=
      Option.some.inj (hi'.symm.trans hi)
    injection hkey with hkey
    subst hkey
    refine ⟨j, by rw [List.getElem?_take_of_lt hdelivered.lt]; exact hj, ?_⟩
    intro m hm e he
    have hmi : m < i := by
      have hbound := (List.getElem?_eq_some_iff.mp he).1
      rw [List.length_take] at hbound
      omega
    rw [List.getElem?_take_of_lt hmi] at he
    exact hbetween m hm hmi e he

end Run

end Slots
