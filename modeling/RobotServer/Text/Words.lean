import Mathlib.Data.List.DropRight
import Mathlib.Tactic.Common

/-!
# Words — the pieces of a list between separators

`words sep t` are the non-empty stretches of `t` without `sep`.  A text without the separator is one
word (`words_of_notMem`), the words of a text that is cut at a separator are those of its parts
(`words_append_cons`), and a word is made of elements of the text (`sublist_of_mem_words`).
`lastPiece sep t` is what stands behind the last separator.
-/

namespace Words

variable {α : Type} [DecidableEq α] {sep : α}

def words (sep : α) (t : List α) : List (List α) :=
  (t.splitOnP fun c => decide (c = sep)).filter (· ≠ [])

theorem words_append_cons (t u : List α) :
    words sep (t ++ sep :: u) = words sep t ++ words sep u := by
  have hsplit := List.splitOnP_append_cons t u (p := fun c => decide (c = sep))
    (decide_eq_true rfl)
  rw [words, hsplit, List.filter_append]
  rfl

theorem words_of_notMem {t : List α} (hne : t ≠ []) (h : sep ∉ t) : words sep t = [t] := by
  have hsplit : (t.splitOnP fun c => decide (c = sep)) = [t] := by
    refine List.splitOnP_eq_singleton ?_
    intro c hc
    exact decide_eq_false fun heq => h (heq ▸ hc)
  rw [words, hsplit]
  exact List.filter_cons_of_pos (decide_eq_true hne)

/-- A piece between separators has none, and is found in the text. -/
theorem splitOnP_pieces (t : List α) :
    ∀ w ∈ t.splitOnP fun c => decide (c = sep), w.Sublist t ∧ sep ∉ w := by
  induction t with
  | nil =>
      intro w hw
      rw [List.splitOnP_nil, List.mem_singleton] at hw
      subst hw
      exact ⟨List.Sublist.refl _, List.not_mem_nil⟩
  | cons c t ih =>
      intro w hw
      rw [List.splitOnP_cons_eq_if_modifyHead] at hw
      by_cases hc : c = sep
      · rw [if_pos (decide_eq_true hc)] at hw
        rcases List.mem_cons.mp hw with rfl | hmem
        · exact ⟨List.nil_sublist _, List.not_mem_nil⟩
        · exact ⟨(ih w hmem).1.cons c, (ih w hmem).2⟩
      · rw [if_neg (by simpa using hc)] at hw
        -- The byte is put in front of the first piece, which there always is.
        cases hpieces : t.splitOnP fun c => decide (c = sep) with
        | nil => exact absurd hpieces (List.splitOnP_ne_nil _ _)
        | cons first rest =>
            rw [hpieces, List.modifyHead_cons] at hw
            have hfirst := ih first (by rw [hpieces]; exact List.mem_cons_self)
            rcases List.mem_cons.mp hw with rfl | hmem
            · refine ⟨hfirst.1.cons_cons c, ?_⟩
              rw [List.mem_cons, not_or]
              exact ⟨Ne.symm hc, hfirst.2⟩
            · have hpiece := ih w (by rw [hpieces]; exact List.mem_cons_of_mem _ hmem)
              exact ⟨hpiece.1.cons c, hpiece.2⟩

theorem sublist_of_mem_words {t w : List α} (h : w ∈ words sep t) : w.Sublist t ∧ sep ∉ w :=
  splitOnP_pieces t w (List.mem_filter.mp h).1

/-- What stands behind the last separator. -/
def lastPiece (sep : α) (t : List α) : List α :=
  t.rtakeWhile fun c => decide (c ≠ sep)

theorem lastPiece_append_cons (t : List α) {u : List α} (h : sep ∉ u) :
    lastPiece sep (t ++ sep :: u) = u := by
  have hall : ∀ c ∈ u.reverse, decide (c ≠ sep) = true := by
    intro c hc
    exact decide_eq_true fun heq => h (heq ▸ List.mem_reverse.mp hc)
  rw [lastPiece, List.rtakeWhile, List.reverse_append, List.reverse_cons, List.append_assoc,
    List.takeWhile_append_of_pos hall]
  simp

end Words
