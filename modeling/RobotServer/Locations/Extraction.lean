import RobotServer.Model.CurlJson
import RobotServer.Text.Search

/-!
# Extraction — the values of a response

`ValueStart` says where `handle_data` looks for the value of a key: two characters behind its first
occurrence, and at the second character of a response without it (`valueStart_iff`).  From there on
`get_key` copies up to a comma; `fieldValue_eq_some_iff` says which values come out.
-/

namespace RobotServer

open CText Memory Search

/-! ## The key search -/

/-- Where the value of a key is taken from. -/
inductive ValueStart (key text : Text) : Nat → Prop where
  | found {p : Nat} : IsFirst key text p → ValueStart key text (p + key.length + 2)
  | missing : (∀ p, ¬ FollowedAt key text p) → ValueStart key text 1

theorem ValueStart.unique {key text : Text} {start start' : Nat} (h : ValueStart key text start)
    (h' : ValueStart key text start') : start = start' := by
  cases h with
  | found hp =>
      cases h' with
      | found hq => rw [hp.unique hq]
      | missing hnone => exact absurd hp.followed (hnone _)
  | missing hnone =>
      cases h' with
      | found hq => exact absurd hq.followed (hnone _)
      | missing _ => rfl

/-- The inner loop runs to the end of the key exactly when the key stands there. -/
theorem matchedLength_eq_iff (key : Text) :
    ∀ buffer : Text, matchedLength buffer key = key.length ↔ key <+: buffer := by
  induction key with
  | nil =>
      intro buffer
      refine iff_of_true ?_ (List.nil_prefix)
      cases buffer with
      | nil => rfl
      | cons b buffer => rfl
  | cons k key ih =>
      intro buffer
      cases buffer with
      | nil =>
          refine iff_of_false (Nat.succ_ne_zero key.length).symm ?_
          exact fun h => List.cons_ne_nil _ _ (List.prefix_nil.mp h)
      | cons b buffer =>
          rw [matchedLength, List.length_cons, List.cons_prefix_cons]
          by_cases hb : b = k
          · rw [if_neg (not_not.mpr hb), Nat.add_right_cancel_iff, ih]
            exact ⟨fun h => ⟨hb.symm, h⟩, fun h => h.2⟩
          · rw [if_pos hb]
            exact iff_of_false (Nat.succ_ne_zero _).symm fun h => hb h.1.symm

/-- The two tests of a round. -/
theorem followedAt_zero_iff {key t : Text} :
    FollowedAt key t 0 ↔ key.length < t.length ∧ matchedLength t key = key.length := by
  rw [matchedLength_eq_iff]
  constructor
  · rintro ⟨c, rest, ht⟩
    rw [List.drop_zero] at ht
    rw [ht, List.length_append, List.length_cons]
    exact ⟨by omega, List.prefix_append _ _⟩
  · rintro ⟨hlength, behind, rfl⟩
    cases behind with
    | nil =>
        rw [List.append_nil] at hlength
        exact absurd hlength (Nat.lt_irrefl _)
    | cons c rest => exact ⟨c, rest, rfl⟩

/-- The search finds the first occurrence that has something behind it, or none. -/
theorem keyIndexLoop_spec (key : Text) : ∀ (text : Text) (i : Nat),
    (∃ p, IsFirst key text p ∧ keyIndexLoop key text i = ((i + p + key.length : Nat) : Int)) ∨
      (∀ p, ¬ FollowedAt key text p) ∧ keyIndexLoop key text i = -1 := by
  intro text
  induction text with
  | nil =>
      intro i
      refine .inr ⟨?_, rfl⟩
      intro p h
      exact absurd h.lt_length (Nat.not_lt_zero _)
  | cons b text ih =>
      intro i
      by_cases hlength : key.length < (b :: text).length
      -- The key starts here, or every later start is one place further.
      · by_cases hmatch : matchedLength (b :: text) key = key.length
        · refine .inl ⟨0, IsFirst.zero (followedAt_zero_iff.mpr ⟨hlength, hmatch⟩), ?_⟩
          rw [keyIndexLoop, if_pos hlength, if_pos hmatch, Nat.add_zero]
        · have hhead : ¬ FollowedAt key (b :: text) 0 := fun h =>
            hmatch (followedAt_zero_iff.mp h).2
          rw [keyIndexLoop, if_pos hlength, if_neg hmatch]
          rcases ih (i + 1) with ⟨p, hfirst, hindex⟩ | ⟨hnone, hindex⟩
          · refine .inl ⟨p + 1, hfirst.cons hhead, ?_⟩
            rw [hindex]
            congr 1
            omega
          · refine .inr ⟨?_, hindex⟩
            intro p h
            cases p with
            | zero => exact hhead h
            | succ p => exact hnone p h
      · refine .inr ⟨?_, by rw [keyIndexLoop, if_neg hlength]⟩
        intro p h
        have hp := h.lt_length
        omega

theorem valueStart_spec (response : Response) (key : Text) :
    ValueStart key response.text (valueStart response key) := by
  rcases keyIndexLoop_spec key response.text 0 with ⟨p, hfirst, hindex⟩ | ⟨hnone, hindex⟩
  · have hstart : valueStart response key = p + key.length + 2 := by
      rw [valueStart, getKeyIndex, hindex, Nat.zero_add]
      rfl
    rw [hstart]
    exact .found hfirst
  · have hstart : valueStart response key = 1 := by
      rw [valueStart, getKeyIndex, hindex]
      rfl
    rw [hstart]
    exact .missing hnone

theorem valueStart_iff {response : Response} {key : Text} {start : Nat} :
    ValueStart key response.text start ↔ start = valueStart response key := by
  constructor
  · exact fun h => h.unique (valueStart_spec response key)
  · rintro rfl
    exact valueStart_spec response key

/-! ## The copy -/

/-- `value` is the text `get_key` takes for the value of a key: what stands between the start and
the first comma, short enough to leave a terminator in its array. -/
def IsValue (response : Response) (key value : Text) : Prop :=
  value.length ≤ 15 ∧ ∃ start, ValueStart key response.text start ∧
    UpTo 0x2C value (response.text.drop start)

/-- What `get_key` leaves in its array. -/
def holdValue (value : Text) : ValueBuffer :=
  (Cells.fill 0).place 0 value

variable {response : Response} {key value : Text}

theorem isValue_iff : IsValue response key value ↔
    value.length ≤ 15 ∧ UpTo 0x2C value (response.text.drop (valueStart response key)) := by
  refine and_congr_right fun _ => ?_
  constructor
  · rintro ⟨start, hstart, hvalue⟩
    rw [← valueStart_iff.mp hstart]
    exact hvalue
  · exact fun h => ⟨_, valueStart_spec response key, h⟩

theorem IsValue.unique {value' : Text} (h : IsValue response key value)
    (h' : IsValue response key value') : value = value' :=
  (isValue_iff.mp h).2.unique (isValue_iff.mp h').2

/-- A stretch is a part of its response. -/
theorem Response.notMem_of_upTo {start : Nat} (h : UpTo 0x2C value (response.text.drop start)) :
    (0 : Byte) ∉ value := by
  rcases h with ⟨-, rest, hdrop⟩
  intro hmem
  have hdropped : (0 : Byte) ∈ response.text.drop start := by
    rw [hdrop]
    exact List.mem_append_left _ hmem
  exact response.terminated (List.mem_of_mem_drop hdropped)

theorem IsValue.notMem (h : IsValue response key value) : (0 : Byte) ∉ value :=
  Response.notMem_of_upTo (isValue_iff.mp h).2

theorem slice_holdValue (h : value.length ≤ 16) :
    (holdValue value).slice 0 16 = value ++ List.replicate (16 - value.length) 0 :=
  Cells.slice_place_fill h

theorem zero_mem_holdValue (h : value.length ≤ 15) : (0 : Byte) ∈ (holdValue value).slice 0 16 := by
  rw [slice_holdValue (Nat.le_succ_of_le h)]
  refine List.mem_append_right _ (List.mem_replicate.mpr ⟨?_, rfl⟩)
  omega

theorem valueText_holdValue (h : IsValue response key value) :
    valueText (holdValue value) = value := by
  have hlength := h.1
  have hroom : 16 - value.length = (15 - value.length) + 1 := by omega
  rw [valueText, slice_holdValue (Nat.le_succ_of_le hlength), hroom, List.replicate_succ,
    cstr_append_zero h.notMem]

/-- The loop has a result when a comma comes before the end of the text and of the array. -/
theorem getKeyLoop_eq_some_iff (buffer : Text) : ∀ (i : Nat) (array out : ValueBuffer), i ≤ 16 →
    (getKeyLoop buffer i array = some out ↔
      ∃ value, UpTo 0x2C value buffer ∧ i + value.length ≤ 16 ∧ out = array.place i value) := by
  induction buffer with
  | nil =>
      intro i array out _
      refine iff_of_false (fun h => nomatch h) ?_
      rintro ⟨value, h, -⟩
      exact not_upTo_nil h
  | cons b buffer ih =>
      intro i array out hi
      by_cases hb : b = 0x2C
      · rw [getKeyLoop, if_pos hb, hb, Option.some.injEq]
        constructor
        · rintro rfl
          exact ⟨[], upTo_nil _, hi, (Cells.place_nil _ _).symm⟩
        · rintro ⟨value, hvalue, -, rfl⟩
          rw [upTo_separator_iff.mp hvalue, Cells.place_nil]
      · rw [getKeyLoop, if_neg hb]
        rcases Nat.lt_or_ge i 16 with hlt | hge
        · rw [Cells.set?_of_lt hlt, Option.bind_eq_bind, Option.bind_some, ih _ _ _ hlt]
          constructor
          · rintro ⟨value, hvalue, hlength, rfl⟩
            refine ⟨b :: value, hvalue.cons hb, ?_, Cells.place_place _ _ [b] value⟩
            rw [List.length_cons]
            omega
          · rintro ⟨value', hvalue', hlength, rfl⟩
            rcases (upTo_cons_iff hb).mp hvalue' with ⟨value, rfl, hvalue⟩
            rw [List.length_cons] at hlength
            exact ⟨value, hvalue, by omega, (Cells.place_place _ _ [b] value).symm⟩
        -- The seventeenth byte of a value falls behind the array.
        · have hset : array.set? (i : Int) b = none := by
            rw [← Option.not_isSome_iff_eq_none, Cells.set?_isSome_iff]
            omega
          rw [hset]
          refine iff_of_false (fun h => nomatch h) ?_
          rintro ⟨value', hvalue', hlength, -⟩
          rcases (upTo_cons_iff hb).mp hvalue' with ⟨value, rfl, -⟩
          rw [List.length_cons] at hlength
          omega

/-- The terminator of a response is no comma. -/
theorem upTo_drop_terminated (start : Nat) :
    UpTo 0x2C value ((response.text ++ [0]).drop start) ↔
      UpTo 0x2C value (response.text.drop start) := by
  rcases Nat.lt_or_ge response.text.length start with hlt | hge
  · have hlength : (response.text ++ [0]).length ≤ start := by
      rw [List.length_append]
      exact hlt
    rw [List.drop_eq_nil_of_le hlength, List.drop_eq_nil_of_le hlt.le]
  · rw [List.drop_append_of_le_length hge, upTo_concat_iff (by decide)]

theorem fieldValue_eq_some_iff (buffer : ValueBuffer) :
    fieldValue response key = some buffer ↔
      ∃ value, IsValue response key value ∧ buffer = holdValue value := by
  have hkey : ∀ out, getKey ((response.text ++ [0]).drop (valueStart response key)) (Cells.fill 0) =
      some out ↔ ∃ value, UpTo 0x2C value (response.text.drop (valueStart response key)) ∧
        value.length ≤ 16 ∧ out = holdValue value := by
    intro out
    rw [getKey, getKeyLoop_eq_some_iff _ _ _ _ (Nat.zero_le _)]
    refine exists_congr fun value => ?_
    rw [upTo_drop_terminated, Nat.zero_add, holdValue]
  rw [fieldValue, Option.bind_eq_bind, Option.bind_eq_some_iff]
  constructor
  · rintro ⟨out, hout, hzero⟩
    rcases (hkey out).mp hout with ⟨value, hvalue, hlength, rfl⟩
    rw [Option.ite_none_right_eq_some, Option.some.injEq] at hzero
    refine ⟨value, isValue_iff.mpr ⟨?_, hvalue⟩, hzero.2.symm⟩
    by_contra hlong
    have hfull : value.length = 16 := by omega
    have hmem := hzero.1
    rw [slice_holdValue hlength, hfull, List.replicate_zero, List.append_nil] at hmem
    exact Response.notMem_of_upTo hvalue hmem
  · rintro ⟨value, hvalue, rfl⟩
    have hlength := hvalue.1
    refine ⟨holdValue value,
      (hkey _).mpr ⟨value, (isValue_iff.mp hvalue).2, Nat.le_succ_of_le hlength, rfl⟩, ?_⟩
    rw [if_pos (zero_mem_holdValue hlength)]

theorem fieldValue_isSome_iff :
    (fieldValue response key).isSome ↔ ∃ value, IsValue response key value := by
  rw [Option.isSome_iff_exists]
  constructor
  · rintro ⟨buffer, hbuffer⟩
    rcases (fieldValue_eq_some_iff buffer).mp hbuffer with ⟨value, hvalue, -⟩
    exact ⟨value, hvalue⟩
  · rintro ⟨value, hvalue⟩
    exact ⟨_, (fieldValue_eq_some_iff _).mpr ⟨value, hvalue, rfl⟩⟩

theorem IsValue.fieldValue_eq (h : IsValue response key value) :
    fieldValue response key = some (holdValue value) :=
  (fieldValue_eq_some_iff _).mpr ⟨value, h, rfl⟩

end RobotServer
