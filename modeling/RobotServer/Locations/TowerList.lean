import RobotServer.Model.Lbs

/-!
# TowerList — the list of cell towers of a location request

`encode_lbs` writes the pieces of its records one behind the other (`encodeLbs_eq`), and every
buffer on the way to the request has room for what is formatted into it (`towerRequest_fits`).  The
separator of a piece goes by the slot of its record, so the list is joined as it should be exactly
when the first slot is taken or all are empty (`towerList_written_iff`).
-/

namespace RobotServer

open CText Memory

/-! ## Texts in arrays -/

section Arrays

variable {n : Nat} (array : Cells n Byte) {t : Text}

theorem sprintfInto_of_le (h : t.length + 1 ≤ n) :
    sprintfInto array t = some (array.place 0 (t ++ [0])) :=
  if_pos h

theorem strcpyAt_of_le {index : Nat} (h : index + (t.length + 1) ≤ n) :
    strcpyAt array index t = some (array.place index (t ++ [0])) :=
  if_pos h

theorem textIn_place (hzero : (0 : Byte) ∉ t) (h : t.length + 1 ≤ n) :
    textIn (array.place 0 (t ++ [0])) = t := by
  have hlength : (t ++ [0]).length = t.length + 1 := List.length_append
  have hslice := @Cells.slice_place_over n Byte _ array (t ++ [0]) 0 n
    (by rw [hlength, Nat.zero_add]; exact h) (Nat.le_of_eq (Nat.zero_add n))
  rw [textIn, hslice, List.drop_zero, List.append_assoc]
  exact cstr_append_zero hzero _

/-- What `strcpy` leaves of a text that may be empty because nothing was copied. -/
def putText (array : Cells n Byte) (index : Nat) (t : Text) : Cells n Byte :=
  if t = [] then array else array.place index (t ++ [0])

/-- The second text begins on the terminator of the first. -/
theorem putText_place (index : Nat) (first second : Text) :
    putText (array.place index (first ++ [0])) (index + first.length) second =
      array.place index (first ++ second ++ [0]) := by
  rw [putText]
  split
  · next hnil => rw [hnil, List.append_nil]
  · have hcover : ([0] : Text).length ≤ (second ++ [0]).length := by
      rw [List.length_append]
      exact Nat.le_add_left _ _
    rw [← Cells.place_place array index first [0], Cells.place_place_cover _ _ hcover,
      Cells.place_place, List.append_assoc]

end Arrays

/-! ## Pieces -/

theorem towerText_length (cid lac mcc mnc : Nat) (strength : Text) :
    (towerText cid lac mcc mnc strength).length = 62 + (natText cid).length + (natText lac).length +
      (natText mcc).length + (natText mnc).length + strength.length := by
  have hcid : (ascii "\x7b\"cell_id\":\"").length = 12 := by decide
  have hlac : (ascii "\",\"lac\":\"").length = 9 := by decide
  have hmcc : (ascii "\",\"mcc\":\"").length = 9 := by decide
  have hmnc : (ascii "\",\"mnc\":\"").length = 9 := by decide
  have hstrength : (ascii "\",\"signalstrength\":\"-").length = 21 := by decide
  have hend : (ascii "\"\x7d").length = 2 := by decide
  simp only [towerText, List.length_append, hcid, hlac, hmcc, hmnc, hstrength, hend]
  omega

/-- A character of a printed field ends no field, no item and no text. -/
theorem notMem_towerText {c : Byte} (hdigit : isDigit c = false) {strength : Text}
    (hstrength : c ∉ strength) (hliteral : c ∉ towerText 0 0 0 0 []) (cid lac mcc mnc : Nat) :
    c ∉ towerText cid lac mcc mnc strength := by
  simp only [towerText, List.mem_append, not_or] at hliteral ⊢
  have hnumber := fun n => notMem_natText hdigit n
  simp only [hnumber, hstrength, hliteral, not_false_eq_true, and_self]

theorem zero_notMem_itemText (lbs : Lbs) : (0 : Byte) ∉ itemText lbs :=
  notMem_towerText (by decide) (notMem_intText (by decide) (by decide) _) (by decide) _ _ _ _

/-- Four numbers of five digits, and a sign with three digits. -/
theorem itemText_length_le (lbs : Lbs) : (itemText lbs).length ≤ 86 := by
  have hcid := natText_uint16_length_le lbs.cid
  have hlac := natText_uint16_length_le lbs.lac
  have hmcc := natText_uint16_length_le lbs.mcc
  have hmnc := natText_uint16_length_le lbs.mnc
  have hsignal := intText_schar_length_le lbs.signal
  rw [itemText, towerText_length]
  omega

/-- What slot `i` adds to the list. -/
def pieceOf (i : Nat) (lbs : Lbs) : Text :=
  if isLbs lbs then (if i = 0 then itemText lbs else ascii "," ++ itemText lbs) else []

/-- What the slots from `i` on add to the list. -/
def writtenFrom : Nat → List Lbs → Text
  | _, [] => []
  | i, lbs :: rest => pieceOf i lbs ++ writtenFrom (i + 1) rest

theorem pieceOf_of_isLbs {lbs : Lbs} (h : isLbs lbs = true) (i : Nat) :
    pieceOf i lbs = if i = 0 then itemText lbs else ascii "," ++ itemText lbs :=
  if_pos h

theorem pieceOf_of_not_isLbs {lbs : Lbs} (h : isLbs lbs = false) (i : Nat) : pieceOf i lbs = [] :=
  if_neg (by rw [h]; exact Bool.false_ne_true)

theorem zero_notMem_pieceOf (i : Nat) (lbs : Lbs) : (0 : Byte) ∉ pieceOf i lbs := by
  have hitem := zero_notMem_itemText lbs
  have hcomma : (0 : Byte) ∉ ascii "," := by decide
  unfold pieceOf
  split
  · split
    · exact hitem
    · rw [List.mem_append, not_or]
      exact ⟨hcomma, hitem⟩
  · exact List.not_mem_nil

theorem pieceOf_length_le (i : Nat) (lbs : Lbs) : (pieceOf i lbs).length ≤ 87 := by
  have hitem := itemText_length_le lbs
  have hcomma : (ascii ",").length = 1 := by decide
  unfold pieceOf
  split
  · split
    · omega
    · rw [List.length_append, hcomma]
      omega
  · exact Nat.zero_le _

theorem zero_notMem_writtenFrom (list : List Lbs) : ∀ i, (0 : Byte) ∉ writtenFrom i list := by
  induction list with
  | nil => exact fun _ => List.not_mem_nil
  | cons lbs rest ih =>
      intro i
      rw [writtenFrom, List.mem_append, not_or]
      exact ⟨zero_notMem_pieceOf i lbs, ih (i + 1)⟩

theorem writtenFrom_length_le (list : List Lbs) : ∀ i,
    (writtenFrom i list).length ≤ 87 * list.length := by
  induction list with
  | nil => exact fun _ => Nat.le_refl _
  | cons lbs rest ih =>
      intro i
      have hpiece := pieceOf_length_le i lbs
      have hrest := ih (i + 1)
      rw [writtenFrom, List.length_append, List.length_cons]
      omega

/-! ## The loop -/

/-- A round for a record that is present. -/
theorem encodeLbsLoop_of_isLbs {lbs : Lbs} (h : isLbs lbs = true) (rest : List Lbs) (i : Nat)
    {index : Nat} (buffer : PostBuffer)
    (hroom : index + ((pieceOf i lbs).length + 1) ≤ postDataLength) :
    encodeLbsLoop buffer (lbs :: rest) i index =
      encodeLbsLoop (buffer.place index (pieceOf i lbs ++ [0])) rest (i + 1)
        (index + (pieceOf i lbs).length) := by
  have hle : (pieceOf i lbs).length + 1 ≤ 128 :=
    Nat.succ_le_succ ((pieceOf_length_le i lbs).trans (by decide))
  have htext := textIn_place (Cells.fill 0 : Cells 128 Byte) (zero_notMem_pieceOf i lbs) hle
  rw [encodeLbsLoop, if_pos h, ← pieceOf_of_isLbs h, sprintfInto_of_le _ hle, Option.bind_eq_bind,
    Option.bind_some, htext, strcpyAt_of_le _ hroom]
  rfl

theorem encodeLbsLoop_eq (list : List Lbs) : ∀ (i index : Nat) (buffer : PostBuffer),
    index + (writtenFrom i list).length + 1 ≤ postDataLength →
      encodeLbsLoop buffer list i index =
        some (putText buffer index (writtenFrom i list), index + (writtenFrom i list).length) := by
  induction list with
  | nil => exact fun _ _ _ _ => rfl
  | cons lbs rest ih =>
      intro i index buffer hroom
      rw [writtenFrom, List.length_append] at hroom ⊢
      cases hlbs : isLbs lbs with
      | true =>
          have hne : pieceOf i lbs ++ writtenFrom (i + 1) rest ≠ [] := by
            rw [pieceOf_of_isLbs hlbs]
            split
            · exact List.append_ne_nil_of_left_ne_nil (List.cons_ne_nil _ _) _
            · exact List.append_ne_nil_of_left_ne_nil (List.cons_ne_nil _ _) _
          rw [encodeLbsLoop_of_isLbs hlbs rest i buffer (by omega), ih _ _ _ (by omega),
            putText_place, Nat.add_assoc, putText, if_neg hne]
      | false =>
          rw [pieceOf_of_not_isLbs hlbs, List.length_nil, Nat.zero_add, List.nil_append] at *
          rw [encodeLbsLoop, if_neg (by rw [hlbs]; exact Bool.false_ne_true)]
          exact ih (i + 1) index buffer hroom

/-- The text of a list, slot by slot. -/
def writtenTowers (lbs : LbsArray) : Text :=
  writtenFrom 0 lbs.toList

section Request

variable (buffer : PostBuffer) (lbs : LbsArray)

theorem writtenTowers_length_le : (writtenTowers lbs).length ≤ 522 := by
  have hlength := writtenFrom_length_le lbs.toList 0
  rw [Vector.length_toList] at hlength
  exact hlength

/-- The array behind `encode_lbs`, and its return value. -/
theorem encodeLbs_eq : encodeLbs buffer lbs =
    some (putText buffer 0 (writtenTowers lbs), (writtenTowers lbs).length) := by
  have hlength := writtenTowers_length_le lbs
  have hloop := encodeLbsLoop_eq lbs.toList 0 0 buffer
    (by change 0 + (writtenTowers lbs).length + 1 ≤ 1024; omega)
  rw [Nat.zero_add] at hloop
  exact hloop

/-- Nothing but zeros is in the array when nothing is copied. -/
theorem textIn_putText {t : Text} (hzero : (0 : Byte) ∉ t) (h : t.length + 1 ≤ postDataLength) :
    textIn (putText (Cells.fill 0 : PostBuffer) 0 t) = t := by
  unfold putText
  split
  · next hnil =>
      rw [hnil, textIn, Cells.slice_fill 0 (Nat.le_of_eq (Nat.zero_add _))]
      rfl
  · exact textIn_place _ hzero h

theorem requestText_length (towers : Text) : (requestText towers).length = 89 + towers.length := by
  have hhead : (ascii "requestdata=\x7b\"celltowers\":[").length = 27 := by decide
  have hend :
      (ascii "],\"mnctype\":\"gsm\"\x7d&type=0&key=ade0044a7a6b49adbbf1e490bf8f0e9c").length =
        62 := by
    decide
  rw [requestText, List.length_append, List.length_append, hhead, hend]
  omega

theorem zero_notMem_requestText {towers : Text} (h : (0 : Byte) ∉ towers) :
    (0 : Byte) ∉ requestText towers := by
  have hliteral : (0 : Byte) ∉ requestText [] := by decide
  rw [requestText, List.append_nil, List.mem_append, not_or] at hliteral
  rw [requestText, List.mem_append, List.mem_append, not_or, not_or]
  exact ⟨⟨hliteral.1, h⟩, hliteral.2⟩

theorem requestText_room :
    (requestText (writtenTowers lbs)).length + 1 ≤ postDataLength := by
  have hlength := writtenTowers_length_le lbs
  rw [requestText_length]
  change _ ≤ 1024
  omega

theorem postTowers_eq : postTowers buffer lbs =
    some (buffer.place 0 (requestText (writtenTowers lbs) ++ [0])) := by
  have hlength := writtenTowers_length_le lbs
  have htext := textIn_putText (zero_notMem_writtenFrom lbs.toList 0)
    (by change (writtenTowers lbs).length + 1 ≤ 1024; omega)
  rw [postTowers, encodeLbs_eq, Option.bind_eq_bind, Option.bind_some]
  dsimp only
  rw [writtenTowers, htext]
  exact sprintfInto_of_le buffer (requestText_room lbs)

/-- The request as the location service receives it. -/
theorem textIn_postTowers {out : PostBuffer} (h : postTowers buffer lbs = some out) :
    textIn out = requestText (writtenTowers lbs) := by
  rw [postTowers_eq, Option.some.injEq] at h
  rw [← h]
  exact textIn_place buffer (zero_notMem_requestText (zero_notMem_writtenFrom lbs.toList 0))
    (requestText_room lbs)

end Request

/-- **The request fits**: each item its array, the list its array, and the request the array of
`http_post`, with their terminators; no step of `encode_post_data` overruns one of them. -/
theorem towerRequest_fits (buffer : PostBuffer) (data : PacketBuffer) (lbs : LbsArray) :
    let towers := parserLbs data lbs
    (∀ i : Fin lbsCount, (pieceOf i (towers.get i)).length + 1 ≤ 128) ∧
      (writtenTowers towers).length + 1 ≤ postDataLength ∧
        (requestText (writtenTowers towers)).length + 1 ≤ postDataLength ∧
          ∃ out, encodePostData buffer data lbs = some out ∧
            textIn out = requestText (writtenTowers towers) := by
  intro towers
  have hlength := writtenTowers_length_le towers
  refine ⟨?_, ?_, requestText_room towers, _, postTowers_eq buffer towers,
    textIn_postTowers buffer towers (postTowers_eq buffer towers)⟩
  · intro i
    exact Nat.succ_le_succ ((pieceOf_length_le i (towers.get i)).trans (by decide))
  · change _ ≤ 1024
    omega

/-! ## Separators -/

/-- The list as it should be: the items of the records that are present, joined by commas. -/
def towerList (lbs : LbsArray) : Text :=
  (ascii ",").intercalate ((lbs.toList.filter isLbs).map itemText)

/-- `encode_lbs` leaves the joined list and its terminator and returns its length, and the joined
list stands between the brackets of the request. -/
structure WritesTowerList (lbs : LbsArray) : Prop where
  list : ∀ buffer : PostBuffer,
    encodeLbs buffer lbs = some (putText buffer 0 (towerList lbs), (towerList lbs).length)
  request : ∀ buffer : PostBuffer,
    ∃ out, postTowers buffer lbs = some out ∧ textIn out = requestText (towerList lbs)

/-- A joined list is its first item and the later ones, each behind a separator. -/
theorem intercalate_cons_flatMap {α : Type} (sep first : List α) (rest : List (List α)) :
    sep.intercalate (first :: rest) = first ++ rest.flatMap fun item => sep ++ item := by
  induction rest generalizing first with
  | nil => rw [List.intercalate_singleton, List.flatMap_nil, List.append_nil]
  | cons second rest ih =>
      rw [List.intercalate_cons_cons, ih second, List.flatMap_cons, List.append_assoc,
        List.append_assoc]

/-- Behind the first slot every item has a separator in front. -/
theorem writtenFrom_succ (list : List Lbs) : ∀ i,
    writtenFrom (i + 1) list =
      ((list.filter isLbs).map itemText).flatMap fun item => ascii "," ++ item := by
  induction list with
  | nil => exact fun _ => rfl
  | cons lbs rest ih =>
      intro i
      rw [writtenFrom, ih (i + 1)]
      cases hlbs : isLbs lbs with
      | true =>
          rw [pieceOf_of_isLbs hlbs, if_neg (Nat.succ_ne_zero i), List.filter_cons_of_pos hlbs,
            List.map_cons, List.flatMap_cons]
      | false =>
          rw [pieceOf_of_not_isLbs hlbs, List.filter_cons_of_neg (by rw [hlbs]; decide),
            List.nil_append]

theorem writtenFrom_eq_intercalate_iff (first : Lbs) (rest : List Lbs) :
    writtenFrom 0 (first :: rest) =
        (ascii ",").intercalate (((first :: rest).filter isLbs).map itemText) ↔
      isLbs first = true ∨ ∀ lbs ∈ rest, isLbs lbs = false := by
  rw [writtenFrom, writtenFrom_succ]
  cases hfirst : isLbs first with
  | true =>
      -- The first item has no comma, and every later one brings its own.
      rw [pieceOf_of_isLbs hfirst, if_pos rfl, List.filter_cons_of_pos hfirst, List.map_cons,
        intercalate_cons_flatMap]
      exact iff_of_true rfl (.inl rfl)
  | false =>
      rw [pieceOf_of_not_isLbs hfirst, List.filter_cons_of_neg (by rw [hfirst]; decide),
        List.nil_append]
      cases hrest : rest.filter isLbs with
      | nil =>
          -- Nothing is written.
          refine iff_of_true rfl (.inr ?_)
          intro lbs hlbs
          have hnone := List.filter_eq_nil_iff.mp hrest lbs hlbs
          rwa [Bool.not_eq_true] at hnone
      | cons lbs later =>
          refine iff_of_false ?_ ?_
          · -- The list that is written has one comma more.
            intro h
            rw [List.map_cons, intercalate_cons_flatMap, List.flatMap_cons, List.append_assoc] at h
            exact absurd (List.append_left_eq_self.mp h) (by decide)
          · rintro (hpresent | hnone)
            · cases hpresent
            · have hmem : lbs ∈ rest.filter isLbs := by
                rw [hrest]
                exact List.mem_cons_self
              have hlbs := List.mem_filter.mp hmem
              rw [hnone lbs hlbs.1] at hlbs
              exact Bool.false_ne_true hlbs.2

theorem writtenTowers_eq_iff (lbs : LbsArray) :
    writtenTowers lbs = towerList lbs ↔
      isLbs lbs[0] = true ∨ ∀ r ∈ lbs.toList, isLbs r = false := by
  have hcons : lbs.toList = lbs[0] :: lbs.toList.tail := by
    have hne : lbs.toList ≠ [] := by
      intro hnil
      have hlength := congrArg List.length hnil
      rw [Vector.length_toList] at hlength
      cases hlength
    rw [← List.cons_head_tail hne]
    congr 1
    rw [List.head_eq_getElem, Vector.getElem_toList]
  rw [writtenTowers, towerList, hcons, writtenFrom_eq_intercalate_iff]
  refine or_congr_right' fun hfirst => ?_
  rw [Bool.not_eq_true] at hfirst
  rw [List.forall_mem_cons, and_iff_right hfirst]

theorem writesTowerList_iff_eq (lbs : LbsArray) :
    WritesTowerList lbs ↔ writtenTowers lbs = towerList lbs := by
  constructor
  · intro h
    -- What is read back from an array of zeros is the list that was written.
    rcases h.request (Cells.fill 0) with ⟨out, hout, htext⟩
    rw [textIn_postTowers _ lbs hout] at htext
    exact List.append_cancel_left (List.append_cancel_right htext)
  · intro h
    refine ⟨?_, ?_⟩
    · intro buffer
      rw [← h]
      exact encodeLbs_eq buffer lbs
    · intro buffer
      rw [← h]
      exact ⟨_, postTowers_eq buffer lbs, textIn_postTowers buffer lbs (postTowers_eq buffer lbs)⟩

/-- **The list of towers is joined as it should be exactly when the first slot is taken or no slot
is.** -/
theorem towerList_written_iff (lbs : LbsArray) :
    WritesTowerList lbs ↔ isLbs lbs[0] = true ∨ ∀ r ∈ lbs.toList, isLbs r = false :=
  (writesTowerList_iff_eq lbs).trans (writtenTowers_eq_iff lbs)

/-- One tower, in the second slot. -/
def secondSlotOnly : LbsArray :=
  #v[Lbs.zero, ⟨460, 0, 24802, 26353, 60⟩, Lbs.zero, Lbs.zero, Lbs.zero, Lbs.zero]

theorem secondSlotOnly_leading_comma :
    writtenTowers secondSlotOnly = ascii "," ++ towerList secondSlotOnly ∧
      ¬ WritesTowerList secondSlotOnly := by
  refine ⟨by decide +kernel, ?_⟩
  rw [writesTowerList_iff_eq]
  decide +kernel

end RobotServer
