import RobotServer.Locations.TowerList
import RobotServer.Text.Search

/-!
# AbsentTowers — what a request tells about the slots of its packet

`ReportsTowers` asks that the list of a request is made of pieces, one for each slot: nothing for an
absent tower, and otherwise nothing or the slot's own item.  Items can be read off a list, so a
wrong item cannot be taken for another slot's; `towers_reported_iff` says which packets are told
right.
-/

namespace RobotServer

open CText Memory Search

/-! ## Slots of a packet -/

section Slots

variable (data : PacketBuffer) (i : Nat)

def mccAt : UInt16 := ushortAt data lbsMccMncIndex

def mncAt : UInt16 := ushortAt data (lbsMccMncIndex + 2)

def lacAt : UInt16 := ushortAt data (lbsStationInfo + 5 * i)

def cidAt : UInt16 := ushortAt data (lbsStationInfo + 5 * i + 2)

def signalAt : Byte := data.peek (lbsStationInfo + 5 * i + 4)

/-- The slot holds no tower. -/
def AbsentTower : Prop :=
  lacAt data i = 0 ∨ lacAt data i = 0xFFFF ∨ cidAt data i = 0 ∨ cidAt data i = 0xFFFF ∨
    signalAt data i = 0 ∨ signalAt data i = 0xFF

/-- The slot's own numbers, and minus its signal byte. -/
def ownItem : Text :=
  towerText (cidAt data i).toNat (lacAt data i).toNat (mccAt data).toNat (mncAt data).toNat
    (natText (signalAt data i).toNat)

/-- An item with a separator in front, or without. -/
def IsPiece (item piece : Text) : Prop :=
  piece = item ∨ piece = ascii "," ++ item

/-- The piece tells what the slot holds, or nothing. -/
def Reports (piece : Text) : Prop :=
  piece = [] ∨ ¬ AbsentTower data i ∧ IsPiece (ownItem data i) piece

end Slots

/-- The request for a packet is made of pieces that report its slots, whatever the local array held
before. -/
def ReportsTowers (data : PacketBuffer) : Prop :=
  ∀ (buffer : PostBuffer) (lbs : LbsArray), ∃ out, encodePostData buffer data lbs = some out ∧
    ∃ pieces : Vector Text lbsCount, textIn out = requestText pieces.toList.flatten ∧
      ∀ i : Fin lbsCount, Reports data i (pieces.get i)

/-- Neither number of the slot is unset, and either `parser_Lbs` clears it for one of its numbers,
or its signal is positive as a `signed char`. -/
def ToldRight (data : PacketBuffer) (i : Nat) : Prop :=
  lacAt data i ≠ 0xFFFF ∧ cidAt data i ≠ 0xFFFF ∧
    (lacAt data i = 0 ∨ lacAt data i = 0xFF ∨ cidAt data i = 0 ∨ cidAt data i = 0xFF ∨
      (signalAt data i).toNat < 128)

/-! ## Items -/

/-- The fields of an item end at the quotes behind them. -/
theorem towerText_inj {cid lac mcc mnc cid' lac' mcc' mnc' : Nat} {strength strength' : Text}
    (hstrength : (0x22 : Byte) ∉ strength) (hstrength' : (0x22 : Byte) ∉ strength')
    (h : towerText cid lac mcc mnc strength = towerText cid' lac' mcc' mnc' strength') :
    cid = cid' ∧ lac = lac' ∧ mcc = mcc' ∧ mnc = mnc' ∧ strength = strength' := by
  have hquote : ∀ n, (0x22 : Byte) ∉ natText n := fun n => notMem_natText (by decide) n
  have hlac : ascii "\",\"lac\":\"" = 0x22 :: ascii ",\"lac\":\"" := by decide
  have hmcc : ascii "\",\"mcc\":\"" = 0x22 :: ascii ",\"mcc\":\"" := by decide
  have hmnc : ascii "\",\"mnc\":\"" = 0x22 :: ascii ",\"mnc\":\"" := by decide
  have hsignal : ascii "\",\"signalstrength\":\"-" = 0x22 :: ascii ",\"signalstrength\":\"-" := by
    decide
  have hend : ascii "\"\x7d" = 0x22 :: ascii "\x7d" := by decide
  simp only [towerText, List.append_assoc, hlac, hmcc, hmnc, hsignal, hend, List.cons_append] at h
  rcases append_cons_inj (hquote _) (hquote _) (List.append_cancel_left h) with ⟨hcid', h⟩
  rcases append_cons_inj (hquote _) (hquote _) (List.append_cancel_left h) with ⟨hlac', h⟩
  rcases append_cons_inj (hquote _) (hquote _) (List.append_cancel_left h) with ⟨hmcc', h⟩
  rcases append_cons_inj (hquote _) (hquote _) (List.append_cancel_left h) with ⟨hmnc', h⟩
  rcases append_cons_inj hstrength hstrength' (List.append_cancel_left h) with ⟨hstrength'', -⟩
  exact ⟨natText_inj hcid', natText_inj hlac', natText_inj hmcc', natText_inj hmnc', hstrength''⟩

/-- An item opens with a brace, which no separator is. -/
theorem IsPiece.item_eq {cid lac mcc mnc cid' lac' mcc' mnc' : Nat}
    {strength strength' piece : Text} (h : IsPiece (towerText cid lac mcc mnc strength) piece)
    (h' : IsPiece (towerText cid' lac' mcc' mnc' strength') piece) :
    towerText cid lac mcc mnc strength = towerText cid' lac' mcc' mnc' strength' := by
  rcases h with h | h
  · rcases h' with h' | h'
    · exact h.symm.trans h'
    · have hhead := congrArg List.head? (h.symm.trans h')
      cases hhead
  · rcases h' with h' | h'
    · have hhead := congrArg List.head? (h.symm.trans h')
      cases hhead
    · exact List.append_cancel_left (h.symm.trans h')

theorem closed_towerText {cid lac mcc mnc : Nat} {strength : Text}
    (hstrength : (0x7D : Byte) ∉ strength) : Closed 0x7D (towerText cid lac mcc mnc strength) := by
  have hnumber : ∀ n, (0x7D : Byte) ∉ natText n := fun n => notMem_natText (by decide) n
  have hcid : (0x7D : Byte) ∉ ascii "\x7b\"cell_id\":\"" := by decide
  have hlac : (0x7D : Byte) ∉ ascii "\",\"lac\":\"" := by decide
  have hmcc : (0x7D : Byte) ∉ ascii "\",\"mcc\":\"" := by decide
  have hmnc : (0x7D : Byte) ∉ ascii "\",\"mnc\":\"" := by decide
  have hsignal : (0x7D : Byte) ∉ ascii "\",\"signalstrength\":\"-" := by decide
  have hquote : (0x7D : Byte) ∉ ascii "\"" := by decide
  have hend : ascii "\"\x7d" = ascii "\"" ++ [0x7D] := by decide
  refine ⟨ascii "\x7b\"cell_id\":\"" ++ natText cid ++ ascii "\",\"lac\":\"" ++ natText lac ++
    ascii "\",\"mcc\":\"" ++ natText mcc ++ ascii "\",\"mnc\":\"" ++ natText mnc ++
    ascii "\",\"signalstrength\":\"-" ++ strength ++ ascii "\"", ?_, ?_⟩
  · simp only [List.mem_append, not_or, hnumber, hcid, hlac, hmcc, hmnc, hsignal, hquote, hstrength,
      not_false_eq_true, and_self]
  · rw [towerText, hend, List.append_assoc _ (ascii "\"") [0x7D]]

theorem IsPiece.closed {item piece : Text} (h : IsPiece item piece) (hitem : Closed 0x7D item) :
    Closed 0x7D piece := by
  rcases h with rfl | rfl
  · exact hitem
  · rcases hitem with ⟨body, hbody, rfl⟩
    have hcomma : (0x7D : Byte) ∉ ascii "," := by decide
    refine ⟨ascii "," ++ body, ?_, (List.append_assoc _ _ _).symm⟩
    rw [List.mem_append, not_or]
    exact ⟨hcomma, hbody⟩

theorem closed_itemText (lbs : Lbs) : Closed 0x7D (itemText lbs) :=
  closed_towerText (notMem_intText (by decide) (by decide) _)

theorem closed_ownItem (data : PacketBuffer) (i : Nat) : Closed 0x7D (ownItem data i) :=
  closed_towerText (notMem_natText (by decide) _)

theorem isPiece_pieceOf {lbs : Lbs} (h : isLbs lbs = true) (i : Nat) :
    IsPiece (itemText lbs) (pieceOf i lbs) := by
  rw [pieceOf_of_isLbs h]
  split
  · exact .inl rfl
  · exact .inr rfl

theorem isPiece_ne_nil {item piece : Text} (h : IsPiece item piece) (hitem : Closed 0x7D item) :
    piece ≠ [] := by
  rcases h.closed hitem with ⟨body, -, rfl⟩
  exact List.append_ne_nil_of_right_ne_nil _ (List.cons_ne_nil _ _)

/-! ## Pieces of a list -/

/-- What the slots add to the list. -/
def piecesOf (lbs : LbsArray) : Vector Text lbsCount :=
  lbs.mapIdx pieceOf

theorem writtenFrom_eq_flatten (list : List Lbs) : ∀ i,
    writtenFrom i list = (list.mapIdx fun k lbs => pieceOf (i + k) lbs).flatten := by
  induction list with
  | nil => exact fun _ => rfl
  | cons lbs rest ih =>
      intro i
      rw [writtenFrom, ih (i + 1), List.mapIdx_cons, List.flatten_cons]
      simp only [Nat.add_assoc, Nat.add_comm 1, Nat.add_zero]

theorem writtenTowers_eq_flatten (lbs : LbsArray) :
    writtenTowers lbs = (piecesOf lbs).toList.flatten := by
  rw [writtenTowers, writtenFrom_eq_flatten, piecesOf, Vector.toList_mapIdx]
  simp only [Nat.zero_add]

theorem piecesOf_parserLbs (data : PacketBuffer) (lbs : LbsArray) (i : Fin lbsCount) :
    (piecesOf (parserLbs data lbs)).get i = pieceOf i (parserLbsSlot data i (lbs.get i)) := by
  change (piecesOf (parserLbs data lbs))[i] = pieceOf i (parserLbsSlot data i lbs[i])
  simp only [piecesOf, parserLbs, Fin.getElem_fin, Vector.getElem_mapIdx, Vector.getElem_ofFn]

/-- The pieces that are not empty can be read off the list. -/
theorem mem_of_flatten_eq {pieces pieces' : List Text}
    (hclosed : ∀ piece ∈ pieces, piece ≠ [] → Closed 0x7D piece)
    (hclosed' : ∀ piece ∈ pieces', piece ≠ [] → Closed 0x7D piece)
    (h : pieces.flatten = pieces'.flatten) {piece : Text} (hmem : piece ∈ pieces)
    (hne : piece ≠ []) : piece ∈ pieces' := by
  have hkept : ∀ list : List Text, ∀ t,
      t ∈ list.filter (fun t => !t.isEmpty) ↔ t ∈ list ∧ t ≠ [] := by
    intro list t
    rw [List.mem_filter, Bool.not_eq_true', List.isEmpty_eq_false_iff]
  have heq : pieces.filter (fun t => !t.isEmpty) = pieces'.filter (fun t => !t.isEmpty) := by
    refine @flatten_injective_of_closed Byte 0x7D _ _ _ ?_ ?_ ?_
    · intro block hblock
      rcases (hkept pieces block).mp hblock with ⟨hmem, hne⟩
      exact hclosed block hmem hne
    · intro block hblock
      rcases (hkept pieces' block).mp hblock with ⟨hmem, hne⟩
      exact hclosed' block hmem hne
    · rw [List.flatten_filter_not_isEmpty, List.flatten_filter_not_isEmpty]
      exact h
  have hfiltered := (hkept pieces piece).mpr ⟨hmem, hne⟩
  rw [heq] at hfiltered
  exact ((hkept pieces' piece).mp hfiltered).1

/-! ## Slots -/

section Slots

variable {data : PacketBuffer} {i : Nat}

/-- A slot with an unset number is reported, with the signal that the array held before. -/
theorem parserLbsSlot_of_unset (h : lacAt data i = 0xFFFF ∨ cidAt data i = 0xFFFF) (lbs : Lbs) :
    parserLbsSlot data i lbs =
      ⟨mccAt data, mncAt data, lacAt data i, cidAt data i, lbs.signal⟩ :=
  if_pos (Or.symm h)

/-- The record of a slot whose numbers are both set. -/
theorem parserLbsSlot_of_set (hlac : lacAt data i ≠ 0xFFFF) (hcid : cidAt data i ≠ 0xFFFF)
    (lbs : Lbs) :
    let read : Lbs := ⟨mccAt data, mncAt data, lacAt data i, cidAt data i, signalAt data i⟩
    parserLbsSlot data i lbs = if read.Unusable then Lbs.zero else read :=
  if_neg (not_or.mpr ⟨hcid, hlac⟩)

theorem isLbs_of_lac_ne {lbs : Lbs} (h : lbs.lac ≠ 0) : isLbs lbs = true :=
  decide_eq_true fun hzero => h hzero.2.2.2.1

theorem isLbs_of_cid_ne {lbs : Lbs} (h : lbs.cid ≠ 0) : isLbs lbs = true :=
  decide_eq_true fun hzero => h hzero.2.2.1

theorem isLbs_zero : isLbs Lbs.zero = false := by
  decide

theorem reports_of_toldRight (h : ToldRight data i) (lbs : Lbs) :
    Reports data i (pieceOf i (parserLbsSlot data i lbs)) := by
  rcases h with ⟨hlac, hcid, h⟩
  rw [parserLbsSlot_of_set hlac hcid]
  split
  · exact .inl (pieceOf_of_not_isLbs isLbs_zero i)
  · next husable =>
      simp only [Lbs.Unusable, not_or] at husable
      rcases husable with ⟨hlac0, hlac255, hcid0, hcid255, hzero, -⟩
      -- The slot is kept, so none of the reasons to clear it holds and its signal is positive.
      have hsignal : (signalAt data i).toNat < 128 := by
        rcases h with h | h | h | h | h
        · exact absurd h hlac0
        · exact absurd h hlac255
        · exact absurd h hcid0
        · exact absurd h hcid255
        · exact h
      rw [schar_of_lt hsignal] at hzero
      have hlbs : isLbs ⟨mccAt data, mncAt data, lacAt data i, cidAt data i, signalAt data i⟩ =
          true := isLbs_of_lac_ne hlac0
      have hpiece := isPiece_pieceOf hlbs i
      rw [itemText, schar_of_lt hsignal, intText_natCast] at hpiece
      refine .inr ⟨?_, hpiece⟩
      rintro (h | h | h | h | h | h)
      · exact hlac0 h
      · exact hlac h
      · exact hcid0 h
      · exact hcid h
      · exact hzero (by rw [h]; rfl)
      · rw [h] at hsignal
        exact absurd hsignal (by decide)

/-- The record of a slot that is not told right is printed, and one of its fields is no tower's. -/
theorem parserLbsSlot_of_not_toldRight (h : ¬ ToldRight data i) (lbs : Lbs) :
    ∃ signal, parserLbsSlot data i lbs =
        ⟨mccAt data, mncAt data, lacAt data i, cidAt data i, signal⟩ ∧
      isLbs (parserLbsSlot data i lbs) = true ∧
        (lacAt data i = 0xFFFF ∨ cidAt data i = 0xFFFF ∨ schar signal < 0) := by
  by_cases hunset : lacAt data i = 0xFFFF ∨ cidAt data i = 0xFFFF
  -- An unset number keeps the slot from being checked, and the record from being cleared.
  · rw [parserLbsSlot_of_unset hunset]
    refine ⟨_, rfl, ?_, ?_⟩
    · rcases hunset with h | h
      · exact isLbs_of_lac_ne (h.trans_ne (by decide))
      · exact isLbs_of_cid_ne (h.trans_ne (by decide))
    · rcases hunset with h | h
      · exact .inl h
      · exact .inr (.inl h)
  · rw [not_or] at hunset
    rw [ToldRight, and_iff_right hunset.1, and_iff_right hunset.2] at h
    simp only [not_or, Nat.not_lt] at h
    rcases h with ⟨hlac0, hlac255, hcid0, hcid255, hsignal⟩
    have hnegative : schar (signalAt data i) < 0 := by
      have hlt := (signalAt data i).toNat_lt
      rw [schar, if_neg (Nat.not_lt.mpr hsignal)]
      omega
    rw [parserLbsSlot_of_set hunset.1 hunset.2, if_neg]
    · exact ⟨_, rfl, isLbs_of_lac_ne hlac0, .inr (.inr hnegative)⟩
    · -- A `signed char` is never 0xFF.
      rintro (h | h | h | h | h | h)
      · exact hlac0 h
      · exact hlac255 h
      · exact hcid0 h
      · exact hcid255 h
      · exact absurd h (Int.ne_of_lt hnegative)
      · change schar (signalAt data i) = 0xFF at h
        omega

/-- The item of a slot that is not told right is no slot's own. -/
theorem itemText_ne_ownItem (h : ¬ ToldRight data i) (lbs : Lbs) {j : Nat}
    (hpresent : ¬ AbsentTower data j) :
    itemText (parserLbsSlot data i lbs) ≠ ownItem data j := by
  simp only [AbsentTower, not_or] at hpresent
  rcases hpresent with ⟨-, hlac, -, hcid, -⟩
  rcases parserLbsSlot_of_not_toldRight h lbs with ⟨signal, hslot, -, hfield⟩
  rw [hslot]
  intro heq
  rcases towerText_inj (notMem_intText (by decide) (by decide) _) (notMem_natText (by decide) _)
    heq with ⟨hcid', hlac', -, -, hstrength⟩
  -- The fields that are printed differ, and items can be read back.
  rcases hfield with h | h | h
  · exact hlac ((UInt16.toNat_inj.mp hlac').symm.trans h)
  · exact hcid ((UInt16.toNat_inj.mp hcid').symm.trans h)
  · -- A negative signal has a sign of its own, which no byte from 1 to 254 has.
    have hsign : (0x2D : Byte) ∈ natText (signalAt data j).toNat := by
      rw [← hstrength, intText, if_pos h]
      exact List.mem_cons_self
    exact notMem_natText (by decide) _ hsign

end Slots

/-! ## Requests -/

theorem closed_of_mem_piecesOf {lbs : LbsArray} {piece : Text}
    (hmem : piece ∈ (piecesOf lbs).toList) (hne : piece ≠ []) : Closed 0x7D piece := by
  rw [piecesOf, Vector.toList_mapIdx, List.mem_mapIdx] at hmem
  rcases hmem with ⟨i, hi, rfl⟩
  cases hlbs : isLbs lbs.toList[i] with
  | true => exact (isPiece_pieceOf hlbs i).closed (closed_itemText _)
  | false => exact absurd (pieceOf_of_not_isLbs hlbs i) hne

/-- Whatever pieces a request is made of, the item of a slot that is present is one of them. -/
theorem exists_ownItem_of_reportsTowers {data : PacketBuffer} (h : ReportsTowers data)
    (lbs : LbsArray) (i : Fin lbsCount) (hlbs : isLbs (parserLbsSlot data i (lbs.get i)) = true) :
    ∃ j : Nat, ¬ AbsentTower data j ∧
      itemText (parserLbsSlot data i (lbs.get i)) = ownItem data j := by
  rcases h (Cells.fill 0) lbs with ⟨out, hout, pieces, htext, hreports⟩
  rw [textIn_postTowers _ _ hout, writtenTowers_eq_flatten] at htext
  have hflatten := List.append_cancel_left (List.append_cancel_right htext)
  have hreported : ∀ piece ∈ pieces.toList, piece ≠ [] →
      ∃ j : Nat, ¬ AbsentTower data j ∧ IsPiece (ownItem data j) piece := by
    intro piece hmem hne
    rw [Vector.mem_toList_iff, Vector.mem_iff_getElem] at hmem
    rcases hmem with ⟨j, hj, rfl⟩
    exact ⟨j, (hreports ⟨j, hj⟩).resolve_left hne⟩
  have hpiece := isPiece_pieceOf hlbs i
  have hmem : pieceOf i (parserLbsSlot data i (lbs.get i)) ∈
      (piecesOf (parserLbs data lbs)).toList := by
    rw [← piecesOf_parserLbs, Vector.mem_toList_iff]
    exact Vector.getElem_mem i.isLt
  have hne := isPiece_ne_nil hpiece (closed_itemText _)
  have hmem' := mem_of_flatten_eq (fun _ => closed_of_mem_piecesOf)
    (fun piece hmem hne => by
      rcases hreported piece hmem hne with ⟨j, -, hown⟩
      exact hown.closed (closed_ownItem data j)) hflatten hmem hne
  rcases hreported _ hmem' hne with ⟨j, hpresent, hown⟩
  exact ⟨j, hpresent, hpiece.item_eq hown⟩

theorem toldRight_of_reportsTowers {data : PacketBuffer} (h : ReportsTowers data)
    (i : Fin lbsCount) : ToldRight data i := by
  by_contra hwrong
  rcases parserLbsSlot_of_not_toldRight hwrong ((Vector.replicate lbsCount Lbs.zero).get i) with
    ⟨-, -, hlbs, -⟩
  rcases exists_ownItem_of_reportsTowers h _ i hlbs with ⟨j, hpresent, heq⟩
  exact itemText_ne_ownItem hwrong _ hpresent heq

/-- **Absent towers are left out and the others told right exactly when each slot's numbers are set
and its signal is positive as a `signed char`**, or `parser_Lbs` clears the slot for a number. -/
theorem towers_reported_iff (data : PacketBuffer) :
    ReportsTowers data ↔ ∀ i : Fin lbsCount, ToldRight data i := by
  refine ⟨toldRight_of_reportsTowers, ?_⟩
  intro h buffer lbs
  refine ⟨_, postTowers_eq buffer _, piecesOf (parserLbs data lbs), ?_, ?_⟩
  · rw [textIn_postTowers buffer _ (postTowers_eq buffer _), writtenTowers_eq_flatten]
  · intro i
    rw [piecesOf_parserLbs]
    exact reports_of_toldRight (h i) (lbs.get i)

/-- The first slot has a cell and a signal of 60, and no area. -/
def unsetArea : PacketBuffer :=
  BlockBuffer.zero.packet.place lbsMccMncIndex [0x01, 0xCC, 0, 0, 0xFF, 0xFF, 0x66, 0xF1, 60]

theorem unsetArea_reported : AbsentTower unsetArea 0 ∧ ¬ ReportsTowers unsetArea := by
  have hlac : lacAt unsetArea 0 = 0xFFFF := by decide +kernel
  refine ⟨.inr (.inl hlac), ?_⟩
  intro h
  exact (toldRight_of_reportsTowers h 0).1 hlac

end RobotServer
