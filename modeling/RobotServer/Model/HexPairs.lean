import RobotServer.Model.Syner
import RobotServer.Model.Hex

/-!
# HexPairs — the pairing loop behind `hextostring`

`STRINGTOHEX` assigns to the characters it packs: `stringtohexLoop` keeps the text besides the
bytes.  `hextostring` writes the digits above 9 as letters, which the macro takes for `'0'`, so the
two are inverse on decimal digits only (`stringtohexLoop_hextostring_iff`).
-/

namespace RobotServer

open CText

/-! ## The loop with its assignments -/

/-- The first `count` rounds over the array `t`: the array afterwards and the packed bytes. -/
def stringtohexLoop (t : Text) : Nat → Option (Text × List Byte)
  | 0 => some (t, [])
  | i + 1 => do
      let (t, bytes) ← stringtohexLoop t i
      let x ← t[2 * i]?
      let y ← t[2 * i + 1]?
      some ((t.set (2 * i) (digitOrZero x)).set (2 * i + 1) (digitOrZero y),
        bytes ++ [stringtohex x y])

/-- The two characters of a byte as the loop leaves them. -/
def pairLeft (b : Byte) : Text :=
  (hexPair b).map digitOrZero

/-- The byte that the loop makes of these two characters. -/
def pairByte (b : Byte) : Byte :=
  stringtohex (hexChar (b.toNat / 16)) (hexChar (b.toNat % 16))

theorem hextostring_append (hex hex' : List Byte) :
    hextostring (hex ++ hex') = hextostring hex ++ hextostring hex' :=
  List.flatMap_append

/-- A round works on the two characters behind the finished part of the text. -/
theorem stringtohexLoop_step {t done rest : Text} {bytes : List Byte} {i : Nat} {b : Byte}
    (hlength : done.length = 2 * i)
    (h : stringtohexLoop t i = some (done ++ hexPair b ++ rest, bytes)) :
    stringtohexLoop t (i + 1) = some (done ++ pairLeft b ++ rest, bytes ++ [pairByte b]) := by
  have hpair := hexPair_eq b
  rw [hpair] at h
  rw [pairLeft, hpair, stringtohexLoop, h]
  simp [← hlength, pairByte]

/-- Behind `i` rounds the first `i` bytes are packed, and the text of the others is untouched. -/
theorem stringtohexLoop_hextostring (hex : List Byte) (i : Nat) : i ≤ hex.length →
    stringtohexLoop (hextostring hex ++ [0]) i =
      some ((hextostring (hex.take i)).map digitOrZero ++ hextostring (hex.drop i) ++ [0],
        (hex.take i).map pairByte) := by
  induction i with
  | zero => exact fun _ => rfl
  | succ i ih =>
      intro hi
      have hlt : i < hex.length := hi
      have hbefore := ih hlt.le
      have hdrop : hex.drop i = [hex[i]] ++ hex.drop (i + 1) := List.drop_eq_getElem_cons hlt
      have htake : hex.take (i + 1) = hex.take i ++ [hex[i]] := by simp
      have hdone : ((hextostring (hex.take i)).map digitOrZero).length = 2 * i := by
        rw [List.length_map, hextostring_length, List.length_take_of_le hlt.le]
      have hone : hextostring [hex[i]] = hexPair hex[i] := List.append_nil _
      rw [hdrop, hextostring_append, hone, ← List.append_assoc, List.append_assoc _ _ [0]] at hbefore
      rw [stringtohexLoop_step hdone hbefore, htake, hextostring_append, hone, List.map_append,
        List.map_append, pairLeft, List.append_assoc _ _ [0]]
      rfl

/-- The whole loop. -/
theorem stringtohexLoop_all (hex : List Byte) :
    stringtohexLoop (hextostring hex ++ [0]) hex.length =
      some ((hextostring hex).map digitOrZero ++ [0], hex.map pairByte) := by
  have hloop := stringtohexLoop_hextostring hex hex.length le_rfl
  rw [List.take_length, List.drop_length] at hloop
  rw [hloop]
  change some (_ ++ [] ++ [0], _) = _
  rw [List.append_nil]

/-! ## Decimal digits -/

theorem digitOrZero_hexChar_iff : ∀ d < 16, digitOrZero (hexChar d) = hexChar d ↔ d < 10 := by
  decide

/-- A byte comes back exactly when both its digits are decimal. -/
theorem pairByte_eq_self_iff (b : Byte) :
    pairByte b = b ↔ b.toNat / 16 < 10 ∧ b.toNat % 16 < 10 := by
  revert b
  exact forall_byte (by decide +kernel)

/-- The loop leaves a text alone exactly when it has decimal digits only. -/
theorem map_digitOrZero_hextostring_iff (hex : List Byte) :
    (hextostring hex).map digitOrZero = hextostring hex ↔ ∀ d ∈ nibbles hex, d < 10 := by
  rw [hextostring_eq_map, List.map_map, List.map_inj_left]
  refine forall_congr' fun d => forall_congr' fun hd => ?_
  exact digitOrZero_hexChar_iff d (nibbles_lt hex d hd)

theorem map_pairByte_of_digits {hex : List Byte} (h : ∀ d ∈ nibbles hex, d < 10) :
    hex.map pairByte = hex := by
  refine (List.map_congr_left fun b hb => ?_).trans (List.map_id hex)
  have hnibbles : ∀ d ∈ [b.toNat / 16, b.toNat % 16], d < 10 :=
    fun d hd => h d (List.mem_flatMap.mpr ⟨b, hb, hd⟩)
  exact (pairByte_eq_self_iff b).mpr ⟨hnibbles _ (by simp), hnibbles _ (by simp)⟩

/-- **Packing the hex text of a byte string gives the bytes back and leaves the text alone exactly
when all their hex digits are decimal.** -/
theorem stringtohexLoop_hextostring_iff (hex : List Byte) :
    stringtohexLoop (hextostring hex ++ [0]) hex.length = some (hextostring hex ++ [0], hex) ↔
      ∀ d ∈ nibbles hex, d < 10 := by
  rw [stringtohexLoop_all, Option.some.injEq, Prod.mk.injEq, List.append_left_inj,
    map_digitOrZero_hextostring_iff]
  constructor
  · exact fun h => h.1
  · exact fun h => ⟨h, map_pairByte_of_digits h⟩

/-- The byte `AB` comes back as zero. -/
theorem stringtohexLoop_letters :
    ∃ hex : List Byte, ¬ stringtohexLoop (hextostring hex ++ [0]) hex.length =
      some (hextostring hex ++ [0], hex) :=
  ⟨[0xAB], by decide⟩

/-! ## The two callers -/

/-- The loop packs what `stringtohexPairs` packs: the assignments of earlier rounds are behind the
characters of a round. -/
theorem stringtohexLoop_pairs (t : Text) (i : Nat) :
    ∀ {t' : Text} {bytes : List Byte}, stringtohexLoop (t ++ [0]) i = some (t', bytes) →
      stringtohexPairs t i = some bytes ∧ ∀ j, 2 * i ≤ j → t'[j]? = (t ++ [0])[j]? := by
  induction i with
  | zero =>
      rintro t' bytes ⟨⟩
      exact ⟨rfl, fun _ _ => rfl⟩
  | succ i ih =>
      intro t' bytes h
      cases hbefore : stringtohexLoop (t ++ [0]) i with
      | none => simp [stringtohexLoop, hbefore] at h
      | some before =>
          rcases before with ⟨u, packed⟩
          rcases ih hbefore with ⟨hpacked, hsame⟩
          have hx := hsame (2 * i) le_rfl
          have hy := hsame (2 * i + 1) (Nat.le_succ _)
          simp only [stringtohexLoop, hbefore, Option.bind_eq_bind, Option.bind_some,
            Option.bind_eq_some_iff, Option.some.injEq, Prod.mk.injEq] at h
          rcases h with ⟨x, hgetx, y, hgety, rfl, rfl⟩
          rw [hx] at hgetx
          rw [hy] at hgety
          refine ⟨?_, ?_⟩
          · simp only [stringtohexPairs, hpacked, hgetx, hgety, Option.bind_eq_bind,
              Option.bind_some]
          · intro j hj
            rw [List.getElem?_set_ne (by omega), List.getElem?_set_ne (by omega)]
            exact hsame j (by omega)

/-- The phone number of a command, and any other byte string. -/
theorem stringtohexPairs_all (hex : List Byte) :
    stringtohexPairs (hextostring hex) hex.length = some (hex.map pairByte) :=
  (stringtohexLoop_pairs _ _ (stringtohexLoop_all hex)).1

/-- A character of the array, where the array is zero behind the text. -/
theorem getD_of_getElem?_append_zero {t : Text} {k : Nat} {x : Byte}
    (h : (t ++ [0])[k]? = some x) : t.getD k 0 = x := by
  rcases lt_or_ge k t.length with hlt | hge
  · rw [List.getElem?_append_left hlt] at h
    rw [List.getD_eq_getElem?_getD, h]
    rfl
  · rw [List.getElem?_append_right hge] at h
    have hzero : x = 0 := List.mem_singleton.mp (List.mem_of_getElem? h)
    rw [List.getD_eq_default _ _ hge, hzero]

theorem stringtohexPairs_eq_map {t : Text} (i : Nat) :
    ∀ {bytes : List Byte}, stringtohexPairs t i = some bytes →
      bytes = (List.range i).map fun k => stringtohex (t.getD (2 * k) 0) (t.getD (2 * k + 1) 0) := by
  induction i with
  | zero =>
      rintro bytes ⟨⟩
      rfl
  | succ i ih =>
      intro bytes h
      cases hbefore : stringtohexPairs t i with
      | none => simp [stringtohexPairs, hbefore] at h
      | some packed =>
          simp only [stringtohexPairs, hbefore, Option.bind_eq_bind, Option.bind_some,
            Option.bind_eq_some_iff, Option.some.injEq] at h
          rcases h with ⟨x, hgetx, y, hgety, rfl⟩
          rw [List.range_succ, List.map_append, ← ih hbefore, List.map_singleton,
            getD_of_getElem?_append_zero hgetx, getD_of_getElem?_append_zero hgety]

/-- The device id of a transfer. -/
theorem synerDevId_hextostring (devId : DeviceId) :
    (synerDevId (hextostring devId.toList)).toList = devId.toList.map pairByte := by
  have hpairs := stringtohexPairs_all devId.toList
  rw [stringtohexPairs_eq_map _ hpairs, Vector.length_toList, synerDevId, Vector.toList_ofFn]
  rfl

/-- A device id survives the trip through its text exactly when its hex digits are decimal. -/
theorem synerDevId_hextostring_iff (devId : DeviceId) :
    synerDevId (hextostring devId.toList) = devId ↔ ∀ d ∈ nibbles devId.toList, d < 10 := by
  rw [← Vector.toList_inj, synerDevId_hextostring]
  constructor
  · intro h d hd
    rcases List.mem_flatMap.mp hd with ⟨b, hb, hdb⟩
    have hself : pairByte b = b := by
      have hmap : devId.toList.map pairByte = devId.toList.map id := h.trans (List.map_id _).symm
      exact List.map_inj_left.mp hmap b hb
    have hnibbles := (pairByte_eq_self_iff b).mp hself
    rcases List.mem_pair.mp hdb with rfl | rfl
    · exact hnibbles.1
    · exact hnibbles.2
  · exact map_pairByte_of_digits

end RobotServer
