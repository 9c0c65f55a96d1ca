import RobotServer.Model.HexPairs
import RobotServer.Model.Protocol

/-!
# Commands — the three encodings of a phone command

A command travels as a binary packet, as a text in redis and as a binary reply.  `commandValue` is
the text `phoneCommandPacket` stores, `decodeCommand` what `deviceHeartPacket` makes of a text, and
`decode_commandValue` proves that the reply carries the command byte of the packet, its index and
its phone number.
-/

namespace RobotServer

open CText Memory Interaction

/-! ## Splitting -/

section Separation

variable {ch : Byte}

/-- Characters other than the separator are collected. -/
theorem separationLoop_collect {piece : Text} (rest : Text) :
    ∀ {chArray : Text}, ch ∉ piece → chArray.length + piece.length < 32 → ∀ pTable : List Text,
      separationLoop ch (piece ++ rest) chArray pTable =
        separationLoop ch rest (chArray ++ piece) pTable := by
  induction piece with
  | nil =>
      intro chArray _ _ pTable
      rw [List.nil_append, List.append_nil]
  | cons c piece ih =>
      intro chArray hch hlen pTable
      rw [List.length_cons] at hlen
      have hne : c ≠ ch := fun h => hch (by simp [h])
      have hroom : chArray.length < 32 := by omega
      have hlen' : (chArray ++ [c]).length + piece.length < 32 := by
        rw [List.length_append, List.length_singleton]
        omega
      rw [List.cons_append, separationLoop, if_neg hne, if_pos hroom,
        ih (fun h => hch (List.mem_cons_of_mem _ h)) hlen' pTable, List.append_assoc]
      rfl

/-- A piece in front of a separator. -/
theorem separationLoop_piece {piece : Text} (hch : ch ∉ piece) (hlen : piece.length < 32)
    (rest : Text) (pTable : List Text) :
    separationLoop ch (piece ++ ch :: rest) [] pTable =
      separationLoop ch rest [] (pTable ++ [piece]) := by
  have hlen' : ([] : Text).length + piece.length < 32 := by simpa using hlen
  rw [separationLoop_collect _ hch hlen', List.nil_append, separationLoop, if_pos rfl,
    if_pos (Nat.succ_le_of_lt hlen)]

/-- The last piece. -/
theorem separationLoop_last {piece : Text} (hch : ch ∉ piece) (hlen : piece.length < 32)
    (pTable : List Text) : separationLoop ch piece [] pTable = some (pTable ++ [piece]) := by
  have hlen' : ([] : Text).length + piece.length < 32 := by simpa using hlen
  calc separationLoop ch piece [] pTable
      = separationLoop ch (piece ++ []) [] pTable := by rw [List.append_nil]
    _ = separationLoop ch [] ([] ++ piece) pTable := separationLoop_collect [] hch hlen' pTable
    _ = some (pTable ++ [piece]) := by
        rw [List.nil_append, separationLoop, if_pos (Nat.succ_le_of_lt hlen)]

end Separation

/-! ## Characters of stored texts -/

/-- A character that is neither the separator nor the end of a text. -/
def Plain (c : Byte) : Prop :=
  c ≠ 0 ∧ c ≠ 0x5F

theorem plain_intText (n : Int) : ∀ c ∈ intText n, Plain c := by
  have hnat : ∀ c ∈ natText n.natAbs, Plain c := by
    intro c hc
    have hdigit := (isDigit_iff c).mp (isDigit_natText _ c hc)
    refine ⟨?_, ?_⟩
    · rintro rfl
      exact absurd hdigit.1 (by decide)
    · rintro rfl
      exact absurd hdigit.2 (by decide)
  intro c hc
  unfold intText at hc
  split at hc
  · rcases List.mem_cons.mp hc with rfl | hmem
    · exact ⟨by decide, by decide⟩
    · exact hnat c hmem
  · exact hnat c hc

theorem plain_hextostring (hex : List Byte) : ∀ c ∈ hextostring hex, Plain c := by
  intro c hc
  have hc := hextostring_chars hex c hc
  refine ⟨?_, ?_⟩
  · rintro rfl
    exact absurd hc.1 (by decide)
  · rintro rfl
    exact absurd hc.2 (by decide)

theorem cstr_eq_self_of_plain {t : Text} (h : ∀ c ∈ t, Plain c) : cstr t = t :=
  cstr_eq_self fun hmem => (h 0 hmem).1 rfl

theorem atoi_intText_schar (b : Byte) : atoi (intText (schar b)) = schar b := by
  have hbounds := schar_bounds b
  exact atoi_intText (by omega) (by omega)

/-! ## The stored text -/

/-- The text `phoneCommandPacket` stores for the command of a packet. -/
def commandValue (packet : PacketBuffer) : Text :=
  if checkPhoneCommand (packet.peek idxPhoneCommand) = 4 then contractValue packet
  else natText (packet.peek idxPhoneCommand).toNat

/-- Two decimal digits in one byte. -/
def IsPacked (b : Byte) : Prop :=
  b.toNat / 16 ≤ 9 ∧ b.toNat % 16 ≤ 9

instance (b : Byte) : Decidable (IsPacked b) :=
  inferInstanceAs (Decidable (_ ∧ _))

/-- A command that is stored for the device; the phone number it may carry is packed decimal. -/
structure IsCommand (packet : PacketBuffer) : Prop where
  stored : 0 ≤ checkPhoneCommand (packet.peek idxPhoneCommand) ∧
    checkPhoneCommand (packet.peek idxPhoneCommand) ≠ 3 ∧
    checkPhoneCommand (packet.peek idxPhoneCommand) ≠ 7
  number : checkPhoneCommand (packet.peek idxPhoneCommand) = 4 →
    packet.peek idxPhoneCommand ≠ cmdPhoneDeviceFreqSet →
      ∀ b ∈ packet.slice idxPhoneCmdNumber lenPhoneNumber, IsPacked b

/-- A single command is a positive number of three digits and not of class 4. -/
theorem single_command (b : Byte) : 0 ≤ checkPhoneCommand b → checkPhoneCommand b ≠ 3 →
    checkPhoneCommand b ≠ 7 → checkPhoneCommand b ≠ 4 →
      0 < b.toNat ∧ b.toNat ≤ 254 ∧ b.toNat &&& 0xF0 ≠ 0x40 := by
  revert b
  exact forall_byte (by decide +kernel)

/-- The commands of class 4 share their high nibble. -/
theorem contract_command (b : Byte) : checkPhoneCommand b = 4 →
    b &&& 0xF0 = 0x40 ∧ (schar b % 256).toNat &&& 0xF0 = 0x40 ∧ schar b = (b.toNat : Int) ∧
      10 ≤ b.toNat := by
  revert b
  exact forall_byte (by decide +kernel)

theorem contractValue_eq (packet : PacketBuffer) :
    contractValue packet =
      if packet.peek idxPhoneCommand ≠ cmdPhoneDeviceFreqSet then
        intText (schar (packet.peek idxPhoneCommand)) ++
          0x5F :: (intText (schar (packet.peek idxPhoneCmdIndex)) ++
            0x5F :: hextostring (packet.slice idxPhoneCmdNumber lenPhoneNumber))
      else
        intText (schar (packet.peek idxPhoneCommand)) ++
          0x5F :: intText (schar (packet.peek idxPhoneCmdIndex)) := by
  have hsep : ascii "_" = [0x5F] := by decide
  unfold contractValue
  simp only [hsep, List.append_assoc, List.singleton_append]
  rfl

/-- A stored text has no NUL. -/
theorem cstr_contractValue (packet : PacketBuffer) :
    cstr (contractValue packet) = contractValue packet := by
  have hint : ∀ n, (0 : Byte) ∉ intText n := fun n hmem => (plain_intText n 0 hmem).1 rfl
  have hhex : ∀ hex, (0 : Byte) ∉ hextostring hex := fun hex hmem =>
    (plain_hextostring hex 0 hmem).1 rfl
  refine cstr_eq_self ?_
  rw [contractValue_eq]
  split
  · simp [hint, hhex]
  · simp [hint]

theorem cstr_commandValue (packet : PacketBuffer) :
    cstr (commandValue packet) = commandValue packet := by
  unfold commandValue
  split
  · exact cstr_contractValue packet
  · refine cstr_eq_self ?_
    intro hmem
    exact absurd (isDigit_natText _ 0 hmem) (by decide)

theorem commandValue_length_le (packet : PacketBuffer) : (commandValue packet).length ≤ 26 := by
  have hcommand := intText_schar_length_le (packet.peek idxPhoneCommand)
  have hindex := intText_schar_length_le (packet.peek idxPhoneCmdIndex)
  unfold commandValue
  split
  · rw [contractValue_eq]
    split
    · simp only [List.length_append, List.length_cons, hextostring_length, Cells.slice_length,
        lenPhoneNumber]
      omega
    · simp only [List.length_append, List.length_cons]
      omega
  · have hlt := (packet.peek idxPhoneCommand).toNat_lt
    have hlen : (natText (packet.peek idxPhoneCommand).toNat).length ≤ 3 :=
      natText_length_le (by decide) (by omega)
    omega

/-! ## What a heartbeat makes of it -/

/-- The result of `deviceHeartPacket` for the stored text `value`. -/
def decodeCommand (value : Text) (info : HeartInfo) : Option (Int × HeartInfo) :=
  if value.length < 4 then
    some (if atoi value < 0 ∨ atoi value > 254 then -4 else atoi value, info)
  else (storedCommand value info).map fun r => (((r.1 % 256).toNat &&& 0xF0 : Nat), r.2)

/-- The return buffer with a command of class 4 filled in. -/
def commandInfo (packet : PacketBuffer) (info : HeartInfo) : HeartInfo :=
  let info := (info.place idxDeviceReturnCommand [packet.peek idxPhoneCommand]).place
    idxDeviceReturnIndex [packet.peek idxPhoneCmdIndex]
  if packet.peek idxPhoneCommand ≠ cmdPhoneDeviceFreqSet then
    info.place idxDeviceReturnPhnum (packet.slice idxPhoneCmdNumber lenPhoneNumber)
  else info

theorem pairByte_of_packed {b : Byte} (h : IsPacked b) : pairByte b = b :=
  (pairByte_eq_self_iff b).mpr ⟨Nat.lt_succ_of_le h.1, Nat.lt_succ_of_le h.2⟩

/-- Packing the unpacked digits of a number gives the number back. -/
theorem stringtohexPairs_hextostring {hex : List Byte} (hhex : ∀ b ∈ hex, IsPacked b) :
    stringtohexPairs (hextostring hex) hex.length = some hex := by
  have hself : hex.map pairByte = hex :=
    (List.map_congr_left fun b hb => pairByte_of_packed (hhex b hb)).trans (List.map_id hex)
  rw [stringtohexPairs_all, hself]

/-- The pieces of a stored command of class 4. -/
theorem separation_contractValue (packet : PacketBuffer) :
    separation 0x5F (contractValue packet) =
      some (if packet.peek idxPhoneCommand ≠ cmdPhoneDeviceFreqSet then
        [intText (schar (packet.peek idxPhoneCommand)),
          intText (schar (packet.peek idxPhoneCmdIndex)),
          hextostring (packet.slice idxPhoneCmdNumber lenPhoneNumber)]
      else [intText (schar (packet.peek idxPhoneCommand)),
        intText (schar (packet.peek idxPhoneCmdIndex))]) := by
  have hint : ∀ n, (0x5F : Byte) ∉ intText n := fun n hmem => (plain_intText n _ hmem).2 rfl
  have hhex : ∀ hex, (0x5F : Byte) ∉ hextostring hex := fun hex hmem =>
    (plain_hextostring hex _ hmem).2 rfl
  have hshort : ∀ b, (intText (schar b)).length < 32 := fun b =>
    (intText_schar_length_le b).trans_lt (by decide)
  have hnumber : (hextostring (packet.slice idxPhoneCmdNumber lenPhoneNumber)).length < 32 := by
    rw [hextostring_length, Cells.slice_length]
    decide
  rw [separation, cstr_contractValue, contractValue_eq]
  split
  · rw [separationLoop_piece (hint _) (hshort _), separationLoop_piece (hint _) (hshort _),
      separationLoop_last (hhex _) hnumber]
    rfl
  · rw [separationLoop_piece (hint _) (hshort _), separationLoop_last (hint _) (hshort _)]
    rfl

theorem storedCommand_contractValue {packet : PacketBuffer} (hcommand : IsCommand packet)
    (hclass : checkPhoneCommand (packet.peek idxPhoneCommand) = 4) (info : HeartInfo) :
    storedCommand (contractValue packet) info =
      some (schar (packet.peek idxPhoneCommand), commandInfo packet info) := by
  rcases contract_command _ hclass with ⟨hnibble, -, -, -⟩
  unfold storedCommand
  rw [separation_contractValue]
  by_cases hfreq : packet.peek idxPhoneCommand ≠ cmdPhoneDeviceFreqSet
  · have hphone := stringtohexPairs_hextostring (hcommand.number hclass hfreq)
    rw [Cells.slice_length] at hphone
    rw [if_pos hfreq]
    simp [atoi_intText_schar, hnibble, hphone, commandInfo, hfreq]
  · rw [if_neg hfreq]
    simp [atoi_intText_schar, hnibble, commandInfo, hfreq]

/-- The reply hands the command of the packet on. -/
structure Carries (reply : List Byte) (packet : PacketBuffer) : Prop where
  header : reply.getD 0 0 = hdrCommandPacket
  command : reply.getD idxDeviceReturnCommand 0 = packet.peek idxPhoneCommand
  index : checkPhoneCommand (packet.peek idxPhoneCommand) = 4 →
    reply.getD idxDeviceReturnIndex 0 = packet.peek idxPhoneCmdIndex
  number : checkPhoneCommand (packet.peek idxPhoneCommand) = 4 →
    packet.peek idxPhoneCommand ≠ cmdPhoneDeviceFreqSet →
      (reply.drop idxDeviceReturnPhnum).take lenPhoneNumber =
        packet.slice idxPhoneCmdNumber lenPhoneNumber

/-- A single command comes back as its number. -/
theorem decode_single {packet : PacketBuffer} (hcommand : IsCommand packet)
    (hclass : checkPhoneCommand (packet.peek idxPhoneCommand) ≠ 4) (info : HeartInfo) :
    decodeCommand (commandValue packet) info =
      some (((packet.peek idxPhoneCommand).toNat : Int), info) := by
  rcases hcommand.stored with ⟨hnonneg, hthree, hseven⟩
  rcases single_command _ hnonneg hthree hseven hclass with ⟨-, hle, -⟩
  have hlen : (natText (packet.peek idxPhoneCommand).toNat).length ≤ 3 :=
    natText_length_le (by decide) (by omega)
  have hatoi : atoi (natText (packet.peek idxPhoneCommand).toNat) =
      (packet.peek idxPhoneCommand).toNat := atoi_natText (by omega)
  have hvalid : ¬ (((packet.peek idxPhoneCommand).toNat : Int) < 0 ∨
      ((packet.peek idxPhoneCommand).toNat : Int) > 254) := by omega
  rw [commandValue, if_neg hclass, decodeCommand, if_pos (Nat.lt_succ_of_le hlen), hatoi,
    if_neg hvalid]

/-- A command of class 4 comes back in the return buffer. -/
theorem decode_contract {packet : PacketBuffer} (hcommand : IsCommand packet)
    (hclass : checkPhoneCommand (packet.peek idxPhoneCommand) = 4) (info : HeartInfo) :
    decodeCommand (commandValue packet) info = some (64, commandInfo packet info) := by
  rcases contract_command _ hclass with ⟨-, hresult, hschar, hten⟩
  -- The command takes two characters, so that even the shortest text is no single command.
  have hlong : ¬ (contractValue packet).length < 4 := by
    have htwo : 2 ≤ (intText (schar (packet.peek idxPhoneCommand))).length := by
      have hpos : ¬ ((packet.peek idxPhoneCommand).toNat : Int) < 0 := by omega
      rw [hschar, intText, if_neg hpos, Int.natAbs_natCast]
      exact natText_length_ge_two hten
    have hone := List.length_pos_of_ne_nil (intText_ne_nil (schar (packet.peek idxPhoneCmdIndex)))
    rw [contractValue_eq]
    split
    · simp only [List.length_append, List.length_cons]
      omega
    · simp only [List.length_append, List.length_cons]
      omega
  rw [commandValue, if_pos hclass, decodeCommand, if_neg hlong,
    storedCommand_contractValue hcommand hclass, Option.map_some, hresult]
  rfl

theorem heartReply_single {b : Byte} (hpos : 0 < b.toNat) (hnibble : b.toNat &&& 0xF0 ≠ 0x40)
    (info : HeartInfo) :
    heartReply b.toNat info =
      apolloReturnPacket (((ascii "RETOK%").set 0 0x43).set idxDeviceReturnCommand b) := by
  have hpos' : 0 < (b.toNat : Int) := by omega
  rw [heartReply, if_pos hpos', Int.toNat_natCast, if_neg hnibble, toByte_natCast_toNat]

/-- The return buffer, with its header, hands the command on. -/
theorem carries_commandInfo (packet : PacketBuffer) :
    Carries (((commandInfo packet (Cells.fill 0)).place 0 [0x43]).slice 0
      lenDeviceHeartpacketReturnBuffer) packet := by
  have hget : ∀ (info : HeartInfo) (i : Nat), i < 20 →
      (info.slice 0 lenDeviceHeartpacketReturnBuffer).getD i 0 = info.peek i := by
    intro info i hi
    calc (info.slice 0 lenDeviceHeartpacketReturnBuffer).getD i 0
        = info.peek (0 + i) := Cells.getD_slice hi
      _ = info.peek i := by rw [Nat.zero_add]
  -- The phone number stands behind the command and the index.
  have hfield : ∀ i, i < 5 → (commandInfo packet (Cells.fill 0)).peek i =
      (((Cells.fill 0 : HeartInfo).place idxDeviceReturnCommand
        [packet.peek idxPhoneCommand]).place idxDeviceReturnIndex
          [packet.peek idxPhoneCmdIndex]).peek i := by
    intro i hi
    unfold commandInfo
    dsimp only
    split
    · exact Cells.peek_place_of_lt (show i < 20 by omega) hi
    · rfl
  refine ⟨?_, ?_, ?_, ?_⟩
  · rw [hget _ 0 (by decide)]
    exact Cells.peek_place_add _ 0 _ (show 0 + 0 < 20 by decide) Nat.one_pos
  · rw [hget _ 3 (by decide), Cells.peek_place_of_le (by decide) (by decide),
      hfield 3 (by decide), Cells.peek_place_of_lt (by decide) (by decide)]
    exact Cells.peek_place_add _ 3 _ (show 3 + 0 < 20 by decide) Nat.one_pos
  · intro _
    rw [hget _ 4 (by decide), Cells.peek_place (by decide), if_neg (by decide),
      hfield 4 (by decide), Cells.peek_place (by decide)]
    rfl
  · intro _ hfreq
    have hlen : (packet.slice idxPhoneCmdNumber lenPhoneNumber).length = 8 :=
      Cells.slice_length _ _ _
    rw [Cells.slice_drop_take _ _ (by decide), Nat.zero_add, commandInfo, if_pos hfreq]
    have hslice := Cells.slice_eq_of_peek
      (((((Cells.fill 0 : HeartInfo).place idxDeviceReturnCommand
        [packet.peek idxPhoneCommand]).place idxDeviceReturnIndex
          [packet.peek idxPhoneCmdIndex]).place idxDeviceReturnPhnum
            (packet.slice idxPhoneCmdNumber lenPhoneNumber)).place 0 [0x43]) 5
              (packet.slice idxPhoneCmdNumber lenPhoneNumber)
    rw [hlen] at hslice
    apply hslice
    intro i hi
    have hbound : 5 + i < 20 := by omega
    rw [Cells.peek_place_of_le hbound (by simp only [List.length_singleton]; omega)]
    exact Cells.peek_place_add _ _ _ hbound (hi.trans_eq hlen.symm)

/-- The reply to a heartbeat carries the command that was stored. -/
theorem heartReply_commandValue {packet : PacketBuffer} (hcommand : IsCommand packet) :
    ∃ result info reply, decodeCommand (commandValue packet) (Cells.fill 0) = some (result, info) ∧
      heartReply result info = apolloReturnPacket reply ∧ Carries reply packet := by
  by_cases hclass : checkPhoneCommand (packet.peek idxPhoneCommand) = 4
  · refine ⟨_, _, _, decode_contract hcommand hclass _, rfl, ?_⟩
    exact carries_commandInfo packet
  · rcases hcommand.stored with ⟨hnonneg, hthree, hseven⟩
    rcases single_command _ hnonneg hthree hseven hclass with ⟨hpos, -, hnibble⟩
    refine ⟨_, _, _, decode_single hcommand hclass _, heartReply_single hpos hnibble _, ?_⟩
    exact ⟨rfl, rfl, fun h => absurd h hclass, fun h => absurd h hclass⟩

end RobotServer
