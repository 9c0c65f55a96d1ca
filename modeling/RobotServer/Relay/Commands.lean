import RobotServer.Mailbox.Commands

/-!
# Commands — a command on its way to a device

A `DeviceCommand` is what waits for a device: a command of a phone, or the one that announces AGPS
data.  `text` is how it waits in redis and `reply` how the device is told; a heartbeat makes the
reply of the text (`heartReply_text`), whatever the bytes of the phone number.
-/

namespace RobotServer

open CText Memory Interaction

/-- The commands that a phone can leave for a device. -/
def IsPhoneCommand (code : Byte) : Prop :=
  0 ≤ checkPhoneCommand code ∧ checkPhoneCommand code ≠ 3 ∧ checkPhoneCommand code ≠ 7

instance (code : Byte) : Decidable (IsPhoneCommand code) :=
  inferInstanceAs (Decidable (_ ∧ _))

structure DeviceCommand where
  code : Byte
  index : Byte
  number : Vector Byte lenPhoneNumber
  isStored : IsPhoneCommand code ∨ code = cmdPhoneDeviceAgpsDownload
  deriving DecidableEq

namespace DeviceCommand

/-- A command that carries an index, and all but one of them a phone number. -/
def IsContract (c : DeviceCommand) : Prop :=
  checkPhoneCommand c.code = 4

instance (c : DeviceCommand) : Decidable c.IsContract :=
  inferInstanceAs (Decidable (_ = _))

/-- The text that waits in redis. -/
def text (c : DeviceCommand) : Text :=
  if c.IsContract then
    if c.code ≠ cmdPhoneDeviceFreqSet then
      intText (schar c.code) ++ ascii "_" ++ intText (schar c.index) ++ ascii "_" ++
        hextostring c.number.toList
    else intText (schar c.code) ++ ascii "_" ++ intText (schar c.index)
  else natText c.code.toNat

/-- The number as a device is told it: only decimal digits come through. -/
def replyNumber (c : DeviceCommand) : List Byte :=
  if c.code ≠ cmdPhoneDeviceFreqSet then c.number.toList.map pairByte else List.replicate 8 0

def reply (c : DeviceCommand) : List Byte :=
  if c.IsContract then
    [hdrCommandPacket, 0, 0, c.code, c.index] ++ c.replyNumber ++ List.replicate 7 0
  else ((ascii "RETOK%").set 0 hdrCommandPacket).set idxDeviceReturnCommand c.code

/-! ## Packets -/

/-- The command in a packet of a phone. -/
def ofPacket (packet : PacketBuffer) : Option DeviceCommand :=
  if h : IsPhoneCommand (packet.peek idxPhoneCommand) then
    some ⟨packet.peek idxPhoneCommand, packet.peek idxPhoneCmdIndex,
      Vector.ofFn fun i => packet.peek (idxPhoneCmdNumber + i), .inl h⟩
  else none

/-- The fields of a packet are those of a command. -/
structure StandsIn (c : DeviceCommand) (packet : PacketBuffer) : Prop where
  code : packet.peek idxPhoneCommand = c.code
  index : packet.peek idxPhoneCmdIndex = c.index
  number : packet.slice idxPhoneCmdNumber lenPhoneNumber = c.number.toList

theorem standsIn_of_ofPacket {packet : PacketBuffer} {c : DeviceCommand}
    (h : ofPacket packet = some c) : c.StandsIn packet := by
  unfold ofPacket at h
  split at h
  · cases h
    refine ⟨rfl, rfl, ?_⟩
    rw [Vector.toList_ofFn, List.ofFn_eq_map, Cells.slice, ← List.map_coe_finRange_eq_range,
      List.map_map]
    rfl
  · cases h

theorem isPhoneCommand_of_ofPacket {packet : PacketBuffer} {c : DeviceCommand}
    (h : ofPacket packet = some c) : IsPhoneCommand c.code := by
  have hcode := (standsIn_of_ofPacket h).code
  unfold ofPacket at h
  split at h
  · next hphone => exact hcode ▸ hphone
  · cases h

/-- What `phoneCommandPacket` stores is the text of the command. -/
theorem StandsIn.commandValue {c : DeviceCommand} {packet : PacketBuffer} (h : c.StandsIn packet) :
    commandValue packet = c.text := by
  unfold RobotServer.commandValue contractValue text IsContract
  rw [h.code, h.index, h.number]
  rfl

/-- A packet for a command. -/
def packet (c : DeviceCommand) : PacketBuffer :=
  (Cells.fill 0).place idxPhoneCommand (c.code :: c.index :: c.number.toList)

theorem standsIn_packet (c : DeviceCommand) : c.StandsIn c.packet := by
  have hnumber : c.number.toList.length = 8 := Vector.length_toList
  have hplaced := Cells.slice_place_self (Cells.fill 0 : PacketBuffer) idxPhoneCommand
    (c.code :: c.index :: c.number.toList) (by simp)
  change c.packet.slice 5 _ = _ at hplaced
  rw [List.length_cons, List.length_cons, hnumber, Cells.slice_add _ 5 2 8] at hplaced
  -- The first two cells, and the ones behind them.
  obtain ⟨htwo, hrest⟩ := List.append_inj (show c.packet.slice 5 2 ++ c.packet.slice 7 8 =
    [c.code, c.index] ++ c.number.toList from hplaced) rfl
  injection htwo with hcode htwo
  injection htwo with hindex
  exact ⟨hcode, hindex, hrest⟩

/-! ## Texts -/

theorem cstr_text (c : DeviceCommand) : cstr c.text = c.text := by
  rw [← c.standsIn_packet.commandValue]
  exact cstr_commandValue c.packet

theorem length_text_le (c : DeviceCommand) : c.text.length ≤ 26 := by
  rw [← c.standsIn_packet.commandValue]
  exact commandValue_length_le c.packet

theorem read_text (c : DeviceCommand) : (cstr c.text).take (redisCommandLength - 2) = c.text := by
  rw [c.cstr_text]
  exact List.take_of_length_le (c.length_text_le.trans (by decide))

/-! ## Replies -/

/-- A command without an index is told by its byte. -/
theorem single_code (b : Byte) : IsPhoneCommand b ∨ b = cmdPhoneDeviceAgpsDownload →
    checkPhoneCommand b ≠ 4 → 0 < b.toNat ∧ b.toNat ≤ 254 ∧ b.toNat &&& 0xF0 ≠ 0x40 := by
  revert b
  exact forall_byte (by decide +kernel)

/-- What a heartbeat makes of a number of one byte. -/
theorem decodeCommand_natText {b : Byte} (hle : b.toNat ≤ 254) (info : HeartInfo) :
    decodeCommand (natText b.toNat) info = some ((b.toNat : Int), info) := by
  have hlen : (natText b.toNat).length ≤ 3 := natText_length_le (by decide) (by omega)
  have hatoi : atoi (natText b.toNat) = b.toNat := atoi_natText (by omega)
  have hvalid : ¬ ((b.toNat : Int) < 0 ∨ (b.toNat : Int) > 254) := by omega
  rw [decodeCommand, if_pos (Nat.lt_succ_of_le hlen), hatoi, if_neg hvalid]

/-- The return buffer with the fields of a packet, its number digit by digit. -/
def contractInfo (packet : PacketBuffer) (info : HeartInfo) : HeartInfo :=
  let info := (info.place idxDeviceReturnCommand [packet.peek idxPhoneCommand]).place
    idxDeviceReturnIndex [packet.peek idxPhoneCmdIndex]
  if packet.peek idxPhoneCommand ≠ cmdPhoneDeviceFreqSet then
    info.place idxDeviceReturnPhnum
      ((packet.slice idxPhoneCmdNumber lenPhoneNumber).map pairByte)
  else info

theorem storedCommand_contract {packet : PacketBuffer}
    (hclass : checkPhoneCommand (packet.peek idxPhoneCommand) = 4) (info : HeartInfo) :
    storedCommand (contractValue packet) info =
      some (schar (packet.peek idxPhoneCommand), contractInfo packet info) := by
  obtain ⟨hnibble, -, -, -⟩ := contract_command _ hclass
  unfold storedCommand
  rw [separation_contractValue]
  by_cases hfreq : packet.peek idxPhoneCommand ≠ cmdPhoneDeviceFreqSet
  · have hphone := stringtohexPairs_all (packet.slice idxPhoneCmdNumber lenPhoneNumber)
    rw [Cells.slice_length] at hphone
    rw [if_pos hfreq]
    simp [atoi_intText_schar, hnibble, hphone, contractInfo, hfreq]
  · rw [if_neg hfreq]
    simp [atoi_intText_schar, hnibble, contractInfo, hfreq]

theorem decodeCommand_contract {packet : PacketBuffer}
    (hclass : checkPhoneCommand (packet.peek idxPhoneCommand) = 4) (info : HeartInfo) :
    decodeCommand (contractValue packet) info = some (64, contractInfo packet info) := by
  obtain ⟨-, hresult, hschar, hten⟩ := contract_command _ hclass
  -- The command takes two characters, its index one, and a separator stands between them.
  have hlong : ¬ (contractValue packet).length < 4 := by
    have htwo : 2 ≤ (intText (schar (packet.peek idxPhoneCommand))).length := by
      have hpos : ¬ ((packet.peek idxPhoneCommand).toNat : Int) < 0 := by omega
      rw [hschar, intText, if_neg hpos, Int.natAbs_natCast]
      exact natText_length_ge_two hten
    have hone := List.length_pos_of_ne_nil (intText_ne_nil (schar (packet.peek idxPhoneCmdIndex)))
    rw [contractValue_eq]
    split
    · simp only [List.length_append, List.length_cons]
      omega
    · simp only [List.length_append, List.length_cons]
      omega
  rw [decodeCommand, if_neg hlong, storedCommand_contract hclass, Option.map_some, hresult]
  rfl

/-- The return buffer of a command, as it is sent. -/
theorem slice_contractInfo {c : DeviceCommand} (hclass : c.IsContract) {packet : PacketBuffer}
    (h : c.StandsIn packet) :
    ((contractInfo packet (Cells.fill 0)).place 0 [hdrCommandPacket]).slice 0
      lenDeviceHeartpacketReturnBuffer = c.reply := by
  have hnumber : c.number.toList.length = 8 := Vector.length_toList
  rw [reply, if_pos hclass, contractInfo, h.code, h.index, h.number, replyNumber]
  match c.number.toList, hnumber with
  | [b1, b2, b3, b4, b5, b6, b7, b8], _ =>
      split
      · rfl
      · rfl

/-- A heartbeat that finds the text of a command is answered with the reply of the command. -/
theorem heartReply_text (c : DeviceCommand) :
    ∃ result info, decodeCommand c.text (Cells.fill 0) = some (result, info) ∧
      heartReply result info = apolloReturnPacket c.reply := by
  have hstands := c.standsIn_packet
  by_cases hclass : c.IsContract
  · have hpacket : checkPhoneCommand (c.packet.peek idxPhoneCommand) = 4 := by
      rw [hstands.code]
      exact hclass
    have htext : c.text = contractValue c.packet := by
      rw [← hstands.commandValue, RobotServer.commandValue, if_pos hpacket]
    refine ⟨64, contractInfo c.packet (Cells.fill 0), ?_, ?_⟩
    · rw [htext]
      exact decodeCommand_contract hpacket _
    · rw [← slice_contractInfo hclass hstands]
      rfl
  · obtain ⟨hpos, hle, hnibble⟩ := single_code c.code c.isStored hclass
    refine ⟨c.code.toNat, Cells.fill 0, ?_, ?_⟩
    · rw [text, if_neg hclass]
      exact decodeCommand_natText hle _
    · rw [reply, if_neg hclass]
      exact heartReply_single hpos hnibble _

end DeviceCommand

end RobotServer
