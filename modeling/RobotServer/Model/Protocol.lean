import RobotServer.Model.Hex
import RobotServer.Model.Services

/-!
# Protocol — `ApolloProtocol.c`

The packet handlers, the reassembly of uploaded blocks and the read loop `apolloParsePacket`.

- a handler is an `Action` over the packet buffer of the connection and the length of the read;
- `blockDataRecv` is the `HDR_BLOCK_DATA_RECV` branch, `dispatch` the `switch` of the read loop;
- `apolloParsePacket` drains an `Evbuffer` through one call of the read callback, `connection`
  is a sequence of such calls.
-/

namespace RobotServer

open CText Memory Interaction

abbrev PacketBuffer := Cells lenBlockPacket Byte

/-- `setValueBuf`, the `info` argument of `deviceHeartPacket`. -/
abbrev HeartInfo := Cells lenDeviceHeartpacketReturnBuffer Byte

/-- `BlockBuffer`, the state a connection keeps between reads. -/
structure BlockBuffer where
  buffer : BlockData
  packet : PacketBuffer
  index : Nat

/-- A connection as `on_accept` sets it up. -/
def BlockBuffer.zero : BlockBuffer :=
  ⟨Cells.fill 0, Cells.fill 0, 0⟩

/-! ## Fields of a packet -/

/-- The little-endian value of a byte string. -/
def leValue : List Byte → Nat
  | [] => 0
  | b :: rest => b.toNat + 256 * leValue rest

/-- `*(int*)(packet+off)` -/
def intAt (packet : PacketBuffer) (off : Nat) : Int :=
  (leValue (packet.slice off 4) : Int).bmod (2 ^ 32)

/-- `*(long*)(packet+off)` -/
def longAt (packet : PacketBuffer) (off : Nat) : Int :=
  (leValue (packet.slice off 8) : Int).bmod (2 ^ 64)

/-- `packet+IDX_DEVICE_ID` as eight bytes. -/
def deviceIdAt (packet : PacketBuffer) : DeviceId :=
  Vector.ofFn fun i => packet.peek (idxDeviceId + i)

/-- The text of the device id of a packet. -/
def deviceIdText (packet : PacketBuffer) : Text :=
  hextostring (packet.slice idxDeviceId lenDeviceId)

theorem deviceIdText_length (packet : PacketBuffer) : (deviceIdText packet).length = 16 := by
  rw [deviceIdText, hextostring_length, Cells.slice_length]
  rfl

/-- The text of the phone id of a packet. -/
def phoneIdText (packet : PacketBuffer) : Text :=
  hextostring (packet.slice idxPhoneId lenPhoneId)

def checkPhoneCommand (cmd : Byte) : Int :=
  if cmd = cmdPhoneBuzzerDeviceOpen ∨ cmd = cmdPhoneBuzzerDeviceClose
      ∨ cmd = cmdPhoneLight1DeviceOpen ∨ cmd = cmdPhoneLight1DeviceClose
      ∨ cmd = cmdPhoneLight2DeviceOpen ∨ cmd = cmdPhoneLight2DeviceClose then 8
  else if cmd = cmdPhoneRegisterUser ∨ cmd = cmdPhoneSigninUser
      ∨ cmd = cmdPhoneUpdatePwd then 7
  else if cmd = cmdPhoneDeviceAlarmmusicOpen ∨ cmd = cmdPhoneDeviceAlarmmusicClose
      ∨ cmd = cmdPhoneDeviceSafezonemusicOpen ∨ cmd = cmdPhoneDeviceSafezonemusicClose then 6
  else if cmd = cmdPhoneDeviceSosMsgremainerOpen ∨ cmd = cmdPhoneDeviceSosMsgremainerClose
      ∨ cmd = cmdPhoneDevicePowerMsgremainderOpen
      ∨ cmd = cmdPhoneDevicePowerMsgremainderClose then 5
  else if cmd = cmdPhoneDeviceFamilynumberSet ∨ cmd = cmdPhoneDeviceContractSet
      ∨ cmd = cmdPhoneDevicePhonebookSet ∨ cmd = cmdPhoneDeviceFreqSet then 4
  else if cmd = cmdPhoneBindDevice ∨ cmd = cmdPhoneUnbindDevice then 3
  else if cmd = cmdPhoneDeviceSosClear then 2
  else if cmd = cmdPhoneDeviceReset then 1
  else if cmd = cmdPhoneDeviceDownload ∨ cmd = cmdPhoneDeviceRealtimeLocation
      ∨ cmd = cmdPhoneDeviceCountstepOpen ∨ cmd = cmdPhoneDeviceCountstepClose
      ∨ cmd = cmdPhoneDeviceSleepquiltyOpen ∨ cmd = cmdPhoneDeviceSleepquiltyClose
      ∨ cmd = cmdPhoneDeviceAlarm ∨ cmd = cmdPhoneDeviceSafezoneAlarm
      ∨ cmd = cmdPhoneDeviceLongsatAlarm ∨ cmd = cmdPhoneDeviceLowpowerAlarm then 0
  else -1

/-! ## Heartbeats of a device -/

/-- The decoding of a stored command of four or more characters: the command, and `info` with the
command, its index and its phone number filled in.  `none` is a read behind the table of pieces
or behind a piece. -/
def storedCommand (value : Text) (info : HeartInfo) : Option (Int × HeartInfo) := do
  let param ← separation 0x5F value
  let cmd := atoi (← param[0]?)
  let info := info.place idxDeviceReturnCommand [toByte cmd]
  if toByte cmd &&& 0xF0 = 0x40 then
    let index := atoi (← param[1]?)
    let info := info.place idxDeviceReturnIndex [toByte index]
    if param.length = 3 then
      let u8PhoneNumber ← stringtohexPairs (← param[2]?) lenPhoneNumber
      some (cmd, info.place idxDeviceReturnPhnum u8PhoneNumber)
    else some (cmd, info)
  else some (cmd, info)

/-- The part of `deviceHeartPacket` that takes the command of the device out of redis. -/
def takeDeviceCommand (u8DeviceId : Text) (info : HeartInfo) : Action (Int × HeartInfo) := do
  let u8RedisDeviceInfo ← getValueFromredis u8DeviceId
  match u8RedisDeviceInfo with
  | none => pure (0, info)
  | some value =>
      if value.length < 4 then do
        let cmd := atoi value
        delRedisKey u8DeviceId
        pure (if cmd < 0 ∨ cmd > 254 then -4 else cmd, info)
      else do
        let (cmd, info) ← Program.ofOption (storedCommand value info)
        delRedisKey u8DeviceId
        pure (((cmd % 256).toNat &&& 0xF0 : Nat), info)

/-- The status text a heartbeat publishes. -/
def deviceInfoText (packet : PacketBuffer) : Text :=
  ascii "I_" ++ hextostring (packet.slice idxDevicePower lenDeviceInfo) ++ ascii "_" ++
    intText (intAt packet idxDeviceHeartpacketTimestamp)

def deviceHeartPacket (packet : PacketBuffer) (length : Nat) (info : HeartInfo) :
    Action (Int × HeartInfo) := do
  if length ≠ lenHeartPacketDevice then pure (-3, info)
  else
    let u8RedisUserValue ← getValueFromredis (ascii "R_" ++ deviceIdText packet)
    match u8RedisUserValue with
    | none => pure (-1, info)
    | some u8RedisUserValue => do
        Program.onlyIf (packet.peek 10 &&& 0x0F != 0)
          (perform (.createThread (.httpDeviceFalldown (packet.slice 0 length))))
        let result ← setKeyToredis u8RedisUserValue (deviceInfoText packet)
        if result = -1 then pure (-2, info)
        else takeDeviceCommand (deviceIdText packet) info

/-! ## Messages of a phone -/

/-- The return value and the text copied into `info`. -/
def phoneHeaderPacket (packet : PacketBuffer) (length : Nat) : Action (Int × Text) := do
  if length ≠ lenHeartPacketPhone then pure (-3, [])
  else
    let info ← getValueFromredis (intText (atoi (phoneIdText packet)))
    pure ((info.getD []).length, info.getD [])

/-- The text stored for a command of class 4. -/
def contractValue (packet : PacketBuffer) : Text :=
  let command := packet.peek idxPhoneCommand
  let index := packet.peek idxPhoneCmdIndex
  if command ≠ cmdPhoneDeviceFreqSet then
    intText (schar command) ++ ascii "_" ++ intText (schar index) ++ ascii "_" ++
      hextostring (packet.slice idxPhoneCmdNumber lenPhoneNumber)
  else intText (schar command) ++ ascii "_" ++ intText (schar index)

def phoneCommandPacket (packet : PacketBuffer) (length : Nat) : Action Int := do
  if length ≠ lenCommandPacket then pure (-3)
  else
    let userId := atoi (phoneIdText packet)
    let command := packet.peek idxPhoneCommand
    let u8DeviceId ← getValueFromredis (ascii "RP_" ++ intText userId)
    match u8DeviceId with
    | none => pure (-1)
    | some u8DeviceId =>
        if checkPhoneCommand command = 4 then do
          let result ← setKeyToredis u8DeviceId (contractValue packet)
          pure (if result = -1 then -2 else 0)
        else if checkPhoneCommand command = 7 then pure 0
        else if checkPhoneCommand command = 3 then pure 0
        else if 0 ≤ checkPhoneCommand command then do
          Program.onlyIf (command == cmdPhoneDeviceRealtimeLocation)
            (selectLocationNewItem u8DeviceId userId)
          let result ← setKeyToredis u8DeviceId (natText command.toNat)
          pure (if result = -1 then -2 else 0)
        else pure 0

/-! ## Locations -/

/-- A coordinate: its letter, ten hex digits, and a dot in the place of the fourth. -/
def coordinateText (letter : Byte) (coordinate : List Byte) : Text :=
  (letter :: hextostring coordinate).set 4 0x2E

def deviceLocationPacket (packet : PacketBuffer) (length : Nat) : Action Int := do
  if length ≠ lenGpsLocationData ∧ length ≠ lenLabLocationData then pure (-3)
  else
    let u8DeviceId := deviceIdText packet
    let u8RedisUserValue ← getValueFromredis (ascii "R_" ++ u8DeviceId)
    match u8RedisUserValue with
    | none => pure (-1)
    | some u8RedisUserValue =>
        if length = lenGpsLocationData then do
          let u8Longitude := coordinateText 0x45 (packet.slice idxDeviceGpsLongitude lenLongitudeData)
          let u8Latitude := coordinateText 0x4E (packet.slice idxDeviceGpsLatitude lenLatitudeData)
          let u8High := intText (intAt packet idxDeviceGpsHigh)
          Program.onlyIf (packet.peek idxDeviceLocationtype &&& 0xF0 != 0)
            (perform (.createThread (.ubloxDownloadApgs ⟨u8DeviceId, u8Longitude, u8Latitude⟩)))
          let _ ← insertDeviceGps u8Longitude u8Latitude u8High u8DeviceId
          let result ← setKeyToredis u8RedisUserValue (ascii "G_" ++ u8Longitude ++ ascii "_" ++
            u8Latitude ++ ascii "_" ++ u8High ++ ascii "_0_" ++
            intText (longAt packet idxDeviceGpsTimestamp))
          pure (if result = -1 then -2 else 0)
        else do
          perform (.createThread (.httpPost (packet.slice 0 length)))
          pure 0

/-! ## Replies -/

def apolloReturnPacket (buffer : List Byte) : Action Unit := do
  let failed : Bool ← perform (.writeBuffer buffer)
  Program.onlyIf failed (perform .closeClient)

/-- `retBuf` with the user id of an accepted request. -/
def retOkPacket (userId : UInt32) : List Byte :=
  ascii "RETOK:" ++ [userId.toUInt8, (userId >>> 8).toUInt8, (userId >>> 16).toUInt8,
    (userId >>> 24).toUInt8, 0, 0]

/-- `retBuf` with the return code of a refused request. -/
def retNoPacket (code : Byte) : List Byte :=
  ascii "RETNO:" ++ [code, 0, 0, 0, 0, 0]

/-! ## User accounts -/

/-- The length of the read is not looked at.  The return value is always 0 and has no reader. -/
def phoneOperatorUserInfo (packet : PacketBuffer) : Action Unit := do
  let u8UserName := cstr (packet.slice idxPhoneUsername lenPhoneUsername)
  let u8Password := cstr (packet.slice idxPhonePassword lenPhonePassword)
  let command := packet.peek idxPhoneCommand
  if command = cmdPhoneRegisterUser then
    let inserted ← insertUser u8UserName u8Password
    if inserted = .ok then
      let (found, u32UserId) ← selectUserId u8UserName u8Password 0
      if found = .ok then apolloReturnPacket (retOkPacket u32UserId)
      else apolloReturnPacket (retNoPacket retPhoneGetuseridFailed)
    else apolloReturnPacket (retNoPacket retPhoneSigninFailed)
  else if command = cmdPhoneSigninUser then
    let (found, u32UserId) ← selectUserId u8UserName u8Password 0
    if found = .ok then apolloReturnPacket (retOkPacket u32UserId)
    else apolloReturnPacket (retNoPacket retPhoneUseridNoexist)
  else if command = cmdPhoneUpdatePwd then
    -- The arguments stand in this order in the source.
    let updated ← updatePassword u8Password u8UserName
    if updated = .ok then apolloReturnPacket (ascii "RETOK:" ++ [retPhoneSuccess, 0, 0, 0, 0, 0])
    else apolloReturnPacket (retNoPacket retPhoneUpdatePwdFailed)
  else pure ()

/-! ## Blocks -/

/-- The content `read_dat` puts into an array of `LEN_BLOCK_BUFFER` bytes; a file that cannot be
opened is a read of a null stream. -/
def readDat (filename : Text) : Action (List Byte) := do
  let content : Option (List Byte) ← perform (.readDat filename)
  match content with
  | none => .fault
  | some content => pure (content.take lenBlockBuffer)

def writeDat (filename : Text) (data : List Byte) : Action Unit :=
  perform (.writeDat filename data)

def startApolloSynerAction (arg : MulticastSynerPacket) : Action Unit :=
  perform (.createThread (.apolloSynerAction arg))

def deviceBlockDataSendPacket (client : BlockBuffer) (length : Nat) :
    Action (Int × BlockBuffer) := do
  if length ≠ lenDeviceDownload then pure (-3, client)
  else
    let packet := client.packet
    let u8DeviceId := deviceIdText packet
    let u8FileName :=
      if packet.peek 13 = 0x60 then genBlockFilePathName u8DeviceId
      else if packet.peek 13 = 0x61 then genAgpsFilePathName u8DeviceId
      else genBlockFilePathName u8DeviceId
    let content ← readDat u8FileName
    let (buffer, totalLength) ←
      Program.ofOption (takeDataPacket content client.buffer (deviceIdAt packet))
    (slices (buffer.slice 0 totalLength)).forM apolloReturnPacket
    pure (totalLength, { client with buffer := buffer })

/-- An `int` where it is compared with an `unsigned int`. -/
def toUnsigned (n : Int) : Nat :=
  (n % 2 ^ 32).toNat

/-- `data[30] * 256 + (unsigned char)data[31]` -/
def dataLengthOf (b30 b31 : Byte) : Int :=
  schar b30 * 256 + b31.toNat

/-- The fields that the receivers of a block read from the header of a packet. -/
structure BlockHeader where
  dataLength : Int
  pktIndex : Int
  pktTotal : Int

def blockHeader {n : Nat} (data : Cells n Byte) : BlockHeader where
  dataLength := dataLengthOf (data.peek 30) (data.peek 31)
  pktIndex := schar (data.peek 13)
  pktTotal := schar (data.peek 29)

/-- `pktIndex * (LEN_BLOCK_PACKET-LEN_HEADER_LENGTH)` -/
def BlockHeader.blockOff (header : BlockHeader) : Int :=
  header.pktIndex * (lenBlockPacket - lenHeaderLength : Nat)

/-- The loop that moves the data of a packet to its place in the block. -/
def copyBlockData {n : Nat} (buffer : BlockData) (data : Cells n Byte) (header : BlockHeader) :
    Option BlockData :=
  buffer.copy header.blockOff data lenHeaderLength header.dataLength.toNat

/-- The first test of the `HDR_BLOCK_DATA_RECV` branch: a full packet that is not the last one is
stored, anything else is awaited. -/
def storePacket (client : BlockBuffer) (header : BlockHeader) (blockIndex nbytes : Nat) :
    Action (BlockBuffer × Nat) :=
  if blockIndex + nbytes = lenBlockPacket ∧ header.pktIndex + 1 ≠ header.pktTotal then do
    let buffer ← Program.ofOption (copyBlockData client.buffer client.packet header)
    -- The `memset` of `LEN_BLOCK_PACKET+4` bytes also clears `index`.
    pure ({ buffer := buffer, packet := Cells.fill 0, index := 0 }, 0)
  else pure ({ client with index := blockIndex + nbytes }, blockIndex + nbytes)

/-- The second test of the branch: a complete last packet is stored and the block is saved,
acknowledged and multicast.  The file name is modelled as text, and the branch goes on with it: the
41 bytes of it overrun the 32 of `u8FileName`, which `Copies.blockDataRecv` notes. -/
def saveBlock (client : BlockBuffer) (header : BlockHeader) (blockIndex : Nat) :
    Action (BlockBuffer × Nat) :=
  if header.pktIndex + 1 = header.pktTotal ∧
      toUnsigned (header.dataLength + lenHeaderLength) ≤ blockIndex then do
    let buffer ← Program.ofOption (copyBlockData client.buffer client.packet header)
    let u8DeviceId := deviceIdText client.packet
    let saved ← Program.ofOption (buffer.upTo? (header.blockOff + header.dataLength))
    writeDat (genBlockFilePathName u8DeviceId) saved
    apolloReturnPacket (ascii "SETOK%")
    startApolloSynerAction ⟨u8DeviceId, multicastTypeAgps⟩
    pure ({ client with buffer := buffer }, blockIndex)
  else pure (client, blockIndex)

/-- The `HDR_BLOCK_DATA_RECV` branch, after a read of `nbytes` bytes at offset `blockIndex`: the
new state of the connection and of the local `blockIndex`. -/
def blockDataRecv (client : BlockBuffer) (blockIndex nbytes : Nat) :
    Action (BlockBuffer × Nat) := do
  let header := blockHeader client.packet
  let (client, blockIndex) ← storePacket client header blockIndex nbytes
  saveBlock client header blockIndex

/-! ## The read loop -/

/-- The reply to a heartbeat, by the result of its handler. -/
def heartReply (result : Int) (setValueBuf : HeartInfo) : Action Unit := do
  if 0 < result then
    if result.toNat &&& 0xF0 = 0x40 then
      apolloReturnPacket ((setValueBuf.place 0 [0x43]).slice 0 lenDeviceHeartpacketReturnBuffer)
    else apolloReturnPacket (((ascii "RETOK%").set 0 0x43).set idxDeviceReturnCommand (toByte result))
  else if result = 0 ∨ result = -1 ∨ result = -2 then
    let tblock : Tm ← perform .localtime
    apolloReturnPacket (ascii "RETOK" ++ [0] ++ writeTimeHeader tblock ++ [0])
  else pure ()

/-- The `switch` on the first byte of the packet buffer. -/
def dispatch (client : BlockBuffer) (blockIndex nbytes : Nat) : Action (BlockBuffer × Nat) := do
  let data := client.packet
  let message := data.slice 0 nbytes
  if data.peek 0 = hdrHeartPacketDevice then
    perform (.handler .deviceHeartPacket message)
    let (result, setValueBuf) ← deviceHeartPacket data nbytes (Cells.fill 0)
    heartReply result setValueBuf
    pure (client, blockIndex)
  else if data.peek 0 = hdrHeartPacketPhone then
    perform (.handler .phoneHeaderPacket message)
    let (length, info) ← phoneHeaderPacket data nbytes
    Program.onlyIf (0 ≤ length) (apolloReturnPacket (ascii "RET:" ++ info))
    pure (client, blockIndex)
  else if data.peek 0 = hdrCommandPacket then
    perform (.handler .phoneCommandPacket message)
    let _ ← phoneCommandPacket data nbytes
    pure (client, blockIndex)
  else if data.peek 0 = hdrLocationData then
    perform (.handler .deviceLocationPacket message)
    let _ ← deviceLocationPacket data nbytes
    apolloReturnPacket (ascii "RETOK%")
    pure (client, blockIndex)
  else if data.peek 0 = hdrInfoReturn then pure (client, blockIndex)
  else if data.peek 0 = hdrAddDevice then
    -- `phoneAddDevice` and `deviceBaseStation` only return 0.
    perform (.handler .phoneAddDevice message)
    pure (client, blockIndex)
  else if data.peek 0 = hdrOperatorUserInfo then
    perform (.handler .phoneOperatorUserInfo message)
    phoneOperatorUserInfo data
    pure (client, blockIndex)
  else if data.peek 0 = hdrBaseStationDevice then
    perform (.handler .deviceBaseStation message)
    pure (client, blockIndex)
  else if data.peek 0 = hdrBlockDataRecv then blockDataRecv client blockIndex nbytes
  else if data.peek 0 = hdrBlockDataSend then
    perform (.handler .deviceBlockDataSendPacket message)
    let (_, client) ← deviceBlockDataSendPacket client nbytes
    pure (client, blockIndex)
  else pure (client, blockIndex)

/-- The input of a connection: the stretches of bytes as they become available.  Every way in
which `evbuffer_remove` can hand out a byte stream is the way of one such list. -/
abbrev Evbuffer := List (List Byte)

/-- `evbuffer_remove`: at most `datlen` bytes of the first stretch, and the rest of the input. -/
def evbufferRemove (datlen : Nat) : Evbuffer → List Byte × Evbuffer
  | [] => ([], [])
  | [] :: rest => evbufferRemove datlen rest
  | stretch :: rest =>
      (stretch.take datlen, if datlen < stretch.length then stretch.drop datlen :: rest else rest)

/-- The loop of `apolloParsePacket`; every round that goes on consumes input, so fuel beyond the
number of bytes is never used up. -/
def parseLoop : Nat → BlockBuffer → Nat → Evbuffer → Action (BlockBuffer × Evbuffer)
  | 0, client, _, input => pure (client, input)
  | fuel + 1, client, blockIndex, input => do
      let removed := (evbufferRemove (lenBlockPacket - blockIndex) input).1
      let input := (evbufferRemove (lenBlockPacket - blockIndex) input).2
      if removed = [] then pure (client, input)
      else
        let client := { client with packet := client.packet.place blockIndex removed }
        let (client, blockIndex) ← dispatch client blockIndex removed.length
        parseLoop fuel client blockIndex input

def apolloParsePacket (client : BlockBuffer) (input : Evbuffer) : Action (BlockBuffer × Evbuffer) :=
  let blockIndex := if client.index > lenBlockPacket then 0 else client.index
  parseLoop (input.flatten.length + 1) client blockIndex input

/-- The calls of the read callback over the life of a connection: each call finds what the earlier
ones left in the buffer and the input that arrived since. -/
def connection (client : BlockBuffer) (pending : Evbuffer) :
    List Evbuffer → Action (BlockBuffer × Evbuffer)
  | [] => pure (client, pending)
  | arrived :: calls => do
      let (client, pending) ← apolloParsePacket client (pending ++ arrived)
      connection client pending calls

end RobotServer
