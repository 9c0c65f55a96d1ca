import RobotServer.Interaction.Notes
import RobotServer.Model.Protocol

/-!
# Copies — the handlers with the texts they copy

The handlers of heartbeats, phone commands and uploaded blocks once more, with a note wherever a
text is formatted or copied into an array: the size of the array and the text.  Without the notes
they are the handlers of the protocol (`HandlerCall.erase_copies`).
-/

namespace RobotServer

open CText Memory Interaction

/-- A text on its way into an array of `room` characters. -/
structure TextCopy where
  room : Nat
  text : Text
  deriving DecidableEq, Repr

/-- The text and its terminator fit. -/
def TextCopy.Fits (copy : TextCopy) : Prop :=
  copy.text.length < copy.room

instance (copy : TextCopy) : Decidable copy.Fits :=
  inferInstanceAs (Decidable (_ < _))

abbrev Noted := Program (serverInterface.noting TextCopy)

namespace Copies

def copied (room : Nat) (text : Text) : Noted Unit :=
  Program.note ⟨room, text⟩

/-! ## `ApolloRedis.c` -/

def setKeyToredis (key value : Text) : Noted Int := do
  copied redisCommandLength (ascii "set " ++ key ++ ascii " " ++ value)
  (RobotServer.setKeyToredis key value).silent

/-- `room` is the size of the array behind `value`. -/
def getValueFromredis (room : Nat) (key : Text) : Noted (Option Text) := do
  copied redisCommandLength (ascii "get " ++ key)
  let value ← (RobotServer.getValueFromredis key).silent
  match value with
  | none => pure none
  | some text => do
      copied room text
      pure (some text)

def delRedisKey (key : Text) : Noted Unit := do
  copied redisCommandLength (ascii "del " ++ key)
  (RobotServer.delRedisKey key).silent

/-! ## `ApolloSqlOperator.c` -/

def selectLocationNewItem (u8DeviceId : Text) (userId : Int) : Noted Unit := do
  let result : Option (List (List Text)) ←
    (perform (.executeQuery .selectLocationNewinfo [u8DeviceId])).silent
  match result with
  | some [] => pure ()
  | some ((lng :: lat :: high :: _) :: _) => do
      copied (2 * lenLongitudeData + 2) lng
      copied (2 * lenLatitudeData + 2) lat
      copied 12 high
      copied redisCommandLength (locationNewItemText lng lat high)
      copied 8 (intText userId)
      let _ ← setKeyToredis (intText userId) (locationNewItemText lng lat high)
      pure ()
  | _ => .fault

/-! ## `ApolloProtocol.c` -/

def takeDeviceCommand (u8DeviceId : Text) (info : HeartInfo) : Noted (Int × HeartInfo) := do
  let u8RedisDeviceInfo ← getValueFromredis redisCommandLength u8DeviceId
  match u8RedisDeviceInfo with
  | none => pure (0, info)
  | some value =>
      if value.length < 4 then do
        let cmd := atoi value
        delRedisKey u8DeviceId
        pure (if cmd < 0 ∨ cmd > 254 then -4 else cmd, info)
      else do
        let (cmd, info) ← Program.ofOption (storedCommand value info)
        delRedisKey u8DeviceId
        pure (((cmd % 256).toNat &&& 0xF0 : Nat), info)

def deviceHeartPacket (packet : PacketBuffer) (length : Nat) (info : HeartInfo) :
    Noted (Int × HeartInfo) := do
  if length ≠ lenHeartPacketDevice then pure (-3, info)
  else
    copied (lenDeviceId * 2 + 1) (deviceIdText packet)
    copied (lenDeviceId * 2 + 6) (ascii "R_" ++ deviceIdText packet)
    let u8RedisUserValue ← getValueFromredis redisCommandLength (ascii "R_" ++ deviceIdText packet)
    match u8RedisUserValue with
    | none => pure (-1, info)
    | some u8RedisUserValue => do
        (Program.onlyIf (packet.peek 10 &&& 0x0F != 0)
          (perform (.createThread (.httpDeviceFalldown (packet.slice 0 length))))).silent
        copied redisCommandLength (hextostring (packet.slice idxDevicePower lenDeviceInfo))
        copied redisCommandLength (deviceInfoText packet)
        let result ← setKeyToredis u8RedisUserValue (deviceInfoText packet)
        if result = -1 then pure (-2, info)
        else takeDeviceCommand (deviceIdText packet) info

def phoneCommandPacket (packet : PacketBuffer) (length : Nat) : Noted Int := do
  if length ≠ lenCommandPacket then pure (-3)
  else
    let userId := atoi (phoneIdText packet)
    let command := packet.peek idxPhoneCommand
    copied (lenPhoneId * 2 + 1) (phoneIdText packet)
    copied (lenPhoneId * 2 + 6) (ascii "RP_" ++ intText userId)
    let u8DeviceId ← getValueFromredis (lenDeviceId * 2 + 1) (ascii "RP_" ++ intText userId)
    match u8DeviceId with
    | none => pure (-1)
    | some u8DeviceId =>
        if checkPhoneCommand command = 4 then do
          Program.onlyIf (command != cmdPhoneDeviceFreqSet)
            (copied (lenPhoneNumber * 2 + 2)
              (hextostring (packet.slice idxPhoneCmdNumber lenPhoneNumber)))
          copied 48 (contractValue packet)
          let result ← setKeyToredis u8DeviceId (contractValue packet)
          pure (if result = -1 then -2 else 0)
        else if checkPhoneCommand command = 7 then pure 0
        else if checkPhoneCommand command = 3 then pure 0
        else if 0 ≤ checkPhoneCommand command then do
          copied 6 (natText command.toNat)
          Program.onlyIf (command == cmdPhoneDeviceRealtimeLocation)
            (selectLocationNewItem u8DeviceId userId)
          let result ← setKeyToredis u8DeviceId (natText command.toNat)
          pure (if result = -1 then -2 else 0)
        else pure 0

def saveBlock (client : BlockBuffer) (header : BlockHeader) (blockIndex : Nat) :
    Noted (BlockBuffer × Nat) :=
  if header.pktIndex + 1 = header.pktTotal ∧
      toUnsigned (header.dataLength + lenHeaderLength) ≤ blockIndex then do
    let buffer ← Program.ofOption (copyBlockData client.buffer client.packet header)
    let u8DeviceId := deviceIdText client.packet
    copied (lenDeviceId * 2 + 1) u8DeviceId
    copied (lenDeviceId * 4) (genBlockFilePathName u8DeviceId)
    let saved ← Program.ofOption (buffer.upTo? (header.blockOff + header.dataLength))
    (writeDat (genBlockFilePathName u8DeviceId) saved).silent
    (apolloReturnPacket (ascii "SETOK%")).silent
    copied (lenDeviceId * 2 + 2) u8DeviceId
    (startApolloSynerAction ⟨u8DeviceId, multicastTypeAgps⟩).silent
    pure ({ client with buffer := buffer }, blockIndex)
  else pure (client, blockIndex)

def blockDataRecv (client : BlockBuffer) (blockIndex nbytes : Nat) :
    Noted (BlockBuffer × Nat) := do
  let header := blockHeader client.packet
  let (client, blockIndex) ← (storePacket client header blockIndex nbytes).silent
  saveBlock client header blockIndex

/-! ## Without the notes -/

theorem erase_copied_bind {α : Type} (room : Nat) (text : Text) (f : Unit → Noted α) :
    (copied room text >>= f).erase = (f ()).erase := rfl

theorem erase_onlyIf_copied (c : Bool) (room : Nat) (text : Text) :
    (Program.onlyIf c (copied room text)).erase = .ret () := by
  cases c with
  | false => rfl
  | true => rfl

theorem erase_silent_bind {α β : Type} (p : Action α) (f : α → Noted β) :
    (p.silent >>= f).erase = p >>= fun a => (f a).erase := by
  rw [Program.erase_bind, Program.erase_silent]

theorem erase_ofOption_bind {α β : Type} (a : Option α) (f : α → Noted β) :
    (Program.ofOption a >>= f).erase = Program.ofOption a >>= fun a => (f a).erase := by
  cases a with
  | none => rfl
  | some a => rfl

theorem erase_setKeyToredis (key value : Text) :
    (setKeyToredis key value).erase = RobotServer.setKeyToredis key value :=
  Program.erase_silent _

theorem erase_delRedisKey (key : Text) :
    (delRedisKey key).erase = RobotServer.delRedisKey key :=
  Program.erase_silent _

theorem erase_getValueFromredis (room : Nat) (key : Text) :
    (getValueFromredis room key).erase = RobotServer.getValueFromredis key := by
  rw [getValueFromredis, erase_copied_bind, erase_silent_bind]
  have hreturn : ∀ value : Option Text,
      (match value with
        | none => pure none
        | some text => do
            copied room text
            pure (some text) : Noted (Option Text)).erase = .ret value := by
    intro value
    cases value with
    | none => rfl
    | some text => rfl
  simp only [hreturn]
  exact Program.bind_ret_eq _

theorem erase_selectLocationNewItem (u8DeviceId : Text) (userId : Int) :
    (selectLocationNewItem u8DeviceId userId).erase =
      RobotServer.selectLocationNewItem u8DeviceId userId := by
  rw [selectLocationNewItem, erase_silent_bind, RobotServer.selectLocationNewItem]
  refine congrArg _ (funext fun result => ?_)
  rcases result with _ | _ | ⟨_ | ⟨lng, _ | ⟨lat, _ | ⟨high, more⟩⟩⟩, rows⟩
  · rfl
  · rfl
  · rfl
  · rfl
  · rfl
  · dsimp only
    rw [erase_copied_bind, erase_copied_bind, erase_copied_bind, erase_copied_bind,
      erase_copied_bind, Program.erase_bind, erase_setKeyToredis]
    rfl

theorem erase_takeDeviceCommand (u8DeviceId : Text) (info : HeartInfo) :
    (takeDeviceCommand u8DeviceId info).erase =
      RobotServer.takeDeviceCommand u8DeviceId info := by
  rw [takeDeviceCommand, Program.erase_bind, erase_getValueFromredis, RobotServer.takeDeviceCommand]
  refine congrArg _ (funext fun value => ?_)
  cases value with
  | none => rfl
  | some value =>
      dsimp only
      split
      · rw [Program.erase_bind, erase_delRedisKey]
        rfl
      · rw [erase_ofOption_bind]
        refine congrArg _ (funext fun stored => ?_)
        rw [Program.erase_bind, erase_delRedisKey]
        rfl

theorem erase_deviceHeartPacket (packet : PacketBuffer) (length : Nat) (info : HeartInfo) :
    (deviceHeartPacket packet length info).erase =
      RobotServer.deviceHeartPacket packet length info := by
  unfold deviceHeartPacket RobotServer.deviceHeartPacket
  split
  · rfl
  · rw [erase_copied_bind, erase_copied_bind, Program.erase_bind, erase_getValueFromredis]
    refine congrArg _ (funext fun value => ?_)
    cases value with
    | none => rfl
    | some value =>
        dsimp only
        rw [erase_silent_bind]
        refine congrArg _ (funext fun _ => ?_)
        rw [erase_copied_bind, erase_copied_bind, Program.erase_bind, erase_setKeyToredis]
        refine congrArg _ (funext fun result => ?_)
        split
        · rfl
        · exact erase_takeDeviceCommand _ _

theorem erase_phoneCommandPacket (packet : PacketBuffer) (length : Nat) :
    (phoneCommandPacket packet length).erase =
      RobotServer.phoneCommandPacket packet length := by
  unfold phoneCommandPacket RobotServer.phoneCommandPacket
  split
  · rfl
  · dsimp only
    rw [erase_copied_bind, erase_copied_bind, Program.erase_bind, erase_getValueFromredis]
    refine congrArg _ (funext fun value => ?_)
    cases value with
    | none => rfl
    | some u8DeviceId =>
        dsimp only
        split
        · rw [Program.erase_bind, erase_onlyIf_copied, Program.ret_bind, erase_copied_bind,
            Program.erase_bind, erase_setKeyToredis]
          rfl
        · split
          · rfl
          · split
            · rfl
            · split
              · rw [erase_copied_bind, Program.erase_bind, Program.erase_onlyIf,
                  erase_selectLocationNewItem]
                refine congrArg _ (funext fun _ => ?_)
                rw [Program.erase_bind, erase_setKeyToredis]
                rfl
              · rfl

theorem erase_saveBlock (client : BlockBuffer) (header : BlockHeader) (blockIndex : Nat) :
    (saveBlock client header blockIndex).erase =
      RobotServer.saveBlock client header blockIndex := by
  unfold saveBlock RobotServer.saveBlock
  split
  · simp only [erase_ofOption_bind, erase_copied_bind, erase_silent_bind]
    rfl
  · rfl

theorem erase_blockDataRecv (client : BlockBuffer) (blockIndex nbytes : Nat) :
    (blockDataRecv client blockIndex nbytes).erase =
      RobotServer.blockDataRecv client blockIndex nbytes := by
  unfold blockDataRecv RobotServer.blockDataRecv
  dsimp only
  rw [erase_silent_bind]
  exact congrArg _ (funext fun _ => erase_saveBlock _ _ _)

end Copies

/-! ## Calls of the handlers -/

inductive HandlerCall where
  | heartbeat (packet : PacketBuffer) (length : Nat) (info : HeartInfo)
  | phoneCommand (packet : PacketBuffer) (length : Nat)
  | blockUpload (client : BlockBuffer) (blockIndex nbytes : Nat)

namespace HandlerCall

def handle : HandlerCall → Action Unit
  | .heartbeat packet length info => (deviceHeartPacket packet length info).effects
  | .phoneCommand packet length => (phoneCommandPacket packet length).effects
  | .blockUpload client blockIndex nbytes => (blockDataRecv client blockIndex nbytes).effects

/-- The handler with its copies noted. -/
def copies : HandlerCall → Noted Unit
  | .heartbeat packet length info => (Copies.deviceHeartPacket packet length info).effects
  | .phoneCommand packet length => (Copies.phoneCommandPacket packet length).effects
  | .blockUpload client blockIndex nbytes =>
      (Copies.blockDataRecv client blockIndex nbytes).effects

theorem erase_copies (call : HandlerCall) : call.copies.erase = call.handle := by
  cases call with
  | heartbeat packet length info =>
      exact (Program.erase_bind _ _).trans
        (congrArg Program.effects (Copies.erase_deviceHeartPacket packet length info))
  | phoneCommand packet length =>
      exact (Program.erase_bind _ _).trans
        (congrArg Program.effects (Copies.erase_phoneCommandPacket packet length))
  | blockUpload client blockIndex nbytes =>
      exact (Program.erase_bind _ _).trans
        (congrArg Program.effects (Copies.erase_blockDataRecv client blockIndex nbytes))

end HandlerCall

end RobotServer
