import RobotServer.Model.Protocol

/-!
# Syner — `ApolloSyner.c` and the download thread that feeds it

`apolloSynerAction` multicasts the file of a device in datagrams, `apolloSyner` is one round of
the loop that receives them; `ubloxDownloadApgs` downloads AGPS data, leaves a command for the
device and starts the multicast.
-/

namespace RobotServer

open CText Memory Interaction

/-! ## The sender -/

/-- The loop of `ApolloSynerAction` that packs the digits of `u8DeviceId`, an array of 18 bytes
that is zero behind its text. -/
def synerDevId (u8DeviceId : Text) : DeviceId :=
  Vector.ofFn fun i => stringtohex (u8DeviceId.getD (2 * i) 0) (u8DeviceId.getD (2 * i + 1) 0)

/-- `ApolloSynerAction` behind the set-up of its socket.  `sendBuf` is not initialised in the
source; nothing is sent of it that was not written before. -/
def apolloSynerAction (pSynPacket : MulticastSynerPacket) : Action Unit := do
  let pathName := genAgpsFilePathName pSynPacket.u8DeviceId
  let devId := synerDevId pSynPacket.u8DeviceId
  let content ← readDat pathName
  let (sendBuf, totalLength) ← Program.ofOption (takeDataPacket content (Cells.fill 0) devId)
  let sendBuf ← Program.ofOption (takeDataPacketFlag sendBuf totalLength pSynPacket.u8flag)
  (slices (sendBuf.slice 0 totalLength)).forM fun datagram => perform (.sendto datagram)

/-! ## The receiver -/

/-- What `ApolloSyner` keeps between datagrams. -/
@[ext]
structure SynerState where
  u8SynerBlockData : BlockData
  u8DevId : DeviceId

/-- `recvmsg`: cleared, then filled with at most `PACKET_LENGTH` bytes of the datagram. -/
def recvmsg (datagram : List Byte) : Cells 1048 Byte :=
  (Cells.fill 0).place 0 (datagram.take lenBlockPacket)

/-- The path the receiver stores a block under, by the flag of its last packet. -/
def synerPathName (flag : Byte) (u8DeviceId : Text) : Text :=
  if flag = multicastTypeBlock then genBlockFilePathName u8DeviceId
  else if flag = multicastTypeAgps then genAgpsFilePathName u8DeviceId
  else genBlockFilePathName u8DeviceId

/-- A full datagram that is not the last one is stored. -/
def storeDatagram (u8SynerBlockData : BlockData) (data : Cells 1048 Byte) (n : Nat) :
    Option BlockData :=
  let header := blockHeader data
  if n = lenBlockPacket ∧ header.pktIndex + 1 ≠ header.pktTotal then
    copyBlockData u8SynerBlockData data header
  else some u8SynerBlockData

/-- The last datagram is stored and the block is saved and cleared. -/
def saveDatagram (state : SynerState) (data : Cells 1048 Byte) : Action SynerState :=
  let header := blockHeader data
  if header.pktIndex + 1 = header.pktTotal then do
    let u8SynerBlockData ← Program.ofOption (copyBlockData state.u8SynerBlockData data header)
    let u8DeviceId := hextostring (data.slice idxDeviceId lenDeviceId)
    let saved ← Program.ofOption (u8SynerBlockData.upTo? (header.blockOff + header.dataLength))
    writeDat (synerPathName (data.peek 20) u8DeviceId) saved
    pure { state with u8SynerBlockData := Cells.fill 0 }
  else pure state

/-- The device id remembered after a datagram: packet 0 brings a new one. -/
def synerDeviceId (u8DevId : DeviceId) (data : Cells 1048 Byte) : DeviceId :=
  if (blockHeader data).pktIndex = 0 then Vector.ofFn fun i => data.peek (idxDeviceId + i)
  else u8DevId

/-- One round of the loop of `ApolloSyner`. -/
def apolloSyner (state : SynerState) (datagram : List Byte) : Action SynerState := do
  let n := (datagram.take lenBlockPacket).length
  let data := recvmsg datagram
  let u8DevId := synerDeviceId state.u8DevId data
  if data.peek 0 ≠ 0x56 then pure state
  else if !apolloStrcmp u8DevId.toList (data.slice idxDeviceId lenDeviceId) lenDeviceId then
    pure { state with u8DevId := u8DevId }
  else
    let u8SynerBlockData ← Program.ofOption (storeDatagram state.u8SynerBlockData data n)
    saveDatagram ⟨u8SynerBlockData, u8DevId⟩ data

/-- The receiver over a sequence of datagrams. -/
def synerRun : SynerState → List (List Byte) → Action SynerState
  | state, [] => pure state
  | state, datagram :: rest => do
      let state ← apolloSyner state datagram
      synerRun state rest

/-! ## The download thread -/

/-- `ubloxDownloadApgs`: the download may fail, the command is stored all the same. -/
def ubloxDownloadApgs (locationInfo : LocationInfo) : Action Unit := do
  let fileName := genAgpsFilePathName locationInfo.u8DeviceId
  let opened : Bool ← perform (.openFile fileName)
  if opened then
    let downloaded : Option (List Byte) ← perform
      (.assistNowOnlineData (locationInfo.u8Latitude.drop 1) (locationInfo.u8Longitude.drop 1))
    match downloaded with
    | some payload => do
        let tblock : Tm ← perform .localtime
        perform (.writeAgps fileName (writeTimeHeader tblock) payload)
    | none => pure ()
    perform (.system (ascii "chmod 777 " ++ fileName))
    let result ← setKeyToredis locationInfo.u8DeviceId (natText cmdPhoneDeviceAgpsDownload.toNat)
    if result = -1 then pure ()
    else startApolloSynerAction ⟨locationInfo.u8DeviceId, multicastTypeAgps⟩
  else pure ()

end RobotServer
