import RobotServer.Interaction.Program
import RobotServer.Model.Util

/-!
# Services — what the server asks of its surroundings

`serverInterface` lists the operations by which the program touches anything outside its own
memory: redis, the database behind libzdb, files, the clock, the socket of the client, the
multicast socket and the threads it starts.  The wrappers of `ApolloRedis.c` and of the libzdb
branch of `ApolloSqlOperator.c` (the one `CONNECTIONPOOL_SELECT` picks) are programs over it.
-/

namespace RobotServer

open CText Memory Interaction

/-! ## Operations -/

/-- The procedures of `struct ApolloProtocolProcess` that the packet loop calls. -/
inductive Proc where
  | deviceHeartPacket
  | phoneHeaderPacket
  | phoneCommandPacket
  | deviceLocationPacket
  | phoneAddDevice
  | phoneOperatorUserInfo
  | deviceBaseStation
  | deviceBlockDataSendPacket
  deriving DecidableEq, Repr

/-- The statements of `ApolloSqlOperator.h` that carry arguments. -/
inductive Sql where
  | insertDeviceGps
  | insertUser
  | selectUserid
  | selectUpdatePassword
  | selectLocationNewinfo
  deriving DecidableEq, Repr

/-- `MulticastSynerPacket` -/
structure MulticastSynerPacket where
  u8DeviceId : Text
  u8flag : Byte
  deriving DecidableEq, Repr

/-- The fields of `LocationInfo` that `deviceLocationPacket` fills in. -/
structure LocationInfo where
  u8DeviceId : Text
  u8Longitude : Text
  u8Latitude : Text
  deriving DecidableEq, Repr

/-- The start routines handed to `pthread_create`, with their argument. -/
inductive Thread where
  | httpDeviceFalldown (packet : List Byte)
  | httpPost (packet : List Byte)
  | ubloxDownloadApgs (locationInfo : LocationInfo)
  | apolloSynerAction (pSynPacket : MulticastSynerPacket)
  deriving DecidableEq, Repr

inductive Op where
  /-- A call through `ApolloProtocolInstance`, with the bytes of the message. -/
  | handler (proc : Proc) (packet : List Byte)
  | redisGet (key : Text)
  | redisSet (key value : Text)
  | redisDel (key : Text)
  /-- `Connection_execute` -/
  | execute (sql : Sql) (args : List Text)
  /-- `Connection_executeQuery` -/
  | executeQuery (sql : Sql) (args : List Text)
  | writeDat (filename : Text) (data : List Byte)
  | readDat (filename : Text)
  | localtime
  /-- `evbuffer_add` to the output buffer, then `bufferevent_write_buffer`. -/
  | writeBuffer (buffer : List Byte)
  | closeClient
  | createThread (thread : Thread)
  | sendto (datagram : List Byte)
  /-- `open(fileName, O_RDWR | O_CREAT)` -/
  | openFile (filename : Text)
  /-- `getAssistNowOnlineData`, for the position in two texts. -/
  | assistNowOnlineData (latitude longitude : Text)
  /-- `write` of the time header and the downloaded payload to the opened file. -/
  | writeAgps (filename : Text) (time payload : List Byte)
  | system (command : Text)
  deriving DecidableEq, Repr

def Op.isWriteDat : Op → Bool
  | .writeDat _ _ => true
  | _ => false

def Op.isWriteBuffer : Op → Bool
  | .writeBuffer _ => true
  | _ => false

/-- The reply to an operation: `none` is a redis reply of another type, a null result set, a file
that could not be opened or a failed download; a `true` from `writeBuffer` is its failure. -/
abbrev Op.Reply : Op → Type
  | .redisGet _ => Option Text
  | .redisSet _ _ => Bool
  | .executeQuery _ _ => Option (List (List Text))
  | .readDat _ => Option (List Byte)
  | .localtime => Tm
  | .writeBuffer _ => Bool
  | .openFile _ => Bool
  | .assistNowOnlineData _ _ => Option (List Byte)
  | _ => Unit

abbrev serverInterface : Interface where
  Op := Op
  Reply := Op.Reply

/-- A piece of the server: a program over its surroundings. -/
abbrev Action := Program serverInterface

def perform (o : Op) : Action o.Reply :=
  Program.perform (I := serverInterface) o

theorem perform_bind {α : Type} (o : Op) (f : o.Reply → Action α) :
    perform o >>= f = Program.call (I := serverInterface) o f := rfl

/-! ## `ApolloRedis.c` -/

abbrev redisCommandLength : Nat := 256

/-- `0` when redis answered with the status `OK`, `-1` otherwise. -/
def setKeyToredis (key value : Text) : Action Int := do
  let ok : Bool ← perform (.redisSet key value)
  if ok then pure 0 else pure (-1)

/-- The text copied into `value`; `none` is the return value `-1`. -/
def getValueFromredis (key : Text) : Action (Option Text) := do
  let reply : Option Text ← perform (.redisGet key)
  match reply with
  | none => pure none
  | some str => pure (some ((cstr str).take (redisCommandLength - 2)))

def delRedisKey (key : Text) : Action Unit :=
  perform (.redisDel key)

/-! ## `ApolloSqlOperator.c` -/

/-- `CONNECTIONPOOL_RESULT` -/
inductive ConnectionpoolResult where
  | ok
  | noexist
  | noinsert
  | noupdate
  deriving DecidableEq, Repr

def insertDeviceGps (longitude latitude high deviceId : Text) : Action ConnectionpoolResult := do
  perform (.execute .insertDeviceGps [longitude, latitude, high, deviceId])
  pure .ok

def insertUser (userName password : Text) : Action ConnectionpoolResult := do
  perform (.execute .insertUser [userName, password])
  pure .ok

/-- The result code and the value left in `*userId`. -/
def selectUserId (userName password : Text) (userId : UInt32) :
    Action (ConnectionpoolResult × UInt32) := do
  let result : Option (List (List Text)) ←
    perform (.executeQuery .selectUserid [userName, password])
  match result with
  | none => pure (.noexist, userId)
  -- The loop over the rows is commented out in the source, so `*userId` keeps its value.
  | some _ => pure (.ok, userId)

def updatePassword (userName password : Text) : Action ConnectionpoolResult := do
  perform (.execute .selectUpdatePassword [password, userName])
  pure .ok

/-- The text `selectLocationNewItem` stores for the newest row of a device. -/
def locationNewItemText (lng lat high : Text) : Text :=
  ascii "G_" ++ lng ++ ascii "_" ++ lat ++ ascii "_" ++ high ++
    if high.headD 0 = 0x30 then ascii "_1_12345" else ascii "_0_12345"

/-- Only the first row is used.  The return value has no reader.  The texts are used as they are where
they overrun the 8 bytes of `u8UserId` or the 12 of the coordinates and the height, which
`Copies.selectLocationNewItem` notes. -/
def selectLocationNewItem (u8DeviceId : Text) (userId : Int) : Action Unit := do
  let result : Option (List (List Text)) ←
    perform (.executeQuery .selectLocationNewinfo [u8DeviceId])
  match result with
  | some [] => pure ()
  | some ((lng :: lat :: high :: _) :: _) => do
      let _ ← setKeyToredis (intText userId) (locationNewItemText lng lat high)
      pure ()
  -- A null result set, or a row without the three columns.
  | _ => .fault

end RobotServer
