import RobotServer.Model.Syner

/-!
# World — surroundings in which every operation succeeds

`world` answers the operations of `serverInterface` the way redis, the database, the file system
and the clock do while nothing fails: redis is a map of keys, `TBL_USER` and
`TBL_DEVICE_LOCATION` are lists of rows, files are looked up by path.
-/

namespace RobotServer

open CText Interaction

/-- A row of `TBL_USER`. -/
structure UserRow where
  uId : UInt32
  uName : Text
  uPwd : Text
  deriving DecidableEq, Repr

/-- The first columns of a row of `TBL_DEVICE_LOCATION`. -/
structure LocationRow where
  longitude : Text
  latitude : Text
  high : Text
  deriving DecidableEq, Repr

/-- `locations` holds the rows of a device with the newest first; `nextUserId` is the next value
of the auto-increment column. -/
structure World where
  redis : Text → Option Text
  users : List UserRow
  nextUserId : UInt32
  locations : Text → List LocationRow
  files : Text → Option (List Byte)
  clock : Nat → Tm
  ticks : Nat

namespace World

/-- A server before its first message. -/
def empty : World where
  redis := fun _ => none
  users := []
  nextUserId := 1
  locations := fun _ => []
  files := fun _ => none
  clock := fun _ => ⟨126, 0, 4, 1, 0, 0, 0⟩
  ticks := 0

def setRedis (w : World) (key : Text) (value : Option Text) : World :=
  { w with redis := fun k => if k = key then value else w.redis k }

def setFile (w : World) (filename : Text) (data : List Byte) : World :=
  { w with files := fun f => if f = filename then some data else w.files f }

/-- `open` makes a file that is not there, and cuts none. -/
def openFile (w : World) (filename : Text) : World :=
  w.setFile filename ((w.files filename).getD [])

/-- A write to the head of a file. -/
def writeOver (bytes old : List Byte) : List Byte :=
  bytes ++ old.drop bytes.length

/-- The file of a download is written over: `gap` is the byte between the time and the data, which
is not initialised. -/
def writeAgps (w : World) (filename : Text) (time : List Byte) (gap : Byte)
    (payload : List Byte) : World :=
  w.setFile filename (writeOver (time ++ [gap] ++ payload) ((w.files filename).getD []))

@[simp] theorem redis_setRedis (w : World) (key : Text) (value : Option Text) (k : Text) :
    (w.setRedis key value).redis k = if k = key then value else w.redis k := rfl

@[simp] theorem users_setRedis (w : World) (key : Text) (value : Option Text) :
    (w.setRedis key value).users = w.users := rfl

@[simp] theorem files_setFile_self (w : World) (filename : Text) (data : List Byte) :
    (w.setFile filename data).files filename = some data := if_pos rfl

theorem files_setFile_of_ne (w : World) {filename f : Text} (h : f ≠ filename)
    (data : List Byte) : (w.setFile filename data).files f = w.files f := if_neg h

/-- A statement without result rows. -/
def execute (w : World) : Sql → List Text → World
  | .insertDeviceGps, [longitude, latitude, high, deviceId] =>
      { w with locations := fun d =>
          if d = deviceId then ⟨longitude, latitude, high⟩ :: w.locations d else w.locations d }
  | .insertUser, [userName, password] =>
      { w with
        users := w.users ++ [⟨w.nextUserId, userName, password⟩]
        nextUserId := w.nextUserId + 1 }
  | .selectUpdatePassword, [password, userName] =>
      { w with users := w.users.map fun r => if r.uName = userName then { r with uPwd := password }
          else r }
  | _, _ => w

/-- The rows of a query, as texts. -/
def executeQuery (w : World) : Sql → List Text → List (List Text)
  | .selectUserid, [userName, password] =>
      (w.users.filter fun r => r.uName = userName ∧ r.uPwd = password).map fun r =>
        [natText r.uId.toNat]
  | .selectLocationNewinfo, [deviceId] =>
      (w.locations deviceId).map fun r => [r.longitude, r.latitude, r.high]
  | _, _ => []

def answer : (o : Op) → World → o.Reply × World
  | .redisGet key, w => (w.redis key, w)
  | .redisSet key value, w => (true, w.setRedis key (some value))
  | .redisDel key, w => ((), w.setRedis key none)
  | .execute sql args, w => ((), w.execute sql args)
  | .executeQuery sql args, w => (some (w.executeQuery sql args), w)
  | .writeDat filename data, w => ((), w.setFile filename data)
  | .readDat filename, w => (w.files filename, w)
  | .localtime, w => (w.clock w.ticks, { w with ticks := w.ticks + 1 })
  | .writeBuffer _, w => (false, w)
  | .openFile filename, w => (true, w.openFile filename)
  | .assistNowOnlineData _ _, w => (none, w)
  | .writeAgps filename time payload, w => ((), w.writeAgps filename time 0 payload)
  | .handler _ _, w => ((), w)
  | .closeClient, w => ((), w)
  | .createThread _, w => ((), w)
  | .sendto _, w => ((), w)
  | .system _, w => ((), w)

end World

def world : Environment serverInterface World where
  answer := World.answer

end RobotServer
