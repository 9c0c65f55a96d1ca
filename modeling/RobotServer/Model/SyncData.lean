import RobotServer.Interaction.Program
import RobotServer.Memory.Cells
import RobotServer.Text.CText

/-!
# SyncData — `SyncDataToRedis.c` and the loaders of `ApolloSqlOperator.c`

The gearman jobs and the loaders at start-up copy users and bindings into redis.  They are modelled
down to the text of the redis command, which `set_key_toredis` hands to hiredis as a format string:

- `Job` is a program over `syncInterface`, the queries of the loaders and the commands that reach
  redis;
- `formatCommand` stands for the formatter of hiredis, `JsonC` for json-c; both are parameters.
-/

namespace RobotServer

namespace SyncData

open CText Memory Interaction

/-! ## Surroundings -/

/-- The queries without arguments. -/
inductive ListSql where
  | selectUserinfoList
  | selectRelationshipList
  deriving DecidableEq, Repr

inductive SyncOp where
  /-- `Connection_executeQuery`, with the columns of the rows as C strings. -/
  | executeQuery (sql : ListSql)
  /-- A command as redis receives it: the arguments hiredis made of the format string. -/
  | redisCommand (argv : List Text)
  deriving DecidableEq, Repr

/-- The reply to a command is `true` when it is the status `OK`. -/
abbrev SyncOp.Reply : SyncOp → Type
  | .executeQuery _ => List (List Text)
  | .redisCommand _ => Bool

abbrev syncInterface : Interface where
  Op := SyncOp
  Reply := SyncOp.Reply

abbrev Job := Program syncInterface

/-- The part of json-c that the jobs use.  `parse` fails where `is_error` holds of its result,
`objectGet` is `none` where the field is missing. -/
structure JsonC where
  Object : Type
  parse : Text → Option Object
  objectGet : Object → Text → Option Object
  toJsonString : Object → Text

/-- `json_object_to_json_string`; a null object is printed as well. -/
def JsonC.print (json : JsonC) (object : Option json.Object) : Text :=
  (object.map json.toJsonString).getD (ascii "null")

/-! ## `set_key_toredis` -/

/-- The formatted text must fit the buffer with its terminator.  A format that hiredis refuses, or
one that takes arguments, is undefined: no arguments are passed, and a null reply is followed. -/
def setKeyToredis (formatCommand : Text → Option (List Text)) (key value : Text) : Job Int := do
  let command := ascii "set " ++ key ++ ascii " " ++ value
  if command.length < 256 then
    let argv ← Program.ofOption (formatCommand command)
    let ok : Bool ← Program.perform (I := syncInterface) (.redisCommand argv)
    if ok then pure 0 else pure (-1)
  else .fault

/-! ## Text buffers of the jobs -/

/-- The arrays of 20 characters, zero at the start. -/
abbrev TextBuffer := Cells 20 Byte

/-- `strcpy` into a fresh buffer. -/
def strcpy (t : Text) : Option TextBuffer :=
  if t.length < 20 then some ((Cells.fill 0).place 0 (t ++ [0])) else none

def bufferText (buffer : TextBuffer) : Text :=
  cstr (buffer.slice 0 20)

/-- `sprintf` into a buffer of 20 characters. -/
def sprintf (t : Text) : Option Text :=
  if t.length < 20 then some t else none

/-- The workload stays in `json_buffer`, an array of `CMD_LENGTH` characters, zero at the start, and
leaves a terminator in it. -/
def FitsJsonBuffer (workload : List Byte) : Prop :=
  workload.length < 128 ∨ workload.length = 128 ∧ (0 : Byte) ∈ workload

instance (workload : List Byte) : Decidable (FitsJsonBuffer workload) :=
  inferInstanceAs (Decidable (_ ∨ _))

/-- The workload as the C string in `json_buffer`. -/
def jsonBuffer (workload : List Byte) : Option Text :=
  if FitsJsonBuffer workload then some (cstr workload) else none

/-! ## `parserJsonTokener` -/

/-- `USERINFO` and `USERANDDEVICERELATIONSHIP` -/
inductive RecordType where
  | userinfo
  | userAndDeviceRelationship
  deriving DecidableEq, Repr

/-- The loop that shifts the text behind the first quote to the left, up to the second quote or the
20th character; the rounds that are left tell the index. -/
def unquoteLoop : Nat → TextBuffer → Option (Nat × TextBuffer)
  | 0, valueName => some (20, valueName)
  | rounds + 1, valueName => do
      let i := 19 - rounds
      let c ← valueName.get? (i : Int)
      if c = 0x22 then some (i, valueName)
      else
        let valueName ← valueName.set? ((i - 1 : Nat) : Int) c
        unquoteLoop rounds valueName

/-- The quotes around the text in `valueName` taken off. -/
def unquote (valueName : TextBuffer) : Option TextBuffer := do
  let (i, valueName) ← unquoteLoop 19 valueName
  let valueName ← valueName.set? ((i - 1 : Nat) : Int) 0
  valueName.set? (i : Int) 0

/-- The texts left in `valueId` and `valueName`.  The return value has no reader: after an error
both are still empty. -/
def parserJsonTokener (json : JsonC) (text : Text) (type : RecordType) : Option (Text × Text) :=
  match json.parse text with
  | none => some ([], [])
  | some object => do
      let nameTokener := match type with
        | .userinfo => json.objectGet object (ascii "UserName")
        | .userAndDeviceRelationship => json.objectGet object (ascii "DeviceId")
      let idTokener := json.objectGet object (ascii "UserId")
      let valueName ← strcpy (json.print nameTokener)
      let valueId ← strcpy (json.print idTokener)
      let valueName ← unquote valueName
      some (bufferText valueId, bufferText valueName)

section Jobs

variable (formatCommand : Text → Option (List Text)) (json : JsonC)

/-! ## Jobs -/

/-- `true` when `GEARMAN_SUCCESS` is reported. -/
def syncUserInfo (workload : List Byte) : Job Bool := do
  let jsonText ← Program.ofOption (jsonBuffer workload)
  let (userId, userName) ← Program.ofOption (parserJsonTokener json jsonText .userinfo)
  let UUserName ← Program.ofOption (sprintf (ascii "U_" ++ userName))
  let result ← setKeyToredis formatCommand UUserName userId
  if result = -1 then pure false else pure true

/-- The two keys of a binding, as a job and a row of the table write them: the return value is
`-1` when a write failed. -/
def setRelationship (userId deviceId : Text) : Job Int := do
  let RPUserId ← Program.ofOption (sprintf (ascii "RP_" ++ userId))
  let result ← setKeyToredis formatCommand RPUserId deviceId
  if result = -1 then pure (-1)
  else
    let RDeviceId ← Program.ofOption (sprintf (ascii "R_" ++ deviceId))
    let result ← setKeyToredis formatCommand RDeviceId userId
    if result = -1 then pure (-1) else pure 0

def syncUserAndDeviceRelationShip (workload : List Byte) : Job Bool := do
  let jsonText ← Program.ofOption (jsonBuffer workload)
  let (userId, deviceId) ←
    Program.ofOption (parserJsonTokener json jsonText .userAndDeviceRelationship)
  let result ← setRelationship formatCommand userId deviceId
  if result = -1 then pure false else pure true

/-! ## Loaders -/

/-- The loop of `initUserInfoList` over the rows; a row without the columns it reads raises. -/
def userInfoRows : List (List Text) → Job Unit
  | [] => pure ()
  | (id :: name :: _) :: rows => do
      let UUserName ← Program.ofOption (sprintf (ascii "U_" ++ name))
      let result ← setKeyToredis formatCommand UUserName id
      if result = -1 then pure () else userInfoRows rows
  | _ => .fault

def initUserInfoList : Job Unit := do
  let rows : List (List Text) ←
    Program.perform (I := syncInterface) (.executeQuery .selectUserinfoList)
  userInfoRows formatCommand rows

/-- The loop of `initUserAndDeviceRelationshipList` over the rows. -/
def relationshipRows : List (List Text) → Job Unit
  | [] => pure ()
  | (userId :: deviceId :: _) :: rows => do
      let result ← setRelationship formatCommand userId deviceId
      if result = -1 then pure () else relationshipRows rows
  | _ => .fault

def initUserAndDeviceRelationshipList : Job Unit := do
  let rows : List (List Text) ←
    Program.perform (I := syncInterface) (.executeQuery .selectRelationshipList)
  relationshipRows formatCommand rows

end Jobs

end SyncData

end RobotServer
