import RobotServer.Model.Protocol

/-!
# CurlJson — the location service of `curljson.c`

`http_post` sets a `LocationInfo` up for a base station packet, `handle_data` is called with the
response of the service.  The structure is the memory of its fields, one behind the other: a write
behind a field goes into the next one.
-/

namespace RobotServer

open CText Memory Interaction

/-! ## Responses -/

/-- A response: the characters in front of the terminator of `buffer`. -/
structure Response where
  text : Text
  terminated : (0 : Byte) ∉ text

/-- The inner loop of `get_key_index`: the value of `j` behind it. -/
def matchedLength : Text → Text → Nat
  | b :: buffer, k :: key => if b ≠ k then 0 else matchedLength buffer key + 1
  | _, _ => 0

/-- The outer loop, over the characters from index `i` on. -/
def keyIndexLoop (key : Text) : Text → Nat → Int
  | [], _ => -1
  | b :: buffer, i =>
      if key.length < (b :: buffer).length then
        if matchedLength (b :: buffer) key = key.length then (i + key.length : Nat)
        else keyIndexLoop key buffer (i + 1)
      else -1

def getKeyIndex (buffer key : Text) : Int :=
  keyIndexLoop key buffer 0

/-- `log` and `lat` of `handle_data`, zero at the start. -/
abbrev ValueBuffer := Cells 16 Byte

/-- The loop of `get_key`, over the memory from index `i` on. -/
def getKeyLoop : Text → Nat → ValueBuffer → Option ValueBuffer
  | [], _, _ => none
  | b :: buffer, i, value =>
      if b = 0x2C then some value
      else do
        let value ← value.set? (i : Int) b
        getKeyLoop buffer (i + 1) value

/-- A read behind the terminator of `buffer` is undefined. -/
def getKey (buffer : Text) (value : ValueBuffer) : Option ValueBuffer :=
  getKeyLoop buffer 0 value

/-- `index+2`, where `get_key` starts. -/
def valueStart (response : Response) (key : Text) : Nat :=
  (getKeyIndex response.text key + 2).toNat

/-- The two calls that fill one of the arrays.  Without a terminator the array is printed and
compared behind its end. -/
def fieldValue (response : Response) (key : Text) : Option ValueBuffer := do
  let value ← getKey ((response.text ++ [0]).drop (valueStart response key)) (Cells.fill 0)
  if (0 : Byte) ∈ value.slice 0 16 then some value else none

def valueText (value : ValueBuffer) : Text :=
  cstr (value.slice 0 16)

/-- `LONGITUDE_KEY` and `LATITUDE_KEY` -/
inductive Coordinate where
  | longitude
  | latitude
  deriving DecidableEq, Repr

def Coordinate.key : Coordinate → Text
  | .longitude => ascii "longitude"
  | .latitude => ascii "latitude"

/-- The texts that `handle_data` takes for a response without a position. -/
def errorTexts : List Text :=
  [ascii "null", ascii "location", ascii "\"location\":null"]

def FormatError (log lat : Text) : Prop :=
  log ∈ errorTexts ∨ lat ∈ errorTexts

instance (log lat : Text) : Decidable (FormatError log lat) :=
  inferInstanceAs (Decidable (_ ∨ _))

/-! ## `LocationInfo` -/

inductive LocationField where
  | u8DeviceId
  | u8Longitude
  | u8Latitude
  | u8TimeStamp
  | u8UbloxFlag
  deriving DecidableEq, Repr

namespace LocationField

def size : LocationField → Nat
  | .u8DeviceId => 18
  | .u8Longitude => 12
  | .u8Latitude => 12
  | .u8TimeStamp => 6
  | .u8UbloxFlag => 1

def offset : LocationField → Nat
  | .u8DeviceId => 0
  | .u8Longitude => 18
  | .u8Latitude => 30
  | .u8TimeStamp => 42
  | .u8UbloxFlag => 48

end LocationField

/-- The 49 bytes of a `LocationInfo` and the byte behind them. -/
abbrev LocationMemory := Cells 50 Byte

/-- A string function on a field reads up to the next terminator. -/
def fieldText (locationInfo : LocationMemory) (field : LocationField) : Text :=
  cstr (locationInfo.slice field.offset (50 - field.offset))

/-- `*((long*)(locationInfo->u8TimeStamp))` -/
def timeStampLong (locationInfo : LocationMemory) : Int :=
  (leValue (locationInfo.slice LocationField.u8TimeStamp.offset 8) : Int).bmod (2 ^ 64)

/-- An assignment to a character of a field. -/
structure LocationWrite where
  field : LocationField
  index : Nat
  value : Byte
  deriving DecidableEq, Repr

def LocationWrite.address (w : LocationWrite) : Nat :=
  w.field.offset + w.index

/-- The assignments of `handle_data`, in order. -/
def positionWrites (log lat : ValueBuffer) : List LocationWrite :=
  (List.range 12).map (⟨.u8Longitude, ·, 0⟩) ++ (List.range 12).map (⟨.u8Latitude, ·, 0⟩) ++
    [⟨.u8Longitude, 0, 0x45⟩, ⟨.u8Latitude, 0, 0x4E⟩, ⟨.u8Latitude, 1, 0x30⟩] ++
    ((List.range' 1 10).flatMap fun i =>
      [⟨.u8Longitude, i, log.peek (i - 1)⟩, ⟨.u8Latitude, i + 1, lat.peek (i - 1)⟩]) ++
    [⟨.u8Longitude, 11, 0⟩, ⟨.u8Latitude, 12, 0⟩]

def storePosition (locationInfo : LocationMemory) (log lat : ValueBuffer) : LocationMemory :=
  locationInfo.writeAll ((positionWrites log lat).map fun w => (w.address, w.value))

/-! ## `handle_data` -/

/-- The return value, and the structure behind `stream`. -/
def handleData (response : Response) (size nmemb : UInt64) (locationInfo : LocationMemory) :
    Action (UInt64 × LocationMemory) := do
  let log ← Program.ofOption (fieldValue response Coordinate.longitude.key)
  let lat ← Program.ofOption (fieldValue response Coordinate.latitude.key)
  if FormatError (valueText log) (valueText lat) then pure (size * nmemb, locationInfo)
  else
    let locationInfo := storePosition locationInfo log lat
    let u8DeviceId := fieldText locationInfo .u8DeviceId
    let u8RedisUserValue ← getValueFromredis (ascii "R_" ++ u8DeviceId)
    match u8RedisUserValue with
    | none => pure (-1, locationInfo)
    | some u8RedisUserValue => do
        let u8Longitude := fieldText locationInfo .u8Longitude
        let u8Latitude := fieldText locationInfo .u8Latitude
        Program.onlyIf (locationInfo.peek LocationField.u8UbloxFlag.offset != 0)
          (perform (.createThread (.ubloxDownloadApgs ⟨u8DeviceId, u8Longitude, u8Latitude⟩)))
        let u8High := intText 0
        let _ ← insertDeviceGps u8Longitude u8Latitude u8High u8DeviceId
        let result ← setKeyToredis u8RedisUserValue (ascii "G_" ++ u8Longitude ++ ascii "_" ++
          u8Latitude ++ ascii "_" ++ u8High ++ ascii "_1_" ++ intText (timeStampLong locationInfo))
        pure (if result = -1 then -2 else size * nmemb, locationInfo)

/-! ## `http_post` -/

/-- The structure `http_post` sets up for a packet; `behind` is the byte behind it. -/
def httpPostInfo (packet : PacketBuffer) (behind : Byte) : LocationMemory :=
  let locationInfo := (Cells.fill 0 : LocationMemory).place 49 [behind]
  let locationInfo := locationInfo.place LocationField.u8UbloxFlag.offset
    [packet.peek idxDeviceLocationtype &&& 0xF0]
  let locationInfo := locationInfo.place LocationField.u8DeviceId.offset (deviceIdText packet)
  locationInfo.place LocationField.u8TimeStamp.offset (packet.slice 44 4)

end RobotServer
