import RobotServer.Model.Protocol

/-!
# Lbs — the location request of `curljson.c`

`parser_Lbs` reads six cell towers out of a base station packet, `encode_lbs` prints the ones that
`IsLbs` takes for present, and `encode_post_data` puts the list into the request for the location
service.  Formatting into an array is defined where the text and its terminator fit.
-/

namespace RobotServer

open CText Memory

/-! ## Towers -/

/-- `Lbs`; `signal` is a `signed char`. -/
structure Lbs where
  mcc : UInt16
  mnc : UInt16
  lac : UInt16
  cid : UInt16
  signal : Byte
  deriving DecidableEq, Repr

def Lbs.zero : Lbs :=
  ⟨0, 0, 0, 0, 0⟩

abbrev lbsCount : Nat := 6

abbrev LbsArray := Vector Lbs lbsCount

abbrev lbsMccMncIndex : Nat := 10

abbrev lbsStationInfo : Nat := 14

/-- `buffer[off] * 256 + buffer[off+1]` -/
def ushortAt (buffer : PacketBuffer) (off : Nat) : UInt16 :=
  UInt16.ofNat ((buffer.peek off).toNat * 256 + (buffer.peek (off + 1)).toNat)

/-- The tests behind the assignment of `signal`, each field as the `int` it is compared as. -/
def Lbs.Unusable (lbs : Lbs) : Prop :=
  lbs.lac = 0x0 ∨ lbs.lac = 0xFF ∨ lbs.cid = 0x0 ∨ lbs.cid = 0xFF ∨ schar lbs.signal = 0x0 ∨
    schar lbs.signal = 0xFF

instance (lbs : Lbs) : Decidable lbs.Unusable :=
  inferInstanceAs (Decidable (_ ∨ _))

/-- A round of the loop of `parser_Lbs`: the record of slot `i` out of what the array held. -/
def parserLbsSlot (buffer : PacketBuffer) (i : Nat) (lbs : Lbs) : Lbs :=
  let lbs := { lbs with
    mcc := ushortAt buffer lbsMccMncIndex
    mnc := ushortAt buffer (lbsMccMncIndex + 2)
    lac := ushortAt buffer (lbsStationInfo + 5 * i)
    cid := ushortAt buffer (lbsStationInfo + 5 * i + 2) }
  -- The `continue` leaves `signal` as it was.
  if lbs.cid = 0xFFFF ∨ lbs.lac = 0xFFFF then lbs
  else
    let lbs := { lbs with signal := buffer.peek (lbsStationInfo + 5 * i + 4) }
    if lbs.Unusable then Lbs.zero else lbs

def parserLbs (buffer : PacketBuffer) (lbs : LbsArray) : LbsArray :=
  Vector.ofFn fun i => parserLbsSlot buffer i lbs[i]

def isLbs (lbs : Lbs) : Bool :=
  ¬ (lbs.mcc = 0x0 ∧ lbs.mnc = 0x0 ∧ lbs.cid = 0x0 ∧ lbs.lac = 0x0 ∧ schar lbs.signal = 0x0)

/-! ## Formatting -/

/-- `sprintf` into an array. -/
def sprintfInto {n : Nat} (array : Cells n Byte) (text : Text) : Option (Cells n Byte) :=
  if text.length + 1 ≤ n then some (array.place 0 (text ++ [0])) else none

/-- `strcpy` to a place in an array. -/
def strcpyAt {n : Nat} (array : Cells n Byte) (index : Nat) (text : Text) :
    Option (Cells n Byte) :=
  if index + (text.length + 1) ≤ n then some (array.place index (text ++ [0])) else none

/-- The C string at the head of an array. -/
def textIn {n : Nat} (array : Cells n Byte) : Text :=
  cstr (array.slice 0 n)

/-! ## The request -/

abbrev postDataLength : Nat := 1024

abbrev PostBuffer := Cells postDataLength Byte

/-- The fields of an item; `strength` is what stands behind the minus sign. -/
def towerText (cid lac mcc mnc : Nat) (strength : Text) : Text :=
  ascii "\x7b\"cell_id\":\"" ++ natText cid ++ ascii "\",\"lac\":\"" ++ natText lac ++
    ascii "\",\"mcc\":\"" ++ natText mcc ++ ascii "\",\"mnc\":\"" ++ natText mnc ++
    ascii "\",\"signalstrength\":\"-" ++ strength ++ ascii "\"\x7d"

/-- The item of a record. -/
def itemText (lbs : Lbs) : Text :=
  towerText lbs.cid.toNat lbs.lac.toNat lbs.mcc.toNat lbs.mnc.toNat (intText (schar lbs.signal))

/-- The loop of `encode_lbs` over the records from slot `i` on; `lbs_item` is zero in each round. -/
def encodeLbsLoop (buffer : PostBuffer) : List Lbs → Nat → Nat → Option (PostBuffer × Nat)
  | [], _, index => some (buffer, index)
  | lbs :: rest, i, index =>
      if isLbs lbs then do
        let lbsItem ← sprintfInto (Cells.fill 0 : Cells 128 Byte)
          (if i = 0 then itemText lbs else ascii "," ++ itemText lbs)
        let buffer ← strcpyAt buffer index (textIn lbsItem)
        encodeLbsLoop buffer rest (i + 1) (index + (textIn lbsItem).length)
      else encodeLbsLoop buffer rest (i + 1) index

/-- The array behind `buffer`, and the return value. -/
def encodeLbs (buffer : PostBuffer) (lbs : LbsArray) : Option (PostBuffer × Nat) :=
  encodeLbsLoop buffer lbs.toList 0 0

/-- The format of `encode_post_data` with its list of towers. -/
def requestText (towers : Text) : Text :=
  ascii "requestdata=\x7b\"celltowers\":[" ++ towers ++
    ascii "],\"mnctype\":\"gsm\"\x7d&type=0&key=ade0044a7a6b49adbbf1e490bf8f0e9c"

/-- `encode_post_data` behind the call of `parser_Lbs`. -/
def postTowers (buffer : PostBuffer) (lbs : LbsArray) : Option PostBuffer := do
  let (lbsBuffer, _) ← encodeLbs (Cells.fill 0) lbs
  sprintfInto buffer (requestText (textIn lbsBuffer))

/-- `lbs` is what the local array holds before it is assigned. -/
def encodePostData (buffer : PostBuffer) (data : PacketBuffer) (lbs : LbsArray) :
    Option PostBuffer :=
  postTowers buffer (parserLbs data lbs)

end RobotServer
