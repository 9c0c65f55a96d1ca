import RobotServer.Memory.Cells
import RobotServer.Model.Constants

/-!
# Util — `ApolloUtil.c`

Hex text, file names, packetising of a block and splitting of a stored command.  Text buffers are
modelled by the text they hold; arrays of bytes that are indexed are `Cells`, and an access
outside of them is undefined behaviour (`none`).
-/

namespace RobotServer

open CText Memory

abbrev DeviceId := Vector Byte lenDeviceId

abbrev BlockData := Cells lenBlockBuffer Byte

/-! ## Hex text -/

/-- `HIGH_HEXTOSTRING` -/
def highHextostring (x : Byte) : Byte :=
  ((x &&& 0xF0) >>> 4) + 0x30

/-- `LOW_HEXTOSTRING` -/
def lowHextostring (x : Byte) : Byte :=
  (x &&& 0x0F) + 0x30

/-- One round of the loop of `hextostring`: the two characters of one byte. -/
def hexPair (hex : Byte) : Text :=
  [if highHextostring hex > 0x39 then (((hex &&& 0xF0) >>> 4) - 0x0A) + 0x41
    else highHextostring hex,
   if lowHextostring hex > 0x39 then ((hex &&& 0x0F) - 0x0A) + 0x41
    else lowHextostring hex]

def hextostring (hex : List Byte) : Text :=
  hex.flatMap hexPair

/-- The assignment inside `STRINGTOHEX`: a character that is no decimal digit becomes `'0'`. -/
def digitOrZero (x : Byte) : Byte :=
  if 0x30 ≤ x ∧ x ≤ 0x39 then x else 0x30

/-- `STRINGTOHEX` -/
def stringtohex (x y : Byte) : Byte :=
  (((digitOrZero x - 0x30) &&& 0xFF) <<< 4) ||| ((digitOrZero y - 0x30) &&& 0xFF)

/-- The pairing loop over `count` pairs of a NUL-terminated text; reading behind the terminator
is undefined. -/
def stringtohexPairs (t : Text) : Nat → Option (List Byte)
  | 0 => some []
  | count + 1 => do
      let bytes ← stringtohexPairs t count
      let x ← (t ++ [0])[2 * count]?
      let y ← (t ++ [0])[2 * count + 1]?
      some (bytes ++ [stringtohex x y])

/-! ## File names -/

def genBlockFilePathName (filename : Text) : Text :=
  ascii "/usr/RServer/block_data/" ++ filename

def genAgpsFilePathName (filename : Text) : Text :=
  ascii "/usr/RServer/agps_data/" ++ filename ++ ascii "_agps.dat"

/-! ## Time header -/

/-- The fields of `struct tm` that the server sends. -/
structure Tm where
  tmYear : Int
  tmMon : Int
  tmWday : Int
  tmMday : Int
  tmHour : Int
  tmMin : Int
  tmSec : Int
  deriving DecidableEq, Repr

def writeTimeHeader (tblock : Tm) : List Byte :=
  [toByte (tblock.tmYear - 100), toByte tblock.tmMon, toByte tblock.tmWday, toByte tblock.tmMday,
    toByte tblock.tmHour, toByte tblock.tmMin, toByte tblock.tmSec]

/-! ## Packetising -/

/-- The initialiser of `header` in `takeDataPacket`. -/
def headerInit : List Byte :=
  [0x56, 0x00, 0x86, 0x18, 0x64, 0x33, 0x87, 0x42, 0x90, 0x15, 0x09, 0x00, 0x02] ++
    List.replicate 19 0

/-- `header` when packet `index` of `total` with `length` bytes of data is written out. -/
def packetHeader (packet : DeviceId) (total index length : Nat) : List Byte :=
  let header := (List.range lenDeviceId).foldl
    (fun h i => h.set (i + 1) (packet.toList.getD i 0)) headerInit
  (((header.set 29 (UInt8.ofNat total)).set 13 (UInt8.ofNat index)).set 30
    (UInt8.ofNat (length / 256))).set 31 (UInt8.ofNat (length % 256))

/-- The number of packets of a file of `size` bytes, as `header[29]` announces it. -/
def packetTotal (size : Nat) : Nat :=
  if size % lenBlockData ≠ 0 then size / lenBlockData + 1 else size / lenBlockData

/-- The bytes `takeDataPacket` writes, for the file content `buffer`. -/
def packetBytes (buffer : List Byte) (packet : DeviceId) : List Byte :=
  let size := buffer.length
  let full := (List.range (size / lenBlockData)).flatMap fun i =>
    packetHeader packet (packetTotal size) i lenBlockData ++
      (buffer.drop (i * lenBlockData)).take lenBlockData
  let i := size / lenBlockData
  if size % lenBlockData ≠ 0 then
    full ++ packetHeader packet (packetTotal size) i (size % lenBlockData) ++
      (buffer.drop (i * lenBlockData)).take (size % lenBlockData)
  else full

/-- `takeDataPacket` after `read_dat` put `buffer` into its local array: the array `data` with the
packets written into it, and their total length. -/
def takeDataPacket (buffer : List Byte) (data : BlockData) (packet : DeviceId) :
    Option (BlockData × Nat) :=
  let out := packetBytes buffer packet
  if out.length ≤ lenBlockBuffer then some (data.place 0 out, out.length) else none

/-- The first `count` rounds of the loop of `takeDataPacketFlag`. -/
def flagPackets (data : BlockData) (flag : Byte) : Nat → Option BlockData
  | 0 => some data
  | i + 1 => do
      let data ← flagPackets data flag i
      data.set? ((i * lenBlockPacket + 20 : Nat) : Int) flag

/-- The loop runs while `i * LEN_BLOCK_PACKET < length`. -/
def takeDataPacketFlag (data : BlockData) (length : Nat) (flag : Byte) : Option BlockData :=
  flagPackets data flag ((length + (lenBlockPacket - 1)) / lenBlockPacket)

/-- The loop that hands out a buffer in pieces of `LEN_BLOCK_PACKET` bytes, the last one shorter;
`fuel` bounds its rounds. -/
def slicesLoop : Nat → List Byte → List (List Byte)
  | 0, _ => []
  | fuel + 1, buf =>
      if buf = [] then []
      else buf.take lenBlockPacket :: slicesLoop fuel (buf.drop lenBlockPacket)

def slices (buf : List Byte) : List (List Byte) :=
  slicesLoop buf.length buf

/-! ## Splitting and comparing -/

/-- The loop of `Separation`: `chArray` is the piece being collected, `pTable` the table so far.
A piece and its terminator must fit the 32 bytes of `ChArray`. -/
def separationLoop (ch : Byte) : Text → Text → List Text → Option (List Text)
  | [], chArray, pTable =>
      if chArray.length + 1 ≤ 32 then some (pTable ++ [chArray]) else none
  | c :: rest, chArray, pTable =>
      if c = ch then
        if chArray.length + 1 ≤ 32 then separationLoop ch rest [] (pTable ++ [chArray]) else none
      else if chArray.length < 32 then separationLoop ch rest (chArray ++ [c]) pTable
      else none

/-- `Separation`: the table of pieces; `Count` is its length. -/
def separation (ch : Byte) (sequence : Text) : Option (List Text) :=
  separationLoop ch (cstr sequence) [] []

/-- `apollo_strcmp` over the first `str1len` bytes: `true` when they agree. -/
def apolloStrcmp (str1 str2 : List Byte) : Nat → Bool
  | 0 => true
  | str1len + 1 =>
      if str1.headD 0 ≠ str2.headD 0 then false
      else apolloStrcmp (str1.drop 1) (str2.drop 1) str1len

end RobotServer
