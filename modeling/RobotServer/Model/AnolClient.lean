import RobotServer.Interaction.Program
import RobotServer.Model.Util
import RobotServer.Text.Find

/-!
# AnolClient — the download of `anolclient_china.c`

`getAssistNowOnlineData` asks a server for data and collects the reply in an array on its stack,
which it searches for the end of the header after every `read`.  The array is not cleared, so
`stale` is what it happens to hold before the first `read`.
-/

namespace RobotServer

open CText Memory Interaction

namespace AnolClient

abbrev bufferSize : Nat := 8192

abbrev anolUdp : Int := 0

abbrev anolTcp : Int := 1

abbrev ReplyBuffer := Cells bufferSize Byte

/-! ## Searching -/

def memory (reply : ReplyBuffer) : Text :=
  reply.slice 0 bufferSize

/-- `strstr`: the first place of `key` in the string at the head of the array.  Where no NUL ends
the string the search leaves the array. -/
def strstr (reply : ReplyBuffer) (key : String) : Option (Option Nat) :=
  if 0 ∈ memory reply then some (Search.find (ascii key) (cstr (memory reply))) else none

/-- `%u`: the value is read as an `unsigned long`, which saturates, and cut to 32 bits. -/
def scanUnsigned (t : Text) : Nat :=
  if (signedValue t).natAbs < 2 ^ 64 then (signedValue t % 2 ^ 32).toNat else 2 ^ 32 - 1

/-- `sscanf(pContentLength,"Content-Length: %u",&contentLength)`; where nothing is converted the
variable stays `0`. -/
def scanContentLength (t : Text) : Nat :=
  if (ascii "Content-Length:").isPrefixOf t then
    scanUnsigned (t.drop (ascii "Content-Length:").length)
  else 0

/-! ## Calls -/

/-- What `read` returns, and the bytes it has stored. -/
structure Received (room : Nat) where
  readLength : Int
  data : Text
  stored : data.length = readLength.toNat
  fits : data.length ≤ room

inductive Call where
  /-- `inet_addr`, and `gethostbyname` for what is no address. -/
  | lookup (peerName : Text)
  | socket (proto : Int)
  | connect (agpsSocket : Int) (peerName : Text) (peerPort : Nat)
  | setsockopt (agpsSocket : Int)
  | write (agpsSocket : Int) (request : Text)
  | read (agpsSocket : Int) (room : Nat)
  | close (agpsSocket : Int)

abbrev Call.Reply : Call → Type
  | .lookup _ => Bool
  | .socket _ => Int
  | .connect _ _ _ => Int
  | .setsockopt _ => Int
  | .write _ _ => Int
  | .read _ room => Received room
  | .close _ => Unit

abbrev anolInterface : Interface where
  Op := Call
  Reply := Call.Reply

abbrev Download := Program anolInterface

def call (c : Call) : Download c.Reply :=
  Program.perform (I := anolInterface) c

/-! ## The reply -/

/-- The variables of the loop. -/
structure Progress where
  reply : ReplyBuffer
  totalLength : Nat
  expectedLength : Int
  payloadLength : Int
  pPayload : Option Nat

def Progress.start (stale : ReplyBuffer) : Progress :=
  ⟨stale, 0, 10000000, 0, none⟩

/-- The search behind a `read`.  `sscanf` has no null pointer to read from. -/
def parseHeader (s : Progress) : Option Progress := do
  let headerEnd ← strstr s.reply "\r\n\r\n"
  match headerEnd with
  | none => some s
  | some headerEnd => do
      let found ← strstr s.reply "Content-Length"
      let pContentLength ← found
      let contentLength := scanContentLength ((memory s.reply).drop pContentLength)
      if 0 < contentLength then
        some { s with
          expectedLength := ((headerEnd + contentLength + 4 : Nat) : Int).bmod (2 ^ 32)
          payloadLength := (contentLength : Int).bmod (2 ^ 32)
          reply := s.reply.place headerEnd [0]
          pPayload := some (headerEnd + 4) }
      else some s

/-- The bytes of a `read` at the end of what is there. -/
def Progress.store (s : Progress) (data : Text) : Progress :=
  { s with reply := s.reply.place s.totalLength data, totalLength := s.totalLength + data.length }

/-- The loop, with its return value where it ends the function.  Every round stores a byte, so it
has no more than `rounds` of them. -/
def readReply (agpsSocket : Int) : Nat → Progress → Download (Except Int Progress)
  | 0, s => pure (.ok s)
  | rounds + 1, s =>
      if s.totalLength < s.expectedLength ∧ s.totalLength < bufferSize then do
        let received ← call (.read agpsSocket (bufferSize - s.totalLength))
        if received.readLength ≤ 0 then
          pure (.error (if received.readLength = 0 then 0 else -1))
        else do
          let s ← Program.ofOption (parseHeader (s.store received.data))
          readReply agpsSocket rounds s
      else pure (.ok s)

/-- What is done with the reply: the return value, and `buffer` with the payload copied to
`offset`. -/
def forward {m : Nat} (s : Progress) (buffer : Cells m Byte) (offset : Nat) (bufferLength : Int) :
    Option (Int × Cells m Byte) :=
  match s.pPayload with
  | some pPayload =>
      if s.expectedLength = s.totalLength ∧ s.payloadLength ≠ 0 then do
        let ubx ← strstr s.reply "Content-Type: application/ubx"
        if ubx.isSome then
          if s.payloadLength > bufferLength then some (-2, buffer)
          -- A negative length is a large `size_t`.
          else if s.payloadLength < 0 then none
          else do
            let buffer ← buffer.copy offset s.reply pPayload s.payloadLength.toNat
            some (s.payloadLength, buffer)
        else do
          let plain ← strstr s.reply "Content-Type: text/plain"
          if plain.isSome then
            -- The payload is printed as a string.
            if 0 ∈ (memory s.reply).drop pPayload then some (-3, buffer) else none
          else some (-4, buffer)
      else some (-5, buffer)
  | none => some (-5, buffer)

/-! ## The function -/

/-- `connectTo` as host and port. -/
def splitHost (connectTo : Text) : Text × Nat :=
  if 0x3A ∈ connectTo then
    (connectTo.takeWhile (· ≠ 0x3A),
      (atoi ((connectTo.dropWhile (· ≠ 0x3A)).drop 1) % 2 ^ 16).toNat)
  else (connectTo, 46434)

/-- The request, with the position printed into it, is an argument; `buffer` and `offset` are the
pointer that the caller passes. -/
def getAssistNowOnlineData {m : Nat} (connectTo : Text) (proto : Int) (request : Text)
    (buffer : Cells m Byte) (offset : Nat) (bufferLength : Int) (stale : ReplyBuffer) :
    Download (Int × Cells m Byte) := do
  let (peerName, peerPort) := splitHost connectTo
  let found ← call (.lookup peerName)
  if found = false then pure (0, buffer)
  else if proto ≠ anolUdp ∧ proto ≠ anolTcp then pure (0, buffer)
  else do
    let agpsSocket ← call (.socket proto)
    if agpsSocket = -1 then pure (0, buffer)
    else do
      let connected ← call (.connect agpsSocket peerName peerPort)
      if connected < 0 then pure (0, buffer)
      else do
        let result ← call (.setsockopt agpsSocket)
        if result ≠ 0 then pure (0, buffer)
        else do
          let sent ← call (.write agpsSocket request)
          if sent < 0 then pure (0, buffer)
          else do
            let received ← readReply agpsSocket bufferSize (.start stale)
            match received with
            | .error result => pure (result, buffer)
            | .ok s => do
                call (.close agpsSocket)
                Program.ofOption (forward s buffer offset bufferLength)

/-- The call in `ubloxDownloadApgs`: room is left for the time in front of the payload. -/
def requestData (connectTo request : Text) (buffer : Cells bufferSize Byte) (stale : ReplyBuffer) :
    Download (Int × Cells bufferSize Byte) :=
  getAssistNowOnlineData connectTo anolTcp request buffer 8 bufferSize stale

/-- What `ubloxDownloadApgs` writes to its file, if the download succeeds: the first `len+8` bytes
of `buffer`, with the time at its head. -/
def fileContent (tblock : Tm) (len : Int) (buffer : Cells bufferSize Byte) :
    Option (Option (List Byte)) :=
  if len > 0 then do
    let written ← (buffer.place 0 (writeTimeHeader tblock)).upTo? (len + 8)
    some (some written)
  else some none

def downloadFile (connectTo request : Text) (buffer : Cells bufferSize Byte) (stale : ReplyBuffer)
    (tblock : Tm) : Download (Option (List Byte)) := do
  let (len, buffer) ← requestData connectTo request buffer stale
  Program.ofOption (fileContent tblock len buffer)

end AnolClient

end RobotServer
