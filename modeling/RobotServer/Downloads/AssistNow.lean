import RobotServer.Downloads.Pieces

/-!
# AssistNow — what a download takes from its server

- `download_in_pieces`: the payload of a response is written, however it is cut into reads;
- `download_accepts`: what is written is the payload of a reply of the right form and of the length
  that it announces, and fits;
- `download_total`: a reply that leaves room for a NUL leads nowhere outside the arrays, whatever
  lengths it announces.

The file is opened without being cut, so that behind what is written an older file may go on.  The
array of the reply is not cleared either: the results are about arrays that hold no line feed before
the first `read`, the first and the last of them also about arrays that end with a NUL.
-/

namespace RobotServer

open CText Memory Interaction Search

namespace AnolClient

variable {stale : ReplyBuffer} {received : Text} {s s' : Progress} {w : Network}
  {connectTo request : Text}

/-! ## Pieces -/

/-- What is written for a response. -/
theorem run_downloadFile_response (r : Response) {buffer : Cells bufferSize Byte}
    (hrequest : ((requestData connectTo request buffer stale).run network w).result =
      some ((r.payload.length : Int), buffer.place 8 r.payload)) (tblock : Tm) :
    ((downloadFile connectTo request buffer stale tblock).run network w).result =
      some (some (writeTimeHeader tblock ++ [buffer.peek 7] ++ r.payload)) := by
  have hroom : 8 + r.payload.length ≤ bufferSize := by
    have hfits : r.text.length < bufferSize := r.fits
    have hheader : 29 ≤ r.header.length := r.ubx.length_le
    rw [r.length_text] at hfits
    omega
  rw [run_downloadFile, hrequest, Option.bind_some]
  exact fileContent_payload tblock buffer r.payload_ne hroom

/-- However a response is cut into reads, the time and its payload are written. -/
theorem download_in_pieces (r : Response) {stale : ReplyBuffer} (hstale : NoLineFeed stale)
    (hlast : stale.peek (bufferSize - 1) = 0) {pieces : List Text}
    (hpieces : ∀ piece ∈ pieces, piece ≠ []) (htext : pieces.flatten = r.text)
    {w : Network} (hconnects : w.Connects) {later : List Incoming}
    (hincoming : w.incoming = pieces.map .bytes ++ later) (connectTo request : Text)
    (buffer : Cells bufferSize Byte) (tblock : Tm) :
    ((downloadFile connectTo request buffer stale tblock).run network w).result =
      some (some (writeTimeHeader tblock ++ [buffer.peek 7] ++ r.payload)) :=
  run_downloadFile_response r (requestData_in_pieces r hstale hlast hpieces htext hconnects
    hincoming connectTo request buffer) tblock

/-- A response with two bytes of data. -/
def ubxResponse : Response where
  before := []
  after := ascii "\r\nContent-Type: application/ubx"
  payload := [0xB5, 0x62]
  payload_ne := List.cons_ne_nil _ _
  string := by decide
  length_first := find_eq_some_iff.mp (by decide)
  length_ends := fun c rest h => by cases h; rfl
  ubx := by decide
  blank_first := find_eq_some_iff.mp (by decide)
  fits := by decide

/-- The response in two pieces, cut in its header. -/
def ubxPieces : List Text :=
  [ubxResponse.text.take 30, ubxResponse.text.drop 30]

def ubxNetwork : Network :=
  ⟨true, 3, 0, 0, 41, ubxPieces.map .bytes ++ []⟩

theorem flatten_ubxPieces : ubxPieces.flatten = ubxResponse.text :=
  List.take_append_drop 30 ubxResponse.text

theorem noLineFeed_fill : NoLineFeed (Cells.fill 0) := fun i hi => by
  rw [Cells.peek_fill hi]
  decide

theorem last_fill : (Cells.fill 0 : ReplyBuffer).peek (bufferSize - 1) = 0 :=
  Cells.peek_fill (by decide)

theorem download_in_pieces_ubx :
    ((downloadFile [] [] (Cells.fill 0) (Cells.fill 0) ⟨125, 0, 3, 1, 12, 0, 0⟩).run network
      ubxNetwork).result =
        some (some ([25, 0, 3, 1, 12, 0, 0] ++ [(Cells.fill 0 : ReplyBuffer).peek 7] ++
          [0xB5, 0x62])) :=
  download_in_pieces ubxResponse noLineFeed_fill last_fill (by decide)
    flatten_ubxPieces (by decide) rfl [] [] (Cells.fill 0) _

/-! ## What is accepted -/

/-- The reply is a header of the right type, its blank line and a payload of the length that was read
when the header had come. -/
structure Accepted (stale : ReplyBuffer) (header payload : Text) : Prop where
  blank_first : FirstAt (ascii "\r\n\r\n") (header ++ ascii "\r\n\r\n" ++ payload) header.length
  ubx : ascii "Content-Type: application/ubx" <:+: header
  payload_ne : payload ≠ []
  announced : Announces stale (header ++ ascii "\r\n\r\n" ++ payload) header.length payload.length
  fits : (header ++ ascii "\r\n\r\n" ++ payload).length ≤ bufferSize

theorem requestData_accepts (hstale : NoLineFeed stale) {buffer buffer' : Cells bufferSize Byte}
    {result : Int}
    (hrun : ((requestData connectTo request buffer stale).run network w).result =
      some (result, buffer')) (hresult : 0 < result) :
    ∃ header payload rest,
      Network.arriving w.incoming = header ++ ascii "\r\n\r\n" ++ payload ++ rest ∧
        Accepted stale header payload ∧ result = payload.length ∧
          buffer' = buffer.place 8 payload := by
  rw [run_requestData] at hrun
  split at hrun
  case isFalse => cases hrun; cases hresult
  obtain ⟨outcome, hloop, hrun⟩ := Option.bind_eq_some_iff.mp hrun
  cases outcome with
  | error result' =>
      have hle : result' ≤ 0 :=
        Program.Returns.of_result network (readReply_error w.socket bufferSize _) hloop
      cases hrun
      exact absurd hresult (Int.not_lt.mpr hle)
  | ok s =>
      obtain ⟨received, rest, harriving, hfits, hs⟩ :=
        readReply_collected hstale bufferSize (.inl rfl) (Nat.zero_le _) hloop
      rw [List.nil_append] at hfits hs
      obtain ⟨h, hannounces, hubx, rfl, rfl⟩ := forward_accepts hs hfits hrun hresult
      have hsplit := header_split hannounces.ends
      have hheader : (received.take h).length = h := by
        have hle := hannounces.ends.add_le
        rw [List.length_take_of_le (by omega)]
      refine ⟨received.take h, received.drop (h + 4), rest, ?_, ?_, rfl, rfl⟩
      · rw [← hsplit]
        exact harriving
      · refine ⟨?_, hubx, ?_, ?_, ?_⟩
        · rw [← hsplit, hheader]
          exact hannounces.ends.first
        · intro hnil
          rw [hnil] at hresult
          exact absurd hresult (Int.lt_irrefl 0)
        · rw [← hsplit, hheader]
          exact hannounces
        · rw [← hsplit]
          exact hfits

namespace Accepted

variable {header payload : Text}

/-- The header in front of a payload leaves more room behind it than the time takes. -/
theorem room (h : Accepted stale header payload) : payload.length + 33 ≤ bufferSize := by
  have hheader : 29 ≤ header.length := h.ubx.length_le
  have hlength : (header ++ ascii "\r\n\r\n" ++ payload).length =
      header.length + 4 + payload.length := by
    rw [List.length_append, List.length_append]
    rfl
  have hfits := h.fits
  omega

/-- Where the header gives its length, that is the length of the payload. -/
theorem length_eq {before after : Text} {n : Nat}
    (h : Accepted stale (headerText before n after) payload)
    (hgives : GivesLength before n after) : payload.length = n := by
  obtain ⟨seen, ⟨rest, hseen⟩, hend, hlength⟩ := h.announced.length
  -- What had come then starts with the header and its blank line.
  have hbehind : headerText before n after ++ ascii "\r\n\r\n" <+: seen := by
    refine List.prefix_of_prefix_length_le (List.prefix_append _ payload) ⟨rest, hseen⟩ ?_
    rw [List.length_append]
    exact hend.add_le
  obtain ⟨behind, rfl⟩ := hbehind
  have hfits : (headerText before n after ++ ascii "\r\n\r\n" ++ behind).length ≤ bufferSize := by
    have hle := h.fits
    rw [← hseen, List.length_append] at hle
    omega
  rw [hgives.announcement_eq stale behind hfits] at hlength
  exact (Option.some.inj hlength).symm

end Accepted

/-- Something is written only for a reply that has come as far as it announces, with a header of the
right type and a payload, and then it is the time, a byte of the array and that payload.  The room
that the caller names is more than it has, but no accepted payload takes it. -/
theorem download_accepts (hstale : NoLineFeed stale) {buffer : Cells bufferSize Byte} {tblock : Tm}
    {written : List Byte}
    (hrun : ((downloadFile connectTo request buffer stale tblock).run network w).result =
      some (some written)) :
    ∃ header payload rest,
      Network.arriving w.incoming = header ++ ascii "\r\n\r\n" ++ payload ++ rest ∧
        Accepted stale header payload ∧
          (∀ before n after, header = headerText before n after → GivesLength before n after →
            payload.length = n) ∧
          written = writeTimeHeader tblock ++ [buffer.peek 7] ++ payload ∧
            written.length + 25 ≤ bufferSize := by
  rw [run_downloadFile] at hrun
  obtain ⟨⟨len, buffer'⟩, hrequest, hfile⟩ := Option.bind_eq_some_iff.mp hrun
  by_cases hlen : 0 < len
  · obtain ⟨header, payload, rest, harriving, haccepted, rfl, rfl⟩ :=
      requestData_accepts hstale hrequest hlen
    have hroom := haccepted.room
    have hcontent := fileContent_payload tblock buffer haccepted.payload_ne (by omega)
    rw [hcontent] at hfile
    cases hfile
    refine ⟨header, payload, rest, harriving, haccepted, ?_, rfl, ?_⟩
    · rintro before n after rfl hgives
      exact haccepted.length_eq hgives
    · have hlength : (writeTimeHeader tblock ++ [buffer.peek 7] ++ payload).length =
          8 + payload.length := by
        rw [List.length_append]
        rfl
      omega
  · unfold fileContent at hfile
    rw [if_neg hlen] at hfile
    cases hfile

/-- The reply in two pieces is accepted with its two bytes of data. -/
theorem download_accepts_ubx :
    ∃ header rest, Network.arriving ubxNetwork.incoming =
        header ++ ascii "\r\n\r\n" ++ ubxResponse.payload ++ rest ∧
      Accepted (Cells.fill 0) header ubxResponse.payload := by
  have hrun := run_downloadFile_response ubxResponse
    (requestData_in_pieces ubxResponse noLineFeed_fill last_fill (by decide)
      flatten_ubxPieces (by decide) rfl [] [] (Cells.fill 0) : ((requestData [] [] (Cells.fill 0)
        (Cells.fill 0)).run network ubxNetwork).result = _) ⟨125, 0, 3, 1, 12, 0, 0⟩
  rcases download_accepts noLineFeed_fill hrun with
    ⟨header, payload, rest, harriving, haccepted, -, hwritten, -⟩
  have hpayload : ubxResponse.payload = payload := List.append_cancel_left hwritten
  rw [hpayload]
  exact ⟨header, rest, harriving, haccepted⟩

/-! ## No reply leads outside -/

/-- A header names the length of what follows. -/
def NamesLength (t : Text) : Prop :=
  ∀ h, HeaderEnd t h → ascii "Content-Length" <:+: t.take h

/-- A header that has been received is the header of the whole reply. -/
theorem NamesLength.of_append {rest : Text} (hnames : NamesLength (received ++ rest)) :
    NamesLength received := by
  intro h hend
  have hle := hend.add_le
  have hinfix := hnames h (hend.append rest)
  rwa [List.take_append_of_le_length (by omega)] at hinfix

theorem parseHeader_isSome (hstale : NoLineFeed stale) (hlast : stale.peek (bufferSize - 1) = 0)
    (hnames : NamesLength received) (hlength : received.length < bufferSize) :
    (parseHeader (searching stale received)).isSome := by
  have hholds := holds_searching hlast hlength
  unfold parseHeader
  change (Option.bind (strstr (stale.place 0 received) _) _).isSome
  rw [hholds.strstr, Option.bind_some]
  cases hfind : find (ascii "\r\n\r\n") (cstr (memory (stale.place 0 received))) with
  | none => rfl
  | some h =>
      have hend := headerEnd_of_found hstale hlength.le (find_eq_some_iff.mp hfind)
      have hheader : received.take h <+: cstr (memory (stale.place 0 received)) := by
        have hsplit : memory (stale.place 0 received) = received.take h ++ (received.drop h ++
            stale.slice received.length (bufferSize - received.length)) := by
          rw [memory_received stale hlength.le, ← List.append_assoc, List.take_append_drop]
        rw [hsplit, cstr_append hend.string]
        exact List.prefix_append _ _
      have hfound : (find (ascii "Content-Length")
          (cstr (memory (stale.place 0 received)))).isSome :=
        find_isSome_iff.mpr ((hnames h hend).trans hheader.isInfix)
      obtain ⟨pContentLength, hpContentLength⟩ := Option.isSome_iff_exists.mp hfound
      change (Option.bind (strstr (stale.place 0 received) _) _).isSome
      rw [hholds.strstr, Option.bind_some, hpContentLength]
      change (if _ then _ else _ : Option Progress).isSome
      split <;> rfl

theorem Collected.parse_isSome (hstale : NoLineFeed stale)
    (hlast : stale.peek (bufferSize - 1) = 0) {data : Text} (hs : Collected stale received s)
    (hnames : NamesLength (received ++ data)) (hlength : (received ++ data).length < bufferSize) :
    (parseHeader (s.store data)).isSome := by
  rcases hs with rfl | ⟨h, n, hannounces, -, rfl⟩
  · rw [store_searching]
    exact parseHeader_isSome hstale hlast hnames hlength
  · have hend := hannounces.ends
    rw [store_announced stale hend, parseHeader_announced stale (hend.append data) hlength.le]
    rfl

theorem readReply_isSome (hstale : NoLineFeed stale) (hlast : stale.peek (bufferSize - 1) = 0)
    (agpsSocket : Int) : ∀ (rounds : Nat) {received : Text} {s : Progress} {w : Network},
      Collected stale received s → NamesLength (received ++ Network.arriving w.incoming) →
        (received ++ Network.arriving w.incoming).length < bufferSize →
          ((readReply agpsSocket rounds s).run network w).result.isSome := by
  intro rounds
  induction rounds with
  | zero => exact fun _ _ _ => rfl
  | succ rounds ih =>
      intro received s w hs hnames hlength
      by_cases hroom : s.totalLength < s.expectedLength ∧ s.totalLength < bufferSize
      · obtain ⟨got, w', hread⟩ : ∃ got w', w.read (bufferSize - s.totalLength) = (got, w') :=
          ⟨_, _, rfl⟩
        have harriving := w.arriving_read (bufferSize - s.totalLength)
        rw [hread] at harriving
        dsimp only at harriving
        rw [harriving, ← List.append_assoc] at hnames hlength
        rw [readReply_round hroom hread]
        split
        case isTrue => rfl
        case isFalse =>
            have hlength' : (received ++ got.data).length < bufferSize := by
              rw [List.length_append] at hlength
              omega
            obtain ⟨next, hparse⟩ := Option.isSome_iff_exists.mp
              (hs.parse_isSome hstale hlast hnames.of_append hlength')
            rw [hparse, Option.bind_some]
            exact ih (hs.parse hstale hlength'.le hparse) hnames hlength
      · rw [readReply_done hroom]
        rfl

/-- The copies of a payload and of an error text stay in their arrays. -/
theorem forward_isSome (hlast : stale.peek (bufferSize - 1) = 0) (hs : Collected stale received s)
    (hlength : received.length < bufferSize) (buffer : Cells bufferSize Byte) :
    (forward s buffer 8 bufferSize).isSome := by
  have hsize : bufferSize = 8192 := rfl
  rcases hs with rfl | ⟨h, n, hannounces, hpos, rfl⟩
  · rw [forward_none rfl]
    rfl
  have hend := hannounces.ends
  have hn := hannounces.lt
  by_cases hwhole : h + 4 + n = received.length
  · by_cases hubx : ascii "Content-Type: application/ubx" <:+: received.take h
    · have hheader := header_length hubx
      rw [forward_payload stale hend hlength.le hpos hwhole hubx (by omega) (by omega)]
      rfl
    · obtain ⟨hexpected, hpayload⟩ := announced_complete stale hend hlength.le hwhole
      rw [@forward_complete _ _ _ _ _ (h + 4) _ rfl ⟨hexpected, by omega⟩
        (holds_announced stale hend hlength.le), if_neg hubx]
      have hzero : 0 ∈ (memory (announced stale received h n).reply).drop (h + 4) := by
        dsimp only [announced]
        rw [memory_place, List.drop_set_of_lt (by omega), memory_received stale hlength.le,
          List.drop_append_of_le_length hend.add_le]
        exact List.mem_append_right _ (zero_mem_behind hlast hlength)
      rw [if_pos hzero]
      split <;> rfl
  · rw [@forward_incomplete _ _ _ _ _ (h + 4) rfl fun hexpected => hwhole ?_]
    · rfl
    · refine (expectedLength_iff hend hlength.le hn).mp ?_
      dsimp only [announced] at hexpected
      exact hexpected

theorem requestData_isSome (hstale : NoLineFeed stale) (hlast : stale.peek (bufferSize - 1) = 0)
    (hlength : (Network.arriving w.incoming).length < bufferSize)
    (hnames : NamesLength (Network.arriving w.incoming)) (buffer : Cells bufferSize Byte) :
    ((requestData connectTo request buffer stale).run network w).result.isSome := by
  rw [run_requestData]
  split
  case isFalse => rfl
  obtain ⟨outcome, hloop⟩ := Option.isSome_iff_exists.mp
    (@readReply_isSome _ hstale hlast w.socket bufferSize [] _ w (.inl rfl) hnames hlength)
  rw [hloop, Option.bind_some]
  cases outcome with
  | error result => rfl
  | ok s =>
      obtain ⟨received, rest, harriving, -, hs⟩ :=
        readReply_collected hstale bufferSize (.inl rfl) (Nat.zero_le _) hloop
      rw [List.nil_append] at hs
      refine forward_isSome hlast hs ?_ buffer
      rw [harriving, List.length_append] at hlength
      omega

/-- A reply that leaves a cell for the NUL, and names a length in its header if the header ends,
leads nowhere outside the arrays: not by a length that is too large, or wraps around, or is cut by
a `read`.  The NUL and the blank line that are searched are not left to what the array held before
(`hlast`, `hstale`). -/
theorem download_total (hstale : NoLineFeed stale) (hlast : stale.peek (bufferSize - 1) = 0)
    (hlength : (Network.arriving w.incoming).length < bufferSize)
    (hnames : NamesLength (Network.arriving w.incoming)) (connectTo request : Text)
    (buffer : Cells bufferSize Byte) (tblock : Tm) :
    ((downloadFile connectTo request buffer stale tblock).run network w).result.isSome := by
  rw [run_downloadFile]
  obtain ⟨⟨len, buffer'⟩, hrequest⟩ := Option.isSome_iff_exists.mp
    (@requestData_isSome _ w connectTo request hstale hlast hlength hnames buffer)
  rw [hrequest, Option.bind_some]
  by_cases hlen : 0 < len
  · obtain ⟨header, payload, rest, -, haccepted, rfl, rfl⟩ :=
      requestData_accepts hstale hrequest hlen
    have hroom := haccepted.room
    have hcontent := fileContent_payload tblock buffer haccepted.payload_ne (by omega)
    rw [hcontent]
    rfl
  · unfold fileContent
    rw [if_neg hlen]
    rfl

/-- A reply that announces nearly four gigabytes. -/
def oversizedReply : Text :=
  ascii "Content-Length: 4294967290\r\n\r\nx"

theorem download_total_oversized :
    ((downloadFile [] [] (Cells.fill 0) (Cells.fill 0) ⟨125, 0, 3, 1, 12, 0, 0⟩).run network
      ⟨true, 3, 0, 0, 41, [.bytes oversizedReply]⟩).result.isSome := by
  have hfirst : FirstAt (ascii "\r\n\r\n") (oversizedReply ++ []) 26 :=
    find_eq_some_iff.mp (by decide)
  refine download_total noLineFeed_fill last_fill (by decide) ?_ [] [] (Cells.fill 0) _
  intro h hend
  rw [hend.first.unique hfirst]
  decide

end AnolClient

end RobotServer
