import RobotServer.Downloads.ReplyLoop

/-!
# Pieces — a reply cut into reads

`Response` is a reply as the server is meant to send it.  `Response.state` tells where the loop is
when a part of it has come, by the length of the part alone: so it does not matter where the cuts
are (`requestData_in_pieces`).
-/

namespace RobotServer

open CText Memory Interaction Search

namespace AnolClient

/-! ## Reading the length -/

theorem digitsValue_append (n : Nat) {c : Byte} (hc : isDigit c = false) (behind : Text) :
    digitsValue (natText n ++ c :: behind) = n := by
  have hdigits : (natText n ++ c :: behind).takeWhile isDigit = natText n := by
    rw [List.takeWhile_append_of_pos (isDigit_natText n), List.takeWhile_cons_of_neg (by simp [hc]),
      List.append_nil]
  have hvalue := digitsValue_natText n
  unfold digitsValue at hvalue ⊢
  rw [hdigits]
  rwa [List.takeWhile_eq_self_iff.mpr (isDigit_natText n)] at hvalue

theorem signedValue_append (n : Nat) {c : Byte} (hc : isDigit c = false) (behind : Text) :
    signedValue (0x20 :: (natText n ++ c :: behind)) = n := by
  have hvalue := digitsValue_append n hc behind
  have hdigits := isDigit_natText n
  cases htext : natText n with
  | nil => exact absurd htext (natText_ne_nil n)
  | cons d digits =>
      rw [htext] at hdigits hvalue
      obtain ⟨hspace, hminus, hplus⟩ := isDigit_not_special (hdigits d List.mem_cons_self)
      have hblank : isSpace 0x20 = true := rfl
      have hdrop : (0x20 :: (d :: digits ++ c :: behind)).dropWhile isSpace =
          d :: (digits ++ c :: behind) := by
        rw [List.dropWhile_cons_of_pos hblank, List.cons_append,
          List.dropWhile_cons_of_neg (by rw [hspace]; decide)]
      unfold signedValue
      rw [hdrop]
      change (if d = 0x2D then _ else if d = 0x2B then _ else _) = _
      rw [if_neg hminus, if_neg hplus]
      exact congrArg _ hvalue

theorem scanContentLength_append {n : Nat} (hn : n < 2 ^ 32) {c : Byte} (hc : isDigit c = false)
    (behind : Text) :
    scanContentLength (ascii "Content-Length: " ++ (natText n ++ c :: behind)) = n := by
  have hkey : ascii "Content-Length: " ++ (natText n ++ c :: behind) =
      ascii "Content-Length:" ++ 0x20 :: (natText n ++ c :: behind) := rfl
  unfold scanContentLength scanUnsigned
  rw [hkey, if_pos (List.isPrefixOf_iff_prefix.mpr (List.prefix_append _ _)), List.drop_left,
    signedValue_append n hc, if_pos (by omega)]
  omega

def headerText (before : Text) (n : Nat) (after : Text) : Text :=
  before ++ ascii "Content-Length: " ++ natText n ++ after

/-- The header is a string that gives the length `n`, and no other one in front of it. -/
structure GivesLength (before : Text) (n : Nat) (after : Text) : Prop where
  string : 0 ∉ headerText before n after
  length_first : FirstAt (ascii "Content-Length") (headerText before n after) before.length
  length_ends : ∀ c rest, after = c :: rest → isDigit c = false
  length_lt : n < 2 ^ 32

namespace GivesLength

variable {before after : Text} {n : Nat}

/-- What stands in the array behind the place of the length. -/
theorem exists_length_text (hgives : GivesLength before n after) (behind : Text) :
    ∃ c rest, isDigit c = false ∧ headerText before n after ++ ascii "\r\n\r\n" ++ behind =
      before ++ (ascii "Content-Length: " ++ (natText n ++ c :: rest)) := by
  have hassoc : headerText before n after ++ ascii "\r\n\r\n" ++ behind =
      before ++ (ascii "Content-Length: " ++
        (natText n ++ (after ++ (ascii "\r\n\r\n" ++ behind)))) := by
    rw [headerText]
    simp only [List.append_assoc]
  rw [hassoc]
  cases hafter : after with
  | nil => exact ⟨0x0D, _, rfl, rfl⟩
  | cons c rest => exact ⟨c, _, hgives.length_ends c rest hafter, rfl⟩

/-- The length that is given is the one that is read, whatever stands behind the header. -/
theorem announcement_eq (hgives : GivesLength before n after) (stale : ReplyBuffer)
    (behind : Text)
    (hfits : (headerText before n after ++ ascii "\r\n\r\n" ++ behind).length ≤ bufferSize) :
    announcement stale (headerText before n after ++ ascii "\r\n\r\n" ++ behind) = some n := by
  obtain ⟨old, hmemory⟩ : ∃ old, memory
      (stale.place 0 (headerText before n after ++ ascii "\r\n\r\n" ++ behind)) =
        headerText before n after ++ ascii "\r\n\r\n" ++ (behind ++ old) :=
    ⟨_, (memory_received stale hfits).trans (List.append_assoc _ _ _)⟩
  have hstring : 0 ∉ headerText before n after ++ ascii "\r\n\r\n" := fun hmem =>
    (List.mem_append.mp hmem).elim hgives.string (by decide)
  have hplace : find (ascii "Content-Length") (cstr (headerText before n after ++
      ascii "\r\n\r\n" ++ (behind ++ old))) = some before.length := by
    rw [cstr_append hstring, List.append_assoc]
    exact find_eq_some_iff.mpr hgives.length_first.append
  obtain ⟨c, rest, hc, htext⟩ := hgives.exists_length_text (behind ++ old)
  rw [announcement, hmemory, hplace, Option.map_some, htext, List.drop_left]
  exact congrArg some (scanContentLength_append hgives.length_lt hc rest)

end GivesLength

/-! ## A response -/

/-- A reply of the server: a header with the length of the payload and its type, a blank line and
the payload. -/
structure Response where
  before : Text
  after : Text
  payload : Text
  payload_ne : payload ≠ []
  string : 0 ∉ headerText before payload.length after
  length_first : FirstAt (ascii "Content-Length") (headerText before payload.length after)
    before.length
  length_ends : ∀ c rest, after = c :: rest → isDigit c = false
  ubx : ascii "Content-Type: application/ubx" <:+: headerText before payload.length after
  blank_first : FirstAt (ascii "\r\n\r\n")
    (headerText before payload.length after ++ ascii "\r\n\r\n")
    (headerText before payload.length after).length
  fits : (headerText before payload.length after ++ ascii "\r\n\r\n" ++ payload).length < bufferSize

namespace Response

variable (r : Response)

def header : Text :=
  headerText r.before r.payload.length r.after

def text : Text :=
  r.header ++ ascii "\r\n\r\n" ++ r.payload

theorem length_text : r.text.length = r.header.length + 4 + r.payload.length := by
  rw [text, List.length_append, List.length_append]
  rfl

theorem drop_text : r.text.drop (r.header.length + 4) = r.payload := by
  have hlength : (r.header ++ ascii "\r\n\r\n").length = r.header.length + 4 := by
    rw [List.length_append]
    rfl
  rw [text, ← hlength, List.drop_left]

/-- The state of the loop when `received` has come. -/
def state (stale : ReplyBuffer) (received : Text) : Progress :=
  if received.length < r.header.length + 4 then searching stale received
  else announced stale received r.header.length r.payload.length

variable {r} {stale : ReplyBuffer} {received data : Text}

theorem exists_behind (hreceived : received <+: r.text)
    (hlength : r.header.length + 4 ≤ received.length) :
    ∃ behind, received = r.header ++ ascii "\r\n\r\n" ++ behind := by
  have hprefix : r.header ++ ascii "\r\n\r\n" <+: received := by
    refine List.prefix_of_prefix_length_le (List.prefix_append _ r.payload) hreceived ?_
    rw [List.length_append]
    exact hlength
  rcases hprefix with ⟨behind, hbehind⟩
  exact ⟨behind, hbehind.symm⟩

theorem headerEnd (hreceived : received <+: r.text)
    (hlength : r.header.length + 4 ≤ received.length) : HeaderEnd received r.header.length := by
  rcases exists_behind hreceived hlength with ⟨behind, rfl⟩
  refine ⟨r.blank_first.append, ?_⟩
  rw [List.append_assoc, List.take_left]
  exact r.string

theorem header_length_of_headerEnd (hreceived : received <+: r.text) {h : Nat}
    (hend : HeaderEnd received h) : h = r.header.length := by
  rcases hreceived with ⟨rest, hrest⟩
  have hfirst := (hend.append rest).first
  rw [hrest] at hfirst
  exact hfirst.unique r.blank_first.append

theorem length_lt (hreceived : received <+: r.text) : received.length < bufferSize :=
  hreceived.length_le.trans_lt r.fits

/-- Before the header has come as a whole nothing is found. -/
theorem parseHeader_wait (hstale : NoLineFeed stale) (hlast : stale.peek (bufferSize - 1) = 0)
    (hreceived : received <+: r.text) (hlength : received.length < r.header.length + 4) :
    parseHeader (searching stale received) = some (searching stale received) := by
  have hnone : find (ascii "\r\n\r\n") (cstr (memory (stale.place 0 received))) = none := by
    rw [Option.eq_none_iff_forall_ne_some]
    intro h hfound
    have hend := headerEnd_of_found hstale (length_lt hreceived).le (find_eq_some_iff.mp hfound)
    have hle := hend.add_le
    rw [header_length_of_headerEnd hreceived hend] at hle
    omega
  unfold parseHeader
  change Option.bind (strstr (stale.place 0 received) _) _ = _
  rw [(holds_searching hlast (length_lt hreceived)).strstr, hnone]
  rfl

/-- The header of a response gives the length of its payload. -/
theorem givesLength : GivesLength r.before r.payload.length r.after := by
  have hpayload := length_lt (List.prefix_refl r.text)
  rw [r.length_text] at hpayload
  have hsize : bufferSize = 8192 := rfl
  exact ⟨r.string, r.length_first, r.length_ends, by omega⟩

/-- Once the header has come as a whole the length is read. -/
theorem parseHeader_announces (hlast : stale.peek (bufferSize - 1) = 0)
    (hreceived : received <+: r.text) (hlength : r.header.length + 4 ≤ received.length) :
    parseHeader (searching stale received) =
      some (announced stale received r.header.length r.payload.length) := by
  have hholds := holds_searching hlast (length_lt hreceived)
  rcases exists_behind hreceived hlength with ⟨behind, hbehind⟩
  have hmemory : memory (stale.place 0 received) = r.header ++ ascii "\r\n\r\n" ++
      (behind ++ stale.slice received.length (bufferSize - received.length)) := by
    rw [memory_received stale (length_lt hreceived).le, ← List.append_assoc, ← hbehind]
  have hstring : 0 ∉ r.header ++ ascii "\r\n\r\n" := fun hmem =>
    (List.mem_append.mp hmem).elim r.string (by decide)
  have hblank : find (ascii "\r\n\r\n") (cstr (memory (stale.place 0 received))) =
      some r.header.length := by
    rw [hmemory, cstr_append hstring]
    exact find_eq_some_iff.mpr r.blank_first.append
  have hannounces : announcement stale received = some r.payload.length := by
    have hfits := (length_lt hreceived).le
    rw [hbehind] at hfits ⊢
    exact givesLength.announcement_eq stale behind hfits
  rcases Option.map_eq_some_iff.mp hannounces with ⟨pContentLength, hplace, hscan⟩
  have hpos : 0 < r.payload.length := List.length_pos_of_ne_nil r.payload_ne
  unfold parseHeader
  change Option.bind (strstr (stale.place 0 received) _) _ = _
  rw [hholds.strstr, hblank, Option.bind_some]
  change Option.bind (strstr (stale.place 0 received) _) _ = _
  rw [hholds.strstr, hplace, Option.bind_some]
  change (if 0 < scanContentLength ((memory (stale.place 0 received)).drop pContentLength)
    then _ else _) = _
  rw [hscan, if_pos hpos]
  dsimp only [announced, searching]
  rw [hscan]

/-- One more part of the response: how it was cut before does not matter. -/
theorem parseHeader_state (hstale : NoLineFeed stale) (hlast : stale.peek (bufferSize - 1) = 0)
    (hreceived : received ++ data <+: r.text) :
    parseHeader ((r.state stale received).store data) = some (r.state stale (received ++ data)) := by
  have hbefore : received <+: r.text := (List.prefix_append received data).trans hreceived
  have hlength := @List.length_append _ received data
  unfold state
  by_cases hheader : received.length < r.header.length + 4
  · rw [if_pos hheader, store_searching]
    by_cases hheader' : (received ++ data).length < r.header.length + 4
    · rw [if_pos hheader', parseHeader_wait hstale hlast hreceived hheader']
    · rw [if_neg hheader', parseHeader_announces hlast hreceived (Nat.not_lt.mp hheader')]
  · have hend := headerEnd hbefore (Nat.not_lt.mp hheader)
    rw [if_neg hheader, if_neg (by omega), store_announced stale hend,
      parseHeader_announced stale (hend.append data) (length_lt hreceived).le]

theorem state_totalLength : (r.state stale received).totalLength = received.length := by
  unfold state
  split <;> rfl

theorem state_text : r.state stale r.text =
    announced stale r.text r.header.length r.payload.length := by
  unfold state
  rw [if_neg (by rw [r.length_text]; omega)]

/-- As long as a part is missing the loop goes on. -/
theorem state_room (hreceived : received <+: r.text) (hmissing : received.length < r.text.length) :
    ((r.state stale received).totalLength : Int) < (r.state stale received).expectedLength ∧
      (r.state stale received).totalLength < bufferSize := by
  have hsize : bufferSize = 8192 := rfl
  have hlt := length_lt hreceived
  have hwhole := length_lt (List.prefix_refl r.text)
  unfold state
  split
  case isTrue =>
      dsimp only [searching]
      omega
  case isFalse =>
      have hexpected : ((r.header.length + r.payload.length + 4 : Nat) : Int).bmod (2 ^ 32) =
          (r.header.length + r.payload.length + 4 : Nat) := natCast_bmod_of_lt (by
        rw [r.length_text] at hwhole
        omega)
      rw [r.length_text] at hmissing
      dsimp only [announced]
      rw [hexpected]
      omega

end Response

/-- A `read` of what fits. -/
theorem Network.read_bytes {w : Network} {t : Text} {rest : List Incoming} {room : Nat}
    (hincoming : w.incoming = .bytes t :: rest) (hroom : t.length ≤ room) :
    ∃ got, w.read room = (got, { w with incoming := rest }) ∧ got.data = t ∧
      got.readLength = t.length := by
  unfold read
  rw [hincoming]
  simp only
  rw [if_pos (List.drop_eq_nil_iff.mpr hroom)]
  refine ⟨_, rfl, List.take_of_length_le hroom, ?_⟩
  exact congrArg _ (congrArg _ (List.take_of_length_le hroom))

/-- The loop ends with the whole response. -/
theorem readReply_pieces (r : Response) {stale : ReplyBuffer} (hstale : NoLineFeed stale)
    (hlast : stale.peek (bufferSize - 1) = 0) (agpsSocket : Int) (later : List Incoming) :
    ∀ (pieces : List Text) {received : Text} {rounds : Nat} {w : Network},
      (∀ piece ∈ pieces, piece ≠ []) → received ++ pieces.flatten = r.text →
        pieces.length ≤ rounds → w.incoming = pieces.map .bytes ++ later →
          ((readReply agpsSocket rounds (r.state stale received)).run network w).result =
            some (.ok (r.state stale r.text)) := by
  intro pieces
  induction pieces with
  | nil =>
      intro received rounds w _ htext _ _
      rw [List.flatten_nil, List.append_nil] at htext
      subst htext
      have hend := Response.headerEnd (List.prefix_refl r.text)
        (by rw [r.length_text]; exact Nat.le_add_right _ _)
      obtain ⟨hexpected, -⟩ := announced_complete stale hend r.fits.le r.length_text.symm
      rw [Response.state_text, readReply_done fun hroom => (Int.ne_of_lt hroom.1) hexpected.symm]
      rfl
  | cons piece pieces ih =>
      intro received rounds w hpieces htext hrounds hincoming
      rw [List.flatten_cons, ← List.append_assoc] at htext
      have hpiece := List.length_pos_of_ne_nil (hpieces piece List.mem_cons_self)
      have hprefix : received ++ piece <+: r.text := ⟨_, htext⟩
      have hbefore : received <+: r.text := (List.prefix_append received piece).trans hprefix
      have hlength := Response.length_lt hprefix
      have hle := hprefix.length_le
      rw [List.length_append] at hlength hle
      cases rounds with
      | zero => exact absurd hrounds (Nat.not_succ_le_zero _)
      | succ rounds =>
          have htotal := @Response.state_totalLength r stale received
          obtain ⟨got, hread, hdata, hgot⟩ := Network.read_bytes hincoming
            (by omega : piece.length ≤ bufferSize - (r.state stale received).totalLength)
          rw [readReply_round (Response.state_room hbefore (by omega)) hread, if_neg (by omega),
            hdata, Response.parseHeader_state hstale hlast hprefix, Option.bind_some]
          exact ih (fun piece' hmem => hpieces piece' (List.mem_cons_of_mem _ hmem)) htext
            (Nat.le_of_succ_le_succ hrounds) rfl

theorem requestData_in_pieces (r : Response) {stale : ReplyBuffer} (hstale : NoLineFeed stale)
    (hlast : stale.peek (bufferSize - 1) = 0) {pieces : List Text}
    (hpieces : ∀ piece ∈ pieces, piece ≠ []) (htext : pieces.flatten = r.text)
    {w : Network} (hconnects : w.Connects) {later : List Incoming}
    (hincoming : w.incoming = pieces.map .bytes ++ later) (connectTo request : Text)
    (buffer : Cells bufferSize Byte) :
    ((requestData connectTo request buffer stale).run network w).result =
      some ((r.payload.length : Int), buffer.place 8 r.payload) := by
  have hsize : bufferSize = 8192 := rfl
  have hwhole : r.text.length < bufferSize := r.fits
  have hrounds : pieces.length ≤ bufferSize := by
    have hsum := List.length_le_sum_of_one_le (pieces.map List.length) fun n hn => by
      rcases List.mem_map.mp hn with ⟨piece, hpiece, rfl⟩
      exact List.length_pos_of_ne_nil (hpieces piece hpiece)
    rw [List.length_map, ← List.length_flatten, htext] at hsum
    exact hsum.trans hwhole.le
  have hstart : searching stale [] = r.state stale [] :=
    (if_pos (Nat.succ_pos _)).symm
  have hend := Response.headerEnd (List.prefix_refl r.text)
    (by rw [r.length_text]; exact Nat.le_add_right _ _)
  have hubx : ascii "Content-Type: application/ubx" <:+: r.text.take r.header.length := by
    rw [Response.text, List.append_assoc, List.take_left]
    exact r.ubx
  have hheader := header_length hubx
  have hlength := r.length_text
  rw [run_requestData, if_pos hconnects, hstart,
    readReply_pieces r hstale hlast w.socket later pieces hpieces htext hrounds hincoming,
    Option.bind_some]
  change forward (r.state stale r.text) buffer 8 bufferSize = _
  rw [Response.state_text, forward_payload stale hend hwhole.le
    (List.length_pos_of_ne_nil r.payload_ne) hlength.symm hubx (by omega) (by omega), r.drop_text]

end AnolClient

end RobotServer
