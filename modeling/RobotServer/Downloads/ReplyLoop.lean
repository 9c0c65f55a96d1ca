import RobotServer.Model.AnolClient

/-!
# ReplyLoop — how a download collects its reply

The loop is in one of two states: it is `searching` the reply for the end of its header, or the
length of the payload is `announced` and a NUL ends the header.  `Collected.parse` is the step from
one `read` to the next; `run_requestData` leads the whole function back to the loop and to `forward`.
-/

namespace RobotServer

open CText Memory Interaction Search

namespace AnolClient

/-! ## The array -/

/-- The array is a string, with `text` in it. -/
structure Holds (reply : ReplyBuffer) (text : Text) : Prop where
  ends : 0 ∈ memory reply
  text_eq : cstr (memory reply) = text

theorem Holds.strstr {reply : ReplyBuffer} {text : Text} (h : Holds reply text) (key : String) :
    strstr reply key = some (find (ascii key) text) := by
  unfold AnolClient.strstr
  rw [if_pos h.ends, h.text_eq]

theorem holds_of_strstr {reply : ReplyBuffer} {key : String} {found : Option Nat}
    (h : strstr reply key = some found) : Holds reply (cstr (memory reply)) := by
  unfold strstr at h
  split at h
  case isTrue hends => exact ⟨hends, rfl⟩
  case isFalse => cases h

variable {stale : ReplyBuffer} {received data : Text} {h : Nat}

/-- The bytes received, and behind them what the array held before. -/
theorem memory_received (stale : ReplyBuffer) (hfits : received.length ≤ bufferSize) :
    memory (stale.place 0 received) =
      received ++ stale.slice received.length (bufferSize - received.length) := by
  have hslice := @Cells.slice_place_over bufferSize Byte _ stale received 0 bufferSize
    (by omega) (by omega)
  rw [List.drop_zero, Nat.zero_max, Nat.zero_add] at hslice
  exact hslice

theorem memory_place (reply : ReplyBuffer) (i : Nat) (b : Byte) :
    memory (reply.place i [b]) = (memory reply).set i b :=
  Cells.slice_place_singleton reply i b

/-! ## The end of the header -/

/-- The header ends at `h`, with a blank line behind it. -/
structure HeaderEnd (received : Text) (h : Nat) : Prop where
  first : FirstAt (ascii "\r\n\r\n") received h
  string : 0 ∉ received.take h

theorem HeaderEnd.add_le (hend : HeaderEnd received h) : h + 4 ≤ received.length :=
  hend.first.occurs.add_length_le

theorem HeaderEnd.append (hend : HeaderEnd received h) (data : Text) :
    HeaderEnd (received ++ data) h := by
  refine ⟨hend.first.append, ?_⟩
  rw [List.take_append_of_le_length (by have := hend.add_le; omega)]
  exact hend.string

/-! ## The two states of the loop -/

/-- The end of the header has not been seen. -/
def searching (stale : ReplyBuffer) (received : Text) : Progress :=
  ⟨stale.place 0 received, received.length, 10000000, 0, none⟩

/-- The header ends at `h` and has announced `n` bytes. -/
def announced (stale : ReplyBuffer) (received : Text) (h n : Nat) : Progress :=
  ⟨(stale.place 0 received).place h [0], received.length, ((h + n + 4 : Nat) : Int).bmod (2 ^ 32),
    (n : Int).bmod (2 ^ 32), some (h + 4)⟩

theorem start_eq (stale : ReplyBuffer) : Progress.start stale = searching stale [] := by
  rw [searching, Cells.place_nil]
  rfl

theorem place_received (stale : ReplyBuffer) (received data : Text) :
    (stale.place 0 received).place received.length data = stale.place 0 (received ++ data) := by
  have hplace := Cells.place_place stale 0 received data
  rwa [Nat.zero_add] at hplace

theorem store_searching (stale : ReplyBuffer) (received data : Text) :
    (searching stale received).store data = searching stale (received ++ data) := by
  unfold Progress.store searching
  rw [place_received, List.length_append]

theorem store_announced (stale : ReplyBuffer) {n : Nat} (hend : HeaderEnd received h)
    (data : Text) : (announced stale received h n).store data =
      announced stale (received ++ data) h n := by
  have hlt : h < received.length := by
    have hle := hend.add_le
    omega
  unfold Progress.store announced
  rw [Cells.place_singleton_comm _ _ _ hlt, place_received, List.length_append]

/-! ## What the array holds -/

/-- The array holds no line feed before the first `read`. -/
def NoLineFeed (stale : ReplyBuffer) : Prop :=
  ∀ i, i < bufferSize → stale.peek i ≠ 0x0A

theorem NoLineFeed.notMem (hstale : NoLineFeed stale) {off len : Nat}
    (hfits : off + len ≤ bufferSize) : 0x0A ∉ stale.slice off len := by
  intro hmem
  rcases List.mem_map.mp hmem with ⟨i, hi, hpeek⟩
  exact hstale (off + i) (by have := List.mem_range.mp hi; omega) hpeek

/-- A blank line in the array has been received. -/
theorem blankLine_received (hstale : NoLineFeed stale) (hfits : received.length ≤ bufferSize)
    (hoccurs : OccursAt (ascii "\r\n\r\n") (memory (stale.place 0 received)) h) :
    h + 4 ≤ received.length := by
  rw [memory_received stale hfits] at hoccurs
  obtain ⟨hlength, helem⟩ := occursAt_iff_getElem?.mp hoccurs
  have hfeed := helem 3 (by decide)
  -- The line feed at its end cannot be an old one.
  refine Nat.not_lt.mp fun hlt => hstale.notMem
    (by omega : received.length + (bufferSize - received.length) ≤ bufferSize) ?_
  rw [List.getElem?_append_right (by omega)] at hfeed
  exact List.mem_of_getElem? hfeed

/-- The array with a NUL behind the header holds the header. -/
theorem holds_announced (stale : ReplyBuffer) {n : Nat} (hend : HeaderEnd received h)
    (hfits : received.length ≤ bufferSize) :
    Holds (announced stale received h n).reply (received.take h) := by
  have hle := hend.add_le
  have hmemory : memory (announced stale received h n).reply = received.take h ++ 0 ::
      (memory (stale.place 0 received)).drop (h + 1) := by
    rw [announced, memory_place, List.set_eq_take_append_cons_drop, memory_received stale hfits,
      if_pos (by rw [List.length_append]; omega), List.take_append_of_le_length (by omega)]
  constructor
  · rw [hmemory]
    exact List.mem_append_right _ List.mem_cons_self
  · rw [hmemory]
    exact cstr_append_zero hend.string _

theorem zero_mem_behind (hlast : stale.peek (bufferSize - 1) = 0)
    (hlength : received.length < bufferSize) :
    0 ∈ stale.slice received.length (bufferSize - received.length) := by
  refine List.mem_map.mpr ⟨bufferSize - 1 - received.length, List.mem_range.mpr (by omega), ?_⟩
  rw [← hlast]
  congr 1
  omega

/-- A reply in front of the last cell is a string. -/
theorem holds_searching (hlast : stale.peek (bufferSize - 1) = 0)
    (hlength : received.length < bufferSize) :
    Holds (stale.place 0 received) (cstr (memory (stale.place 0 received))) := by
  refine ⟨?_, rfl⟩
  rw [memory_received stale hlength.le]
  exact List.mem_append_right _ (zero_mem_behind hlast hlength)

/-! ## One round -/

theorem cstr_prefix (t : Text) : cstr t <+: t :=
  List.takeWhile_prefix _

theorem zero_notMem_cstr (t : Text) : 0 ∉ cstr t := by
  intro hmem
  have hne := List.mem_takeWhile_imp hmem
  simp at hne

theorem cstr_append {t : Text} (hstring : 0 ∉ t) (behind : Text) :
    cstr (t ++ behind) = t ++ cstr behind := by
  refine List.takeWhile_append_of_pos fun b hb => ?_
  exact decide_eq_true fun hzero => hstring (hzero ▸ hb)

/-- The blank line that the search finds is one that has been received. -/
theorem headerEnd_of_found (hstale : NoLineFeed stale) (hfits : received.length ≤ bufferSize)
    (hfound : FirstAt (ascii "\r\n\r\n") (cstr (memory (stale.place 0 received))) h) :
    HeaderEnd received h := by
  obtain ⟨behind, hbehind⟩ := cstr_prefix (memory (stale.place 0 received))
  have hin : h + 4 ≤ (cstr (memory (stale.place 0 received))).length :=
    hfound.occurs.add_length_le
  have hle : h + 4 ≤ received.length := by
    refine blankLine_received hstale hfits ?_
    rw [← hbehind]
    exact (occursAt_append_iff hin).mpr hfound.occurs
  have hmemory := memory_received stale hfits
  -- In front of `h + 4` the string and what has been received are the same.
  have hsame : ∀ q, q ≤ h → (OccursAt (ascii "\r\n\r\n") received q ↔
      OccursAt (ascii "\r\n\r\n") (cstr (memory (stale.place 0 received))) q) := by
    intro q hq
    have hlength : (ascii "\r\n\r\n").length = 4 := rfl
    calc OccursAt (ascii "\r\n\r\n") received q
        ↔ OccursAt (ascii "\r\n\r\n") (memory (stale.place 0 received)) q := by
          rw [hmemory, occursAt_append_iff (by rw [hlength]; omega)]
      _ ↔ OccursAt (ascii "\r\n\r\n")
            (cstr (memory (stale.place 0 received)) ++ behind) q := by rw [hbehind]
      _ ↔ OccursAt (ascii "\r\n\r\n") (cstr (memory (stale.place 0 received))) q :=
          occursAt_append_iff (by rw [hlength]; omega)
  refine ⟨⟨(hsame h le_rfl).mpr hfound.occurs, fun q hq hoccurs =>
    hfound.first q hq ((hsame q hq.le).mp hoccurs)⟩, ?_⟩
  have htake : received.take h = (cstr (memory (stale.place 0 received))).take h := by
    calc received.take h
        = (memory (stale.place 0 received)).take h := by
          rw [hmemory, List.take_append_of_le_length (by omega)]
      _ = (cstr (memory (stale.place 0 received)) ++ behind).take h := by rw [hbehind]
      _ = (cstr (memory (stale.place 0 received))).take h :=
          List.take_append_of_le_length (by omega)
  rw [htake]
  exact fun hmem => zero_notMem_cstr _ (List.mem_of_mem_take hmem)

theorem scanContentLength_lt (t : Text) : scanContentLength t < 2 ^ 32 := by
  unfold scanContentLength scanUnsigned
  split
  · split <;> omega
  · omega

/-- The length that is read when `received` has come: the one behind the first "Content-Length" in
the array. -/
def announcement (stale : ReplyBuffer) (received : Text) : Option Nat :=
  (find (ascii "Content-Length") (cstr (memory (stale.place 0 received)))).map fun p =>
    scanContentLength ((memory (stale.place 0 received)).drop p)

/-- The header ends at `h`, and when it had come the length `n` was read. -/
structure Announces (stale : ReplyBuffer) (received : Text) (h n : Nat) : Prop where
  ends : HeaderEnd received h
  length : ∃ seen, seen <+: received ∧ HeaderEnd seen h ∧ announcement stale seen = some n

theorem Announces.append {n : Nat} (h' : Announces stale received h n) (data : Text) :
    Announces stale (received ++ data) h n := by
  rcases h'.length with ⟨seen, hseen, hend, hlength⟩
  exact ⟨h'.ends.append data, seen, hseen.trans (List.prefix_append _ _), hend, hlength⟩

theorem Announces.lt {n : Nat} (h' : Announces stale received h n) : n < 2 ^ 32 := by
  rcases h'.length with ⟨seen, -, -, hlength⟩
  rcases Option.map_eq_some_iff.mp hlength with ⟨p, -, hscan⟩
  rw [← hscan]
  exact scanContentLength_lt _

/-- The loop has collected `received`. -/
def Collected (stale : ReplyBuffer) (received : Text) (s : Progress) : Prop :=
  s = searching stale received ∨
    ∃ h n, Announces stale received h n ∧ 0 < n ∧ s = announced stale received h n

theorem parseHeader_searching (hstale : NoLineFeed stale) (hfits : received.length ≤ bufferSize)
    {s : Progress} (hparse : parseHeader (searching stale received) = some s) :
    Collected stale received s := by
  unfold parseHeader at hparse
  obtain ⟨headerEnd, hstrstr, hparse⟩ := Option.bind_eq_some_iff.mp hparse
  have hholds := holds_of_strstr hstrstr
  rw [hholds.strstr, Option.some.injEq] at hstrstr
  cases headerEnd with
  | none =>
      cases hparse
      exact .inl rfl
  | some h =>
      obtain ⟨found, hfound, hparse⟩ := Option.bind_eq_some_iff.mp hparse
      obtain ⟨pContentLength, hplace, hparse⟩ := Option.bind_eq_some_iff.mp hparse
      have hend := headerEnd_of_found hstale hfits (find_eq_some_iff.mp hstrstr)
      rw [hholds.strstr, Option.some.injEq, hplace] at hfound
      simp only at hparse
      split at hparse
      case isTrue hpos =>
          cases hparse
          exact .inr ⟨h, _, ⟨hend, received, List.prefix_refl _, hend,
            Option.map_eq_some_iff.mpr ⟨_, hfound, rfl⟩⟩, hpos, rfl⟩
      case isFalse =>
          cases hparse
          exact .inl rfl

/-- Behind the NUL no second header is looked for. -/
theorem parseHeader_announced (stale : ReplyBuffer) {n : Nat} (hend : HeaderEnd received h)
    (hfits : received.length ≤ bufferSize) :
    parseHeader (announced stale received h n) = some (announced stale received h n) := by
  have hnone : find (ascii "\r\n\r\n") (received.take h) = none := by
    refine find_eq_none_iff.mpr fun p hoccurs => ?_
    have hlength : p + 4 ≤ (received.take h).length := hoccurs.add_length_le
    rw [List.length_take] at hlength
    exact hend.first.first p (by omega) hoccurs.of_take
  unfold parseHeader
  rw [(holds_announced stale hend hfits).strstr, hnone]
  rfl

theorem Collected.parse (hstale : NoLineFeed stale) {s s' : Progress}
    (hs : Collected stale received s) (hfits : (received ++ data).length ≤ bufferSize)
    (hparse : parseHeader (s.store data) = some s') : Collected stale (received ++ data) s' := by
  rcases hs with rfl | ⟨h, n, hannounces, hpos, rfl⟩
  · rw [store_searching] at hparse
    exact parseHeader_searching hstale hfits hparse
  · have hend := hannounces.ends
    rw [store_announced stale hend, parseHeader_announced stale (hend.append data) hfits] at hparse
    cases hparse
    exact .inr ⟨h, n, hannounces.append data, hpos, rfl⟩

theorem Collected.totalLength {s : Progress} (hs : Collected stale received s) :
    s.totalLength = received.length := by
  rcases hs with rfl | ⟨h, n, -, -, rfl⟩ <;> rfl

/-- A `read` stays in the array. -/
theorem Collected.fits {s : Progress} (hs : Collected stale received s)
    (hfits : received.length ≤ bufferSize) (got : Received (bufferSize - s.totalLength)) :
    (received ++ got.data).length ≤ bufferSize := by
  have htotal := hs.totalLength
  have hgot := got.fits
  rw [List.length_append]
  omega

/-! ## A network -/

/-- What a `read` finds. -/
inductive Incoming where
  | bytes (t : Text)
  | closed
  | failed

/-- The replies to the calls in front of the loop, and what arrives. -/
structure Network where
  found : Bool
  socket : Int
  connected : Int
  options : Int
  written : Int
  incoming : List Incoming

namespace Network

def arriving : List Incoming → Text
  | [] => []
  | .bytes t :: rest => t ++ arriving rest
  | .closed :: rest => arriving rest
  | .failed :: rest => arriving rest

/-- A `read` takes what has arrived at once, as far as there is room for it. -/
def read (room : Nat) (w : Network) : Received room × Network :=
  match w.incoming with
  | .bytes t :: rest =>
      (⟨(t.take room).length, t.take room, rfl, List.length_take_le ..⟩,
        { w with incoming := if t.drop room = [] then rest else .bytes (t.drop room) :: rest })
  | .closed :: rest => (⟨0, [], rfl, Nat.zero_le _⟩, { w with incoming := rest })
  | .failed :: rest => (⟨-1, [], rfl, Nat.zero_le _⟩, { w with incoming := rest })
  | [] => (⟨0, [], rfl, Nat.zero_le _⟩, w)

def answer : (c : Call) → Network → c.Reply × Network
  | .lookup _, w => (w.found, w)
  | .socket _, w => (w.socket, w)
  | .connect _ _ _, w => (w.connected, w)
  | .setsockopt _, w => (w.options, w)
  | .write _ _, w => (w.written, w)
  | .read _ room, w => w.read room
  | .close _, w => ((), w)

theorem arriving_read (room : Nat) (w : Network) :
    arriving w.incoming = (w.read room).1.data ++ arriving (w.read room).2.incoming := by
  unfold read
  split
  case h_1 t rest hincoming =>
      rw [hincoming]
      simp only [arriving]
      by_cases hdrop : t.drop room = []
      · rw [if_pos hdrop, List.take_of_length_le (List.drop_eq_nil_iff.mp hdrop)]
      · rw [if_neg hdrop, arriving, ← List.append_assoc, List.take_append_drop]
  case h_2 rest hincoming => rw [hincoming]; rfl
  case h_3 rest hincoming => rw [hincoming]; rfl
  case h_4 hincoming => rw [hincoming]; rfl

end Network

def network : Environment anolInterface Network where
  answer := Network.answer

/-! ## The loop -/

variable {agpsSocket : Int} {rounds : Nat} {s s' : Progress} {w : Network}

theorem readReply_done (hdone : ¬ (s.totalLength < s.expectedLength ∧ s.totalLength < bufferSize)) :
    readReply agpsSocket rounds s = pure (.ok s) := by
  cases rounds with
  | zero => rfl
  | succ rounds => exact if_neg hdone

/-- A round: the result where the loop is left, and else that of the rounds behind it. -/
theorem readReply_round {received : Received (bufferSize - s.totalLength)} {w' : Network}
    (hroom : s.totalLength < s.expectedLength ∧ s.totalLength < bufferSize)
    (hread : w.read (bufferSize - s.totalLength) = (received, w')) :
    ((readReply agpsSocket (rounds + 1) s).run network w).result =
      if received.readLength ≤ 0 then
        some (.error (if received.readLength = 0 then 0 else -1))
      else (parseHeader (s.store received.data)).bind fun s =>
        ((readReply agpsSocket rounds s).run network w').result := by
  have hanswer : network.answer (.read agpsSocket (bufferSize - s.totalLength)) w =
      (received, w') := hread
  rw [readReply, if_pos hroom]
  change (Program.run network (.call _ _) w).result = _
  rw [Program.run_call, hanswer]
  change (Program.run network (if received.readLength ≤ 0 then _ else _) w').result = _
  by_cases hlength : received.readLength ≤ 0
  · rw [if_pos hlength, if_pos hlength]
    rfl
  · rw [if_neg hlength, if_neg hlength]
    cases parseHeader (s.store received.data) with
    | none => rfl
    | some s => rfl

/-- Where the loop ends the function it is with an error. -/
def EndsInError : Except Int Progress → Prop
  | .error result => result ≤ 0
  | .ok _ => True

theorem readReply_error (agpsSocket : Int) : ∀ (rounds : Nat) (s : Progress),
    (readReply agpsSocket rounds s).Returns EndsInError := by
  intro rounds
  induction rounds with
  | zero => exact fun _ => trivial
  | succ rounds ih =>
      intro s
      by_cases hroom : s.totalLength < s.expectedLength ∧ s.totalLength < bufferSize
      · rw [readReply, if_pos hroom]
        refine Program.returns_bind_of_forall _ fun received => ?_
        by_cases hlength : received.readLength ≤ 0
        · rw [if_pos hlength]
          change (if received.readLength = 0 then (0 : Int) else -1) ≤ 0
          split <;> decide
        · rw [if_neg hlength]
          -- Without its value, so that nothing is evaluated over the whole array.
          generalize parseHeader (s.store received.data) = parsed
          cases parsed with
          | none => trivial
          | some next => exact ih next
      · rw [readReply_done hroom]
        trivial

/-- What the loop ends with has been collected from the network. -/
theorem readReply_collected (hstale : NoLineFeed stale) : ∀ (rounds : Nat) {received : Text}
    {s : Progress} {w : Network}, Collected stale received s → received.length ≤ bufferSize →
      ((readReply agpsSocket rounds s).run network w).result = some (.ok s') →
        ∃ data rest, Network.arriving w.incoming = data ++ rest ∧
          (received ++ data).length ≤ bufferSize ∧ Collected stale (received ++ data) s' := by
  intro rounds
  induction rounds with
  | zero =>
      intro received s w hs hfits hrun
      cases hrun
      exact ⟨[], _, rfl, by rwa [List.append_nil], by rwa [List.append_nil]⟩
  | succ rounds ih =>
      intro received s w hs hfits hrun
      by_cases hroom : s.totalLength < s.expectedLength ∧ s.totalLength < bufferSize
      · obtain ⟨got, w', hread⟩ : ∃ got w', w.read (bufferSize - s.totalLength) = (got, w') :=
          ⟨_, _, rfl⟩
        have harriving := w.arriving_read (bufferSize - s.totalLength)
        rw [readReply_round hroom hread] at hrun
        rw [hread] at harriving
        split at hrun
        case isTrue => cases hrun
        case isFalse =>
            obtain ⟨next, hparse, hrun⟩ := Option.bind_eq_some_iff.mp hrun
            have hfits' := hs.fits hfits got
            obtain ⟨data, rest, hsplit, hlength, hcollected⟩ :=
              ih (hs.parse hstale hfits' hparse) hfits' hrun
            rw [List.append_assoc] at hlength hcollected
            refine ⟨got.data ++ data, rest, ?_, hlength, hcollected⟩
            rw [harriving, hsplit, List.append_assoc]
      · rw [readReply_done hroom] at hrun
        cases hrun
        exact ⟨[], _, rfl, by rwa [List.append_nil], by rwa [List.append_nil]⟩

/-! ## The payload -/

section Payload

variable {n m offset : Nat} {bufferLength : Int} {buffer : Cells m Byte}

/-- The length that is compared with the received one is the sum as a whole number. -/
theorem expectedLength_iff (hend : HeaderEnd received h) (hfits : received.length ≤ bufferSize)
    (hn : n < 2 ^ 32) :
    ((h + n + 4 : Nat) : Int).bmod (2 ^ 32) = received.length ↔ h + 4 + n = received.length := by
  have hle := hend.add_le
  have hsize : bufferSize = 8192 := rfl
  rw [Int.bmod_def]
  constructor
  · intro heq
    split at heq <;> omega
  · intro heq
    rw [if_pos (by omega)]
    omega

theorem forward_none (hpayload : s.pPayload = none) :
    forward s buffer offset bufferLength = some (-5, buffer) := by
  unfold forward
  rw [hpayload]

theorem forward_incomplete {pPayload : Nat} (hpayload : s.pPayload = some pPayload)
    (hlength : s.expectedLength ≠ s.totalLength) :
    forward s buffer offset bufferLength = some (-5, buffer) := by
  unfold forward
  rw [hpayload]
  exact if_neg fun hcomplete => hlength hcomplete.1

/-- What is done with a reply that has come as a whole, with `header` in front of the NUL. -/
theorem forward_complete {pPayload : Nat} {header : Text} (hpayload : s.pPayload = some pPayload)
    (hcomplete : s.expectedLength = s.totalLength ∧ s.payloadLength ≠ 0)
    (hheader : Holds s.reply header) :
    forward s buffer offset bufferLength =
      (if ascii "Content-Type: application/ubx" <:+: header then
        if s.payloadLength > bufferLength then some (-2, buffer)
        else if s.payloadLength < 0 then none
        else (buffer.copy offset s.reply pPayload s.payloadLength.toNat).map
          fun buffer => (s.payloadLength, buffer)
      else if ascii "Content-Type: text/plain" <:+: header then
        if 0 ∈ (memory s.reply).drop pPayload then some (-3, buffer) else none
      else some (-4, buffer) : Option (Int × Cells m Byte)) := by
  unfold forward
  rw [hpayload]
  change (if _ then _ else _) = _
  rw [if_pos hcomplete, hheader.strstr, hheader.strstr]
  change (if _ then _ else _) = _
  refine if_congr find_isSome_iff ?_ ?_
  · refine if_congr Iff.rfl rfl (if_congr Iff.rfl rfl ?_)
    cases buffer.copy offset s.reply pPayload s.payloadLength.toNat with
    | none => rfl
    | some buffer => rfl
  · exact if_congr find_isSome_iff rfl rfl

/-- The payload in the array. -/
theorem slice_payload (stale : ReplyBuffer) (hfits : received.length ≤ bufferSize)
    (hlength : h + 4 + n = received.length) :
    ((stale.place 0 received).place h [0]).slice (h + 4) n = received.drop (h + 4) := by
  have hslice := @Cells.slice_place_over bufferSize Byte _ stale received (h + 4) n
    (Nat.le_of_eq hlength.symm) (by omega)
  rw [Nat.max_eq_right (by omega), hlength, Nat.sub_self, Cells.slice_zero, List.append_nil]
    at hslice
  rw [← hslice]
  refine Cells.slice_congr fun i hi hin => ?_
  rw [Cells.peek_place_singleton _ _ _ (by omega), if_neg (by omega)]

theorem announced_complete (stale : ReplyBuffer) (hend : HeaderEnd received h)
    (hfits : received.length ≤ bufferSize) (hlength : h + 4 + n = received.length) :
    (announced stale received h n).expectedLength = (announced stale received h n).totalLength ∧
      (announced stale received h n).payloadLength = n := by
  have hsize : bufferSize = 8192 := rfl
  have hexpected := (expectedLength_iff hend hfits (by omega : n < 2 ^ 32)).mpr hlength
  have hpayload : (n : Int).bmod (2 ^ 32) = n := natCast_bmod_of_lt (by omega)
  dsimp only [announced]
  exact ⟨hexpected, hpayload⟩

/-- The payload is handed on where it has come as a whole and fits. -/
theorem forward_payload (stale : ReplyBuffer) (hend : HeaderEnd received h)
    (hfits : received.length ≤ bufferSize) (hn : 0 < n) (hlength : h + 4 + n = received.length)
    (hubx : ascii "Content-Type: application/ubx" <:+: received.take h)
    (hroom : n ≤ bufferLength) (hbuffer : offset + n ≤ m) :
    forward (announced stale received h n) buffer offset bufferLength =
      some ((n : Int), buffer.place offset (received.drop (h + 4))) := by
  obtain ⟨hexpected, hpayload⟩ := announced_complete stale hend hfits hlength
  rw [@forward_complete _ _ _ _ _ (h + 4) _ rfl ⟨hexpected, by omega⟩
    (holds_announced stale hend hfits), if_pos hubx, hpayload, if_neg (by omega),
    if_neg (by omega), Int.toNat_natCast]
  change (buffer.copy _ ((stale.place 0 received).place h [0]) _ n).map _ = _
  rw [Cells.copy_eq_some _ _ _ _ _ hbuffer (by omega), slice_payload stale hfits hlength]
  rfl

/-- The header of a reply with a payload is long enough for the type of the payload. -/
theorem header_length (hubx : ascii "Content-Type: application/ubx" <:+: received.take h) :
    29 ≤ h :=
  hubx.length_le.trans (List.length_take_le h received)

theorem header_split (hend : HeaderEnd received h) :
    received = received.take h ++ ascii "\r\n\r\n" ++ received.drop (h + 4) := by
  rcases hend.first.occurs.2 with ⟨rest, hrest⟩
  have hdrop : received.drop (h + 4) = rest := by
    rw [← List.drop_drop, ← hrest]
    rfl
  rw [hdrop, List.append_assoc, hrest, List.take_append_drop]

/-- Only a payload is handed on. -/
theorem forward_accepts (hs : Collected stale received s) (hfits : received.length ≤ bufferSize)
    {buffer buffer' : Cells bufferSize Byte} {result : Int}
    (hforward : forward s buffer 8 bufferSize = some (result, buffer')) (hresult : 0 < result) :
    ∃ h, Announces stale received h (received.drop (h + 4)).length ∧
      ascii "Content-Type: application/ubx" <:+: received.take h ∧
        result = (received.drop (h + 4)).length ∧
          buffer' = buffer.place 8 (received.drop (h + 4)) := by
  have hsize : bufferSize = 8192 := rfl
  rcases hs with rfl | ⟨h, n, hannounces, hpos, rfl⟩
  · rw [forward_none rfl] at hforward
    cases hforward
    cases hresult
  have hend := hannounces.ends
  have hn := hannounces.lt
  by_cases hlength : h + 4 + n = received.length
  · obtain ⟨hexpected, hpayload⟩ := announced_complete stale hend hfits hlength
    by_cases hubx : ascii "Content-Type: application/ubx" <:+: received.take h
    · have hheader := header_length hubx
      rw [forward_payload stale hend hfits hpos hlength hubx (by omega) (by omega)] at hforward
      cases hforward
      have hpayloadLength : (received.drop (h + 4)).length = n := by
        rw [List.length_drop]
        omega
      exact ⟨h, hpayloadLength.symm ▸ hannounces, hubx, by rw [hpayloadLength], rfl⟩
    · rw [@forward_complete _ _ _ _ _ (h + 4) _ rfl ⟨hexpected, by omega⟩
        (holds_announced stale hend hfits), if_neg hubx] at hforward
      -- The two other types are errors.
      split at hforward
      case isTrue =>
          split at hforward
          case isTrue => cases hforward; cases hresult
          case isFalse => cases hforward
      case isFalse => cases hforward; cases hresult
  · rw [@forward_incomplete _ _ _ _ _ (h + 4) rfl fun hexpected => hlength ?_] at hforward
    · cases hforward
      cases hresult
    · refine (expectedLength_iff hend hfits hn).mp ?_
      dsimp only [announced] at hexpected
      exact hexpected

end Payload

/-! ## The download -/

variable {connectTo request : Text} {proto : Int}

/-- The calls in front of the loop succeed. -/
def Network.Connects (w : Network) : Prop :=
  w.found = true ∧ w.socket ≠ -1 ∧ 0 ≤ w.connected ∧ w.options = 0 ∧ 0 ≤ w.written

instance (w : Network) : Decidable w.Connects :=
  inferInstanceAs (Decidable (_ ∧ _))

/-- The outcome of the loop as the outcome of the function. -/
def handOn {m : Nat} (buffer : Cells m Byte) (offset : Nat) (bufferLength : Int) :
    Except Int Progress → Option (Int × Cells m Byte)
  | .error result => some (result, buffer)
  | .ok s => forward s buffer offset bufferLength

/-- What stands behind the loop. -/
theorem run_handOn (p : Download (Except Int Progress)) {m : Nat} (buffer : Cells m Byte)
    (offset : Nat) (bufferLength : Int) :
    ((p >>= fun received => match received with
      | .error result => pure (result, buffer)
      | .ok s => do
          call (.close agpsSocket)
          Program.ofOption (forward s buffer offset bufferLength)).run network w).result =
      (p.run network w).result.bind (handOn buffer offset bufferLength) := by
  rw [Program.run_bind]
  cases (p.run network w).result with
  | none => rfl
  | some received =>
      cases received with
      | error result => rfl
      | ok s =>
          change (Program.run network (Program.ofOption _) _).result =
            forward s buffer offset bufferLength
          cases forward s buffer offset bufferLength with
          | none => rfl
          | some result => rfl

theorem run_requestData (connectTo request : Text) (buffer : Cells bufferSize Byte)
    (stale : ReplyBuffer) (w : Network) :
    ((requestData connectTo request buffer stale).run network w).result =
      if w.Connects then
        ((readReply w.socket bufferSize (searching stale [])).run network w).result.bind
          (handOn buffer 8 bufferSize)
      else some (0, buffer) := by
  unfold requestData getAssistNowOnlineData
  rw [start_eq]
  -- Every test in front of the loop is one of the parts of `Connects`.
  change (Program.run network (if w.found = false then _ else _) w).result = _
  split
  case isTrue hfound => rw [if_neg fun h => absurd (h.1.symm.trans hfound) (by decide)]; rfl
  rw [if_neg (fun h => h.2 rfl)]
  change (Program.run network (if w.socket = -1 then _ else _) w).result = _
  split
  case isTrue hsocket => rw [if_neg fun h => h.2.1 hsocket]; rfl
  change (Program.run network (if w.connected < 0 then _ else _) w).result = _
  split
  case isTrue hconnected => rw [if_neg fun h => absurd h.2.2.1 (Int.not_le.mpr hconnected)]; rfl
  change (Program.run network (if w.options ≠ 0 then _ else _) w).result = _
  split
  case isTrue hoptions => rw [if_neg fun h => hoptions h.2.2.2.1]; rfl
  change (Program.run network (if w.written < 0 then _ else _) w).result = _
  split
  case isTrue hwritten => rw [if_neg fun h => absurd h.2.2.2.2 (Int.not_le.mpr hwritten)]; rfl
  rename_i hfound hsocket hconnected hoptions hwritten
  have hconnects : w.Connects := ⟨Bool.eq_true_of_not_eq_false hfound, hsocket,
    Int.not_lt.mp hconnected, not_not.mp hoptions, Int.not_lt.mp hwritten⟩
  rw [if_pos hconnects]
  exact run_handOn _ buffer 8 bufferSize

/-! ## The file -/

/-- The file of a payload: the time, a byte that the array held before, and the payload. -/
theorem fileContent_payload (tblock : Tm) (buffer : Cells bufferSize Byte) {payload : List Byte}
    (hne : payload ≠ []) (hfits : 8 + payload.length ≤ bufferSize) :
    fileContent tblock payload.length (buffer.place 8 payload) =
      some (some (writeTimeHeader tblock ++ [buffer.peek 7] ++ payload)) := by
  have hpos := List.length_pos_of_ne_nil hne
  have htime : (writeTimeHeader tblock).length = 7 := rfl
  have hslice := @Cells.slice_place_over bufferSize Byte _ (buffer.place 8 payload)
    (writeTimeHeader tblock) 0 (payload.length + 8) (by omega) (by omega)
  have hrest : (buffer.place 8 payload).slice 7 (1 + payload.length) =
      [buffer.peek 7] ++ payload := by
    rw [Cells.slice_add, Cells.slice_place_self _ _ _ hfits, Cells.slice_succ, Cells.slice_zero,
      Cells.peek_place_of_lt (by omega) (by omega)]
    rfl
  have hcast : (payload.length : Int) + 8 = (payload.length + 8 : Nat) := by omega
  have hlength : 0 + (payload.length + 8) - max 0 7 = 1 + payload.length := by omega
  unfold fileContent
  rw [if_pos (by omega), hcast, Cells.upTo?_of_le (by omega), hslice, List.drop_zero, htime,
    hlength]
  change some (some (writeTimeHeader tblock ++ (buffer.place 8 payload).slice 7 _)) = _
  rw [hrest, ← List.append_assoc]

theorem run_downloadFile (connectTo request : Text) (buffer : Cells bufferSize Byte)
    (stale : ReplyBuffer) (tblock : Tm) (w : Network) :
    ((downloadFile connectTo request buffer stale tblock).run network w).result =
      ((requestData connectTo request buffer stale).run network w).result.bind fun r =>
        fileContent tblock r.1 r.2 := by
  unfold downloadFile
  rw [Program.run_bind]
  cases ((requestData connectTo request buffer stale).run network w).result with
  | none => rfl
  | some r =>
      change (Program.run network (Program.ofOption (fileContent tblock r.1 r.2)) _).result =
        fileContent tblock r.1 r.2
      cases fileContent tblock r.1 r.2 with
      | none => rfl
      | some file => rfl

end AnolClient

end RobotServer
