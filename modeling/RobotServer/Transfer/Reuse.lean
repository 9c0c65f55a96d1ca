import RobotServer.Model.Hex
import RobotServer.Transfer.Upload

/-!
# Reuse — a connection after a finished upload

The branch that completes an upload leaves the offset and the last packet where they are
(`Finished`).  Whatever arrives next is therefore read behind the last packet and completes the
same upload again, until the packet buffer is full and nothing is read any more
(`parse_finished`).  `Reusable` says when this is what a fresh connection would have done.
-/

namespace RobotServer

open CText Memory Interaction

/-! ## Messages -/

/-- The handler the read loop calls for a header byte. -/
def handlerOf (header : Byte) : Option Proc :=
  if header = hdrHeartPacketDevice then some .deviceHeartPacket
  else if header = hdrHeartPacketPhone then some .phoneHeaderPacket
  else if header = hdrCommandPacket then some .phoneCommandPacket
  else if header = hdrLocationData then some .deviceLocationPacket
  else if header = hdrAddDevice then some .phoneAddDevice
  else if header = hdrOperatorUserInfo then some .phoneOperatorUserInfo
  else if header = hdrBaseStationDevice then some .deviceBaseStation
  else if header = hdrBlockDataSend then some .deviceBlockDataSendPacket
  else none

/-- What follows on a connection: a message delivered in one read, or an upload in any stretches. -/
inductive Message where
  | single (bytes : List Byte)
  | upload (packet : DeviceId) (content : List Byte) (stretches : Evbuffer)

namespace Message

def stretches : Message → Evbuffer
  | single bytes => [bytes]
  | upload _ _ stretches => stretches

/-- The read loop does nothing with the message. -/
def ignored : Message → Bool
  | single bytes => (handlerOf (bytes.headD 0)).isNone
  | upload _ _ _ => false

/-- A message in one read fits the packet buffer and is no part of an upload; one that is ignored
leaves no byte that passes for a negative length. -/
def WellFormed : Message → Prop
  | single bytes =>
      bytes ≠ [] ∧ bytes.length ≤ lenBlockPacket ∧ bytes.headD 0 ≠ hdrBlockDataRecv ∧
        (handlerOf (bytes.headD 0) = none → bytes.getD 30 0 ≠ 0xFF)
  | upload packet content stretches =>
      0 < content.length ∧ content.length ≤ lenBlockBuffer ∧
        stretches.flatten = packetBytes content packet

end Message

/-! ## After an upload -/

/-- The number of reads a packet buffer with `index` bytes takes from the input until it is full. -/
def refills : Nat → Evbuffer → Nat
  | _, [] => 0
  | index, stretch :: rest =>
      if stretch = [] ∨ lenBlockPacket ≤ index then refills index rest
      else refills (min lenBlockPacket (index + stretch.length)) rest + 1

/-- The last packet of an upload stands in the packet buffer, its file in the block buffer. -/
structure Finished (packet : DeviceId) (content : List Byte) (client : BlockBuffer) : Prop where
  peek_packet : ∀ x, x < (packetAt content packet (packetTotal content.length - 1)).length →
    client.packet.peek x =
      (packetAt content packet (packetTotal content.length - 1)).getD x 0
  peek_buffer : ∀ x, x < content.length → client.buffer.peek x = content.getD x 0
  le_index : (packetAt content packet (packetTotal content.length - 1)).length ≤ client.index
  index_le : client.index ≤ lenBlockPacket

section Finished

variable {client : BlockBuffer} {packet : DeviceId} {content : List Byte}

theorem uploadEnd_finished (hsize : content.length ≤ lenBlockBuffer) :
    Finished packet content (uploadEnd client content packet) where
  peek_packet := by
    intro x hx
    exact overlay_peek_of_lt hx le_rfl
  peek_buffer := by
    intro x hx
    have hpeek := Cells.peek_place_add client.buffer 0 content
      (show 0 + x < lenBlockBuffer by rw [Nat.zero_add]; exact hx.trans_le hsize) hx
    rw [Nat.zero_add] at hpeek
    exact hpeek
  le_index := le_rfl
  index_le := uploadEnd_index_le

/-- Another read behind a finished upload completes it again. -/
theorem receive_finished (hfinished : Finished packet content client) (hpos : 0 < content.length)
    (hsize : content.length ≤ lenBlockBuffer) {t : List Byte}
    (hroom : client.index + t.length ≤ lenBlockPacket) :
    ∃ client', Finished packet content client' ∧ client'.index = client.index + t.length ∧
      receive client client.index t =
        uploadDone packet content >>= fun _ => .ret (client', client'.index) := by
  have hpositive := packetTotal_pos hpos
  obtain ⟨i, hi⟩ : ∃ i, i + 1 = packetTotal content.length := ⟨_, Nat.sub_add_cancel hpositive⟩
  have hpred : packetTotal content.length - 1 = i := by omega
  rcases hfinished with ⟨hpacket, hbuffer, hle, hindex⟩
  rw [hpred] at hpacket hle
  have hend := packetData_last hi
  replace hindex : client.index ≤ 1024 := hindex
  -- The new bytes stand behind the last packet.
  have hpacket' : ∀ x, x < (packetAt content packet i).length →
      (client.packet.place client.index t).peek x = (packetAt content packet i).getD x 0 := by
    intro x hx
    rw [Cells.peek_place_of_lt (show x < 1024 by omega) (by omega), hpacket x hx]
  have hholds : HoldsPacket (client.packet.place client.index t) content packet i :=
    .of_peek fun x hx _ => hpacket' x hx
  -- Storing the last packet again leaves the file in the buffer.
  have hbuffer' : ∀ x, x < content.length →
      (client.buffer.place (i * 992) (packetData content i)).peek x = content.getD x 0 := by
    intro x hx
    have hlt : x < lenBlockBuffer := hx.trans_le hsize
    rcases Nat.lt_or_ge x (i * 992) with hlow | hhigh
    · rw [Cells.peek_place_of_lt hlt hlow, hbuffer x hx]
    · rcases Nat.exists_eq_add_of_le hhigh with ⟨j, rfl⟩
      have hj : j < (packetData content i).length := by omega
      rw [Cells.peek_place_add _ _ _ hlt hj]
      exact packetData_getD hj
  have hslice : (client.buffer.place (i * 992) (packetData content i)).slice 0 content.length =
      content := by
    refine Cells.slice_eq_of_peek _ _ _ ?_
    intro x hx
    rw [Nat.zero_add]
    exact hbuffer' x hx
  refine ⟨⟨client.buffer.place (i * 992) (packetData content i),
    client.packet.place client.index t, client.index + t.length⟩, ⟨?_, hbuffer', ?_, hroom⟩, rfl, ?_⟩
  · rw [hpred]
    exact hpacket'
  · rw [hpred]
    exact hle.trans (Nat.le_add_right _ _)
  · rw [receive, dispatch_block hholds.header.peek_zero]
    exact (blockDataRecv_last hholds hi hsize (hle.trans (Nat.le_add_right _ _))).trans
      (by rw [hslice])

/-- A full packet buffer takes nothing any more. -/
theorem refills_full (input : Evbuffer) : refills lenBlockPacket input = 0 := by
  induction input with
  | nil => rfl
  | cons stretch rest ih =>
      rw [refills, if_pos (.inr le_rfl)]
      exact ih

/-- Behind a finished upload, the effects of any input are its completion over and over. -/
theorem parse_finished (hpos : 0 < content.length) (hsize : content.length ≤ lenBlockBuffer)
    (input : Evbuffer) :
    ∀ {client : BlockBuffer}, Finished packet content client →
      (parse client input).effects =
        (uploadDone packet content).times (refills client.index input) := by
  induction input with
  | nil =>
      intro client hfinished
      rw [parse_nil hfinished.index_le rfl]
      rfl
  | cons stretch rest ih =>
      intro client hfinished
      have hindex := hfinished.index_le
      by_cases hskip : stretch = [] ∨ lenBlockPacket ≤ client.index
      · rw [refills, if_pos hskip]
        rcases hskip with hnil | hfull
        · have hparse := parse_empty_append hindex (by simp : ([[]] : Evbuffer).flatten = []) rest
          rw [hnil]
          exact (congrArg Program.effects hparse).trans (ih hfinished)
        · have hfull' := Nat.le_antisymm hindex hfull
          rw [parse_full hfull', hfull', refills_full]
          rfl
      · rw [refills, if_neg hskip]
        rcases not_or.mp hskip with ⟨hne, hroom⟩
        have hcap : 0 < lenBlockPacket - client.index := Nat.sub_pos_of_lt (Nat.lt_of_not_le hroom)
        have hremoved : stretch.take (lenBlockPacket - client.index) ≠ [] := by
          intro hnil
          rcases List.take_eq_nil_iff.mp hnil with hzero | hempty
          · exact absurd hzero hcap.ne'
          · exact hne hempty
        have hlen : (stretch.take (lenBlockPacket - client.index)).length =
            min (lenBlockPacket - client.index) stretch.length := List.length_take
        have hfit : client.index + (stretch.take (lenBlockPacket - client.index)).length ≤
            lenBlockPacket := by omega
        rcases receive_finished hfinished hpos hsize hfit with
          ⟨client', hfinished', hindex', hreceive⟩
        have hnext : client'.index = min lenBlockPacket (client.index + stretch.length) := by omega
        -- What a long stretch leaves behind finds the packet buffer full.
        have hrest : (parse client' (if lenBlockPacket - client.index < stretch.length then
            stretch.drop (lenBlockPacket - client.index) :: rest else rest)).effects =
              (uploadDone packet content).times (refills client'.index rest) := by
          by_cases hlong : lenBlockPacket - client.index < stretch.length
          · have hfull : client'.index = lenBlockPacket := by omega
            rw [parse_full hfull, hfull, refills_full]
            rfl
          · rw [if_neg hlong]
            exact ih hfinished'
        rw [parse_eq hindex, evbufferRemove_cons hne]
        simp only [if_neg hremoved, hreceive, bind_assoc, Program.ret_bind]
        rw [Program.effects_bind, ← hnext]
        simp only [hrest]
        rfl

end Finished

/-! ## The same messages on an idle connection -/

/-- The stretches of a sequence of messages. -/
def stretchesOf (messages : List Message) : Evbuffer :=
  messages.flatMap Message.stretches

section Idle

variable {client : BlockBuffer}

theorem handlerOf_eq_none (header : Byte) : handlerOf header = none →
    header ≠ hdrHeartPacketDevice ∧ header ≠ hdrHeartPacketPhone ∧ header ≠ hdrCommandPacket ∧
      header ≠ hdrLocationData ∧ header ≠ hdrAddDevice ∧ header ≠ hdrOperatorUserInfo ∧
      header ≠ hdrBaseStationDevice ∧ header ≠ hdrBlockDataSend := by
  revert header
  exact forall_byte (by decide +kernel)

/-- The handler is the first thing a message reaches. -/
theorem dispatch_handled {proc : Proc} (h : handlerOf (client.packet.peek 0) = some proc)
    (blockIndex nbytes : Nat) :
    ∃ k, dispatch client blockIndex nbytes =
      .call (.handler proc (client.packet.slice 0 nbytes)) k := by
  unfold handlerOf at h
  split at h
  · next heq => cases h; simp only [dispatch, heq]; exact ⟨_, rfl⟩
  split at h
  · next heq => cases h; simp only [dispatch, heq]; exact ⟨_, rfl⟩
  split at h
  · next heq => cases h; simp only [dispatch, heq]; exact ⟨_, rfl⟩
  split at h
  · next heq => cases h; simp only [dispatch, heq]; exact ⟨_, rfl⟩
  split at h
  · next heq => cases h; simp only [dispatch, heq]; exact ⟨_, rfl⟩
  split at h
  · next heq => cases h; simp only [dispatch, heq]; exact ⟨_, rfl⟩
  split at h
  · next heq => cases h; simp only [dispatch, heq]; exact ⟨_, rfl⟩
  split at h
  · next heq => cases h; simp only [dispatch, heq]; exact ⟨_, rfl⟩
  · cases h

theorem dispatch_ignored (h : handlerOf (client.packet.peek 0) = none)
    (hne : client.packet.peek 0 ≠ hdrBlockDataRecv) (blockIndex nbytes : Nat) :
    dispatch client blockIndex nbytes = .ret (client, blockIndex) := by
  rcases handlerOf_eq_none _ h with ⟨h1, h2, h3, h4, h5, h6, h7, h8⟩
  rw [dispatch, if_neg h1, if_neg h2, if_neg h3, if_neg h4]
  split
  · rfl
  · rfl

/-- A message in one read is read as a whole. -/
theorem parse_single (hidle : Idle client) {bytes : List Byte} (hne : bytes ≠ [])
    (hle : bytes.length ≤ lenBlockPacket) (rest : Evbuffer) :
    parse client (bytes :: rest) = receive client 0 bytes >>= fun r => parse r.1 rest := by
  rw [parse_stretch hidle.index_eq hne, List.take_of_length_le hle, if_neg (Nat.not_lt.mpr hle)]

theorem peek_place_zero {bytes : List Byte} (hne : bytes ≠ []) (packet : PacketBuffer) :
    (packet.place 0 bytes).peek 0 = bytes.headD 0 := by
  have hpeek := Cells.peek_place_add packet 0 bytes (show 0 + 0 < 1024 by decide)
    (List.length_pos_of_ne_nil hne)
  cases bytes with
  | nil => exact absurd rfl hne
  | cons b bytes => exact hpeek

/-- An ignored message leaves an idle connection idle. -/
theorem parse_ignored (hidle : Idle client) {bytes : List Byte}
    (hwf : (Message.single bytes).WellFormed) (hignored : (Message.single bytes).ignored = true)
    (rest : Evbuffer) :
    ∃ client', Idle client' ∧ parse client (bytes :: rest) = parse client' rest := by
  rcases hwf with ⟨hne, hle, hheader, hbyte⟩
  have hnone : handlerOf (bytes.headD 0) = none := Option.isNone_iff_eq_none.mp hignored
  have hpeek := peek_place_zero hne client.packet
  refine ⟨{ client with packet := client.packet.place 0 bytes }, ⟨hidle.index_eq, ?_⟩, ?_⟩
  · rcases Nat.lt_or_ge 30 bytes.length with hlt | hge
    · have h30 := Cells.peek_place_add client.packet 0 bytes (show 0 + 30 < 1024 by decide) hlt
      intro heq
      exact hbyte hnone (h30.symm.trans heq)
    · have h30 : (client.packet.place 0 bytes).peek 30 = client.packet.peek 30 :=
        Cells.peek_place_of_le (by decide) (by rw [Nat.zero_add]; exact hge)
      intro heq
      exact hidle.peek_ne (h30.symm.trans heq)
  · rw [parse_single hidle hne hle, receive,
      dispatch_ignored (by rw [hpeek]; exact hnone) (by rw [hpeek]; exact hheader)]
    rfl

/-- Any other message in one read reaches its handler first. -/
theorem parse_handled (hidle : Idle client) {bytes : List Byte}
    (hwf : (Message.single bytes).WellFormed) (hignored : (Message.single bytes).ignored = false)
    (rest : Evbuffer) :
    ∃ proc packet k, (parse client (bytes :: rest)).effects = .call (.handler proc packet) k := by
  rcases hwf with ⟨hne, hle, -, -⟩
  have hpeek := peek_place_zero hne client.packet
  have hsome : (handlerOf (bytes.headD 0)).isNone = false := hignored
  cases hhandler : handlerOf (bytes.headD 0) with
  | none => rw [hhandler] at hsome; cases hsome
  | some proc =>
      rcases @dispatch_handled { client with packet := client.packet.place 0 bytes } proc
        (by rw [hpeek]; exact hhandler) 0 bytes.length with ⟨k, hdispatch⟩
      rw [parse_single hidle hne hle, receive, hdispatch]
      exact ⟨proc, _, _, rfl⟩

/-- An upload is completed, and the connection is left as `Finished` describes it. -/
theorem parse_upload_message (hidle : Idle client) {packet : DeviceId} {content : List Byte}
    {stretches : Evbuffer} (hwf : (Message.upload packet content stretches).WellFormed)
    (rest : Evbuffer) :
    parse client (stretches ++ rest) =
      uploadDone packet content >>= fun _ => parse (uploadEnd client content packet) rest := by
  rcases hwf with ⟨hpos, hsize, hflat⟩
  have hparse := parse_upload hidle hsize _ (packetTotal_pos hpos) packetAt_pos le_rfl
    (hflat.trans (remaining_zero hpos).symm) rest
  rwa [uploadAt_zero hidle] at hparse

end Idle

/-! ## When a connection can be used again -/

/-- `n` completions of an upload are the effects of the messages on a fresh connection. -/
def Repeats (packet : DeviceId) (content : List Byte) (n : Nat) : List Message → Prop
  | [] => n = 0
  | .single bytes :: rest =>
      (Message.single bytes).ignored = true ∧ Repeats packet content n rest
  | .upload packet' content' _ :: rest =>
      packet' = packet ∧ content' = content ∧
        n = refills ((content.length - 1) % 992 + 33) (stretchesOf rest) + 1

/-- After the upload of a file the messages have the effects they have on a fresh connection. -/
def Reusable (packet : DeviceId) (content : List Byte) (messages : List Message) : Prop :=
  Repeats packet content (refills ((content.length - 1) % 992 + 33) (stretchesOf messages)) messages

section Reuse

variable {packet packet' : DeviceId} {content content' : List Byte}

/-- The length of the last packet of a file. -/
theorem packetAt_last_length (hpos : 0 < content.length) :
    (packetAt content packet (packetTotal content.length - 1)).length =
      (content.length - 1) % 992 + 33 := by
  have htotal := packetTotal_pos hpos
  have hlast : packetTotal content.length - 1 + 1 = packetTotal content.length :=
    Nat.sub_add_cancel htotal
  have hend := packetData_last hlast
  have heq := packetTotal_eq content.length
  rw [packetAt_length]
  omega

theorem uploadDone_canReturn (packet : DeviceId) (content : List Byte) :
    (uploadDone packet content).CanReturn () := by
  rw [uploadDone_eq]
  refine .call _ _ () () (.call _ _ false () ?_)
  exact .call _ _ () () (.ret ())

theorem uploadDone_times_injective {m n : Nat}
    (h : (uploadDone packet content).times m = (uploadDone packet content).times n) : m = n :=
  Program.times_injective (uploadDone_canReturn packet content) m n h

/-- What an upload does tells the device and the file. -/
theorem uploadDone_bind_injective {f g : Unit → Action Unit}
    (h : uploadDone packet content >>= f = uploadDone packet' content' >>= g) :
    packet' = packet ∧ content' = content := by
  injection h with hop
  injection hop with hpath hcontent
  exact ⟨(deviceId_text_injective (genBlockFilePathName_injective hpath)).symm, hcontent.symm⟩

/-- The effects of messages on an idle connection, compared with a repeated upload. -/
theorem times_eq_parse_iff (n : Nat) (messages : List Message) :
    (∀ m ∈ messages, m.WellFormed) → ∀ {client : BlockBuffer}, Idle client →
      ((uploadDone packet content).times n = (parse client (stretchesOf messages)).effects ↔
        Repeats packet content n messages) := by
  induction messages with
  | nil =>
      intro _ client hidle
      -- Without messages the connection reads nothing, and only no repetition does that.
      rw [stretchesOf, List.flatMap_nil, parse_nil (hidle.index_eq ▸ Nat.zero_le _) rfl]
      constructor
      · intro h
        exact uploadDone_times_injective (h : _ = (uploadDone packet content).times 0)
      · intro h
        rw [h]
        rfl
  | cons message rest ih =>
      intro hwf client hidle
      have hmessage := hwf message (by simp)
      have hrest : ∀ m ∈ rest, m.WellFormed := fun m hm => hwf m (by simp [hm])
      cases message with
      | single bytes =>
          -- A short message is skipped, and the block it leaves is idle again; one that is handled
          -- starts with a handler, which no repetition of an upload does.
          cases hignored : (Message.single bytes).ignored with
          | true =>
              rcases parse_ignored hidle hmessage hignored (stretchesOf rest) with
                ⟨client', hidle', hparse⟩
              have hparse' : parse client (stretchesOf (.single bytes :: rest)) =
                  parse client' (stretchesOf rest) := hparse
              rw [hparse', ih hrest hidle']
              exact ⟨fun h => ⟨hignored, h⟩, fun h => h.2⟩
          | false =>
              rcases parse_handled hidle hmessage hignored (stretchesOf rest) with
                ⟨proc, bytes', k, hparse⟩
              have hparse' : (parse client (stretchesOf (.single bytes :: rest))).effects =
                  .call (.handler proc bytes') k := hparse
              rw [hparse']
              constructor
              · intro h
                cases n with
                | zero => cases h
                | succ n => cases h
              · intro h
                exact absurd (hignored.symm.trans h.1) Bool.false_ne_true
      | upload packet' content' stretches =>
          -- An upload leaves a finished block: what comes behind it only repeats it.
          have hparse := parse_upload_message hidle hmessage (stretchesOf rest)
          rcases hmessage with ⟨hpos, hsize, -⟩
          have hfinished : Finished packet' content' (uploadEnd client content' packet') :=
            uploadEnd_finished hsize
          have hindex : (uploadEnd client content' packet').index =
              (content'.length - 1) % 992 + 33 := packetAt_last_length hpos
          have hparse' : (parse client
              (stretchesOf (.upload packet' content' stretches :: rest))).effects =
                (uploadDone packet' content').times
                  (refills ((content'.length - 1) % 992 + 33) (stretchesOf rest) + 1) := by
            calc
              (parse client (stretchesOf (.upload packet' content' stretches :: rest))).effects =
                  (uploadDone packet' content' >>= fun _ =>
                    parse (uploadEnd client content' packet') (stretchesOf rest)).effects :=
                congrArg Program.effects hparse
              _ = uploadDone packet' content' >>= fun _ =>
                    (parse (uploadEnd client content' packet') (stretchesOf rest)).effects :=
                Program.effects_bind _ _
              _ = _ := by
                rw [parse_finished hpos hsize _ hfinished, hindex]
                rfl
          rw [hparse']
          constructor
          · intro h
            cases n with
            | zero => cases h
            | succ n =>
                rcases uploadDone_bind_injective h with ⟨rfl, rfl⟩
                exact ⟨rfl, rfl, uploadDone_times_injective h⟩
          · rintro ⟨rfl, rfl, rfl⟩
            rfl

/-- **After an upload the connection behaves like a fresh one exactly when the messages make it
`Reusable`.** -/
theorem connection_reuse_iff {start : BlockBuffer} (hidle : Idle start) (packet : DeviceId)
    (content : List Byte) (hpos : 0 < content.length) (hsize : content.length ≤ lenBlockBuffer)
    (calls : List Evbuffer) (hcalls : calls.flatten.flatten = packetBytes content packet)
    (client : BlockBuffer) (pending : Evbuffer)
    (hcompleted : connection start [] calls =
      uploadDone packet content >>= fun _ => .ret (client, pending))
    (messages : List Message) (hwf : ∀ m ∈ messages, m.WellFormed) (later : List Evbuffer)
    (hlater : later.flatten = stretchesOf messages) :
    (connection client pending later).effects =
        (connection BlockBuffer.zero [] later).effects ↔
      Reusable packet content messages := by
  have hend := (connection_upload hidle hpos hsize hcalls).symm.trans hcompleted
  have hsame := (uploadDone_canReturn packet content).bind_cancel hend
  injection hsame with hpair
  injection hpair with hclient hpending
  have hfinished : Finished packet content client := hclient ▸ uploadEnd_finished hsize
  have hindex : client.index = (content.length - 1) % 992 + 33 :=
    hclient ▸ packetAt_last_length hpos
  have hzero : BlockBuffer.zero.index ≤ lenBlockPacket := Nat.zero_le _
  rw [← hpending, connection_eq_parse later hfinished.index_le (parse_nil hfinished.index_le rfl),
    connection_eq_parse later hzero (parse_nil hzero rfl), List.nil_append, hlater,
    parse_finished hpos hsize _ hfinished, hindex]
  exact times_eq_parse_iff _ messages hwf idle_zero

/-- A file of one byte uploaded twice, each time in one stretch. -/
theorem connection_reuse_iff_same_upload :
    let packet : DeviceId := Vector.replicate 8 0x11
    (connection (uploadEnd BlockBuffer.zero [7] packet) [] [[packetBytes [7] packet]]).effects =
      (connection BlockBuffer.zero [] [[packetBytes [7] packet]]).effects := by
  intro packet
  have hcalls : ([[packetBytes [7] packet]] : List Evbuffer).flatten.flatten =
      packetBytes [7] packet := by simp
  have hwf : ∀ m ∈ [Message.upload packet [7] [packetBytes [7] packet]], m.WellFormed := by
    intro m hm
    rw [List.mem_singleton.mp hm]
    exact ⟨by decide, by decide, by simp⟩
  exact (connection_reuse_iff idle_zero packet [7] (by decide) (by decide) _ hcalls _ _
    (connection_upload idle_zero (by decide) (by decide) hcalls) _ hwf _ rfl).mpr
      ⟨rfl, rfl, by decide⟩

/-- A heartbeat behind an upload of one byte: the file is saved, acknowledged and multicast a
second time, and the heartbeat reaches no handler. -/
theorem connection_reuse_heartbeat :
    let packet : DeviceId := Vector.replicate 8 0x11
    let heartbeat : List Byte := 0x48 :: List.replicate 31 0
    ∃ client pending,
      connection BlockBuffer.zero [] [[packetBytes [7] packet]] =
          uploadDone packet [7] >>= (fun _ => .ret (client, pending)) ∧
        (connection client pending [[heartbeat]]).effects = (uploadDone packet [7]).times 1 ∧
        (connection client pending [[heartbeat]]).effects ≠
          (connection BlockBuffer.zero [] [[heartbeat]]).effects := by
  intro packet heartbeat
  have hcalls : ([[packetBytes [7] packet]] : List Evbuffer).flatten.flatten =
      packetBytes [7] packet := by simp
  have hsize : ([7] : List Byte).length ≤ lenBlockBuffer := by decide
  have hfinished : Finished packet [7] (uploadEnd BlockBuffer.zero [7] packet) :=
    uploadEnd_finished hsize
  -- The heartbeat completes the old packet again.
  have hused : (connection (uploadEnd BlockBuffer.zero [7] packet) [] [[heartbeat]]).effects =
      (uploadDone packet [7]).times 1 := by
    have hindex : (uploadEnd BlockBuffer.zero [7] packet).index = 33 :=
      packetAt_last_length (by decide)
    have hrefills : refills 33 [heartbeat] = 1 := by decide
    rw [connection_eq_parse _ hfinished.index_le (parse_nil hfinished.index_le rfl)]
    refine (parse_finished (by decide) hsize _ hfinished).trans ?_
    rw [hindex]
    exact congrArg _ hrefills
  refine ⟨_, _, connection_upload idle_zero (by decide) hsize hcalls, hused, ?_⟩
  intro heq
  have hzero : BlockBuffer.zero.index ≤ lenBlockPacket := Nat.zero_le _
  have hwf : (Message.single heartbeat).WellFormed := ⟨by decide, by decide, by decide, by decide⟩
  -- On a fresh connection it is handled.
  rcases parse_handled idle_zero hwf (by decide) [] with ⟨proc, bytes, k, hparse⟩
  rw [hused, connection_eq_parse _ hzero (parse_nil hzero rfl)] at heq
  exact absurd (heq.trans hparse) (by intro h; cases h)

end Reuse

end RobotServer
