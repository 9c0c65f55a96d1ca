import RobotServer.Serving.Messages
import RobotServer.Transfer.PacketReads

/-!
# Insertions — messages between the packets of an upload

A connection has one packet buffer and one block buffer for all its messages.  A `Part` of an upload
is some other messages and the packets that follow them; `serveParts` are the messages alone, with
what their handlers leave in the block buffer (only downloads leave anything, `served_left`), and
`overwrite` is what that does to a file of which the first packets have arrived.  As long as the
reads behind the messages are quiet, the upload saves what is left of the file
(`parse_insertions`), and otherwise it saves more often (`parse_insertions_atLeast_two`).
-/

namespace RobotServer

open CText Memory Interaction

/-! ## Parts of an upload -/

/-- Messages that arrive between two packets, and the `count` packets that follow them. -/
structure Part where
  messages : List (List Byte)
  count : Nat
  stretches : Evbuffer

namespace Part

/-- The input of a part: every message in one read, the packets in any stretches. -/
def arrival (part : Part) : Evbuffer :=
  part.messages ++ part.stretches

def withoutMessages (part : Part) : Part :=
  { part with messages := [] }

end Part

/-- A complete message that is no part of an upload. -/
structure IsOther (message : List Byte) : Prop where
  ne_nil : message ≠ []
  length_le : message.length ≤ lenBlockPacket
  headD_ne : message.headD 0 ≠ hdrBlockDataRecv

/-- The parts carry the packets of a file from packet `i` on. -/
def Inserted (content : List Byte) (packet : DeviceId) : Nat → List Part → Prop
  | i, [] => i = packetTotal content.length
  | i, part :: rest => (∀ message ∈ part.messages, IsOther message) ∧ 0 < part.count ∧
      part.stretches.flatten = packetsFrom content packet i part.count ∧
      Inserted content packet (i + part.count) rest

/-- Bytes left at the head of the block buffer when `received` packets had arrived. -/
structure Left where
  received : Nat
  bytes : List Byte
  deriving DecidableEq

/-- What becomes of a file in the block buffer: the part of it that has arrived is overwritten. -/
def overwrite (content : List Byte) (left : Left) : List Byte :=
  let written := (left.bytes.take (left.received * 992)).take content.length
  written ++ content.drop written.length

/-- What the messages of a part leave in the packet buffer. -/
def leftBehind (messages : List (List Byte)) : PacketBuffer :=
  messages.foldl (fun packet message => packet.place 0 message) (Cells.fill 0)

/-- The handlers of messages that arrive one after another, and what they leave in the block
buffer. -/
def serveMessages (received : Nat) : PacketBuffer → List (List Byte) → Action (List Left)
  | _, [] => pure []
  | packet, message :: rest => do
      let bytes ← served (packet.place 0 message) message.length
      let lefts ← serveMessages received (packet.place 0 message) rest
      pure (⟨received, bytes⟩ :: lefts)

/-- The messages of an upload without its packets. -/
def serveParts : Nat → List Part → Action (List Left)
  | _, [] => pure []
  | i, part :: rest => do
      let lefts ← serveMessages i (Cells.fill 0) part.messages
      let later ← serveParts (i + part.count) rest
      pure (lefts ++ later)

/-- The reads behind all messages are quiet. -/
def QuietFrom (content : List Byte) (packet : DeviceId) : Nat → List Part → Prop
  | _, [] => True
  | i, part :: rest => QuietReads (leftBehind part.messages) content packet i part.stretches ∧
      QuietFrom content packet (i + part.count) rest

/-! ## Reading messages -/

theorem parse_messages (received : Nat) (later : Evbuffer) (messages : List (List Byte)) :
    (∀ message ∈ messages, IsOther message) → ∀ (buffer : BlockData) (packet : PacketBuffer),
      parse ⟨buffer, packet, 0⟩ (messages ++ later) =
        serveMessages received packet messages >>= fun lefts =>
          parse ⟨lefts.foldl (fun b left => b.place 0 left.bytes) buffer,
            messages.foldl (fun p message => p.place 0 message) packet, 0⟩ later := by
  induction messages with
  | nil =>
      intro _ buffer packet
      rfl
  | cons message rest ih =>
      intro hothers buffer packet
      rcases hothers message List.mem_cons_self with ⟨hne, hle, hhead⟩
      have hrest := ih fun m hm => hothers m (List.mem_cons_of_mem _ hm)
      rw [List.cons_append, parse_stretch rfl hne, List.take_of_length_le hle,
        if_neg (Nat.not_lt.mpr hle), receive_served hne hhead, serveMessages]
      simp only [bind_assoc, Program.ret_bind, Program.pure_eq_ret]
      congr 1
      funext bytes
      exact hrest _ _

/-- All bytes of a part are left when the same packets have arrived. -/
theorem serveMessages_returns (received : Nat) (messages : List (List Byte)) :
    ∀ packet, (serveMessages received packet messages).Returns fun lefts =>
      ∀ left ∈ lefts, left.received = received := by
  induction messages with
  | nil =>
      intro packet left hleft
      cases hleft
  | cons message rest ih =>
      intro packet
      apply Program.returns_bind_of_forall
      intro bytes
      refine (ih _).bind ?_
      intro lefts hlefts left hleft
      rcases List.mem_cons.mp hleft with rfl | htail
      · rfl
      · exact hlefts left htail

theorem served_inner (packet : PacketBuffer) (nbytes : Nat) :
    (served packet nbytes).Performs fun o => Op.isWriteDat o = false := by
  unfold served
  split
  · trivial
  · exact ⟨rfl, fun _ => (procAction_inner _ packet nbytes).mono fun o ho => ho.2⟩

theorem serveMessages_performs (received : Nat) (messages : List (List Byte)) :
    ∀ packet, (serveMessages received packet messages).Performs fun o => Op.isWriteDat o = false := by
  induction messages with
  | nil =>
      intro packet
      trivial
  | cons message rest ih =>
      intro packet
      exact (served_inner _ _).bind fun _ => (ih _).bind fun _ => trivial

/-- Other messages save no file. -/
theorem serveParts_performs (parts : List Part) :
    ∀ i, (serveParts i parts).Performs fun o => Op.isWriteDat o = false := by
  induction parts with
  | nil =>
      intro i
      trivial
  | cons part rest ih =>
      intro i
      exact (serveMessages_performs _ _ _).bind fun _ => (ih _).bind fun _ => trivial

/-! ## What messages leave -/

/-- A complete request for a download. -/
def IsDownload (message : List Byte) : Prop :=
  message.headD 0 = hdrBlockDataSend ∧ message.length = lenDeviceDownload

theorem handlerOf_eq_send (header : Byte) :
    handlerOf header = some .deviceBlockDataSendPacket ↔ header = hdrBlockDataSend := by
  revert header
  exact forall_byte (by decide +kernel)

theorem download_left (packet : PacketBuffer) (nbytes : Nat) :
    (download packet nbytes).Returns fun bytes => bytes = [] ∨
      nbytes = lenDeviceDownload ∧ ∃ content, bytes = packetBytes content (deviceIdAt packet) := by
  unfold download
  split
  · exact .inl rfl
  · next hlength =>
      apply Program.returns_bind_of_forall
      intro content
      dsimp only
      split
      · apply Program.returns_bind_of_forall
        intro _
        exact .inr ⟨not_not.mp hlength, content, rfl⟩
      · trivial

/-- Only a download request leaves anything in the block buffer: the packets of a file. -/
theorem served_left (packet : PacketBuffer) (nbytes : Nat) :
    (served packet nbytes).Returns fun bytes => bytes = [] ∨
      packet.peek 0 = hdrBlockDataSend ∧ nbytes = lenDeviceDownload ∧
        ∃ content, bytes = packetBytes content (deviceIdAt packet) := by
  cases hhandler : handlerOf (packet.peek 0) with
  | none =>
      rw [served, hhandler]
      exact .inl rfl
  | some proc =>
      rw [served_eq hhandler]
      apply Program.returns_bind_of_forall
      intro _
      have hnothing : ∀ p : Action Unit, (p >>= fun _ => pure ([] : List Byte)).Returns fun bytes =>
          bytes = [] ∨ packet.peek 0 = hdrBlockDataSend ∧ nbytes = lenDeviceDownload ∧
            ∃ content, bytes = packetBytes content (deviceIdAt packet) := by
        intro p
        apply Program.returns_bind_of_forall
        intro _
        exact .inl rfl
      -- Of the eight messages, the download alone leaves its answer in the buffer.
      cases proc with
      | deviceHeartPacket =>
          apply Program.returns_bind_of_forall
          intro r
          exact hnothing _
      | phoneHeaderPacket =>
          apply Program.returns_bind_of_forall
          intro r
          exact hnothing _
      | phoneCommandPacket =>
          apply Program.returns_bind_of_forall
          intro r
          exact .inl rfl
      | deviceLocationPacket =>
          apply Program.returns_bind_of_forall
          intro r
          exact hnothing _
      | phoneAddDevice => exact .inl rfl
      | phoneOperatorUserInfo => exact hnothing _
      | deviceBaseStation => exact .inl rfl
      | deviceBlockDataSendPacket =>
          refine (download_left packet nbytes).mono ?_
          intro bytes hbytes
          exact hbytes.imp_right fun hleft => ⟨(handlerOf_eq_send _).mp hhandler, hleft⟩

theorem serveMessages_left (received : Nat) (messages : List (List Byte)) :
    (∀ message ∈ messages, message ≠ [] ∧ ¬ IsDownload message) → ∀ packet,
      (serveMessages received packet messages).Returns fun lefts =>
        ∀ left ∈ lefts, left.bytes = [] := by
  induction messages with
  | nil =>
      intro _ packet left hleft
      cases hleft
  | cons message rest ih =>
      intro hmessages packet
      rcases hmessages message List.mem_cons_self with ⟨hne, hother⟩
      refine (served_left _ _).bind ?_
      intro bytes hbytes
      refine (ih (fun m hm => hmessages m (List.mem_cons_of_mem _ hm)) _).bind ?_
      intro lefts hlefts left hleft
      rcases List.mem_cons.mp hleft with rfl | htail
      · rcases hbytes with hnil | ⟨hhead, hlength, -⟩
        · exact hnil
        · rw [peek_place_zero hne] at hhead
          exact absurd ⟨hhead, hlength⟩ hother
      · exact hlefts left htail

theorem serveParts_left (parts : List Part) :
    (∀ part ∈ parts, ∀ message ∈ part.messages, message ≠ [] ∧ ¬ IsDownload message) →
      ∀ i, (serveParts i parts).Returns fun lefts => ∀ left ∈ lefts, left.bytes = [] := by
  induction parts with
  | nil =>
      intro _ i left hleft
      cases hleft
  | cons part rest ih =>
      intro hparts i
      refine (serveMessages_left i part.messages (hparts part List.mem_cons_self) _).bind ?_
      intro lefts hlefts
      refine (ih (fun p hp => hparts p (List.mem_cons_of_mem _ hp)) _).bind ?_
      intro later hlater left hleft
      exact (List.mem_append.mp hleft).elim (hlefts left) (hlater left)

/-! ## Reading parts -/

section Parts

variable {content : List Byte} {packet : DeviceId}

theorem Inserted.le {parts : List Part} :
    ∀ {i : Nat}, Inserted content packet i parts → i ≤ packetTotal content.length := by
  induction parts with
  | nil =>
      intro i h
      exact Nat.le_of_eq h
  | cons part rest ih =>
      intro i h
      exact Nat.le_trans (Nat.le_add_right _ _) (ih h.2.2.2)

theorem Inserted.lt {part : Part} {rest : List Part} {i : Nat}
    (h : Inserted content packet i (part :: rest)) : i < packetTotal content.length := by
  have hle := Inserted.le h.2.2.2
  have hpos := h.2.1
  omega

theorem Inserted.isOther {parts : List Part} :
    ∀ {i : Nat}, Inserted content packet i parts →
      ∀ part ∈ parts, ∀ message ∈ part.messages, IsOther message := by
  induction parts with
  | nil =>
      intro i _ part hpart
      cases hpart
  | cons part rest ih =>
      intro i h p hp
      rcases List.mem_cons.mp hp with rfl | hrest
      · exact h.1
      · exact ih h.2.2.2 p hrest

/-- A part that others follow: its messages are served and its packets are stored. -/
theorem parse_part_store (hsize : content.length ≤ lenBlockBuffer) {part next : Part}
    {rest : List Part} {i : Nat} (h : Inserted content packet i (part :: next :: rest))
    (buffer : BlockData) (later : Evbuffer) :
    parse ⟨buffer, Cells.fill 0, 0⟩ (part.arrival ++ later) =
      serveMessages i (Cells.fill 0) part.messages >>= fun lefts =>
        earlySaves (leftBehind part.messages) content packet i
          (lefts.foldl (fun b left => b.place 0 left.bytes) buffer) 0 part.stretches >>= fun _ =>
        parse ⟨(lefts.foldl (fun b left => b.place 0 left.bytes) buffer).place (i * 992)
          (dataFrom content i part.count), Cells.fill 0, 0⟩ later := by
  rcases h with ⟨hothers, hpos, hflat, hrest⟩
  have hlt := Inserted.lt hrest
  obtain ⟨count, hcount⟩ : ∃ count, part.count = count + 1 := ⟨part.count - 1, by omega⟩
  rw [hcount] at hflat hlt
  rw [Part.arrival, List.append_assoc, parse_messages i _ _ hothers]
  congr 1
  funext lefts
  have hparse := parse_append part.stretches.flatten.length
    (show (⟨lefts.foldl (fun b left => b.place 0 left.bytes) buffer, leftBehind part.messages,
      0⟩ : BlockBuffer).index ≤ lenBlockPacket from Nat.zero_le _) (Nat.le_refl _) later
  refine hparse.trans ?_
  rw [parse_packets_store hsize count _ _ hlt hflat, hcount, bind_assoc]
  rfl

/-- The last part: its messages are served, its packets are stored and the block is saved. -/
theorem parse_part_save (hsize : content.length ≤ lenBlockBuffer) {part : Part} {i : Nat}
    (h : Inserted content packet i [part]) (buffer : BlockData) :
    (parse ⟨buffer, Cells.fill 0, 0⟩ part.arrival).effects =
      serveMessages i (Cells.fill 0) part.messages >>= fun lefts =>
        earlySaves (leftBehind part.messages) content packet i
          (lefts.foldl (fun b left => b.place 0 left.bytes) buffer) 0 part.stretches >>= fun _ =>
        uploadDone packet (((lefts.foldl (fun b left => b.place 0 left.bytes) buffer).place (i * 992)
          (dataFrom content i part.count)).slice 0 content.length) := by
  rcases h with ⟨hothers, hpos, hflat, hrest⟩
  obtain ⟨count, hcount⟩ : ∃ count, part.count = count + 1 := ⟨part.count - 1, by omega⟩
  have hend : i + part.count = packetTotal content.length := hrest
  rw [hcount] at hflat hend
  rw [Part.arrival, parse_messages i _ _ hothers, Program.effects_bind]
  congr 1
  funext lefts
  rw [hcount]
  exact parse_packets_save hsize count _ _ hend hflat

/-! ## The file in the block buffer -/

@[simp] theorem overwrite_length (content : List Byte) (left : Left) :
    (overwrite content left).length = content.length := by
  simp only [overwrite, List.length_append, List.length_take, List.length_drop]
  omega

theorem overwrite_getD {c : List Byte} {left : Left} {x : Nat} (hx : x < c.length) :
    (overwrite c left).getD x 0 =
      if x < left.received * 992 ∧ x < left.bytes.length then left.bytes.getD x 0
      else c.getD x 0 := by
  have hwritten : ((left.bytes.take (left.received * 992)).take c.length).length =
      min c.length (min (left.received * 992) left.bytes.length) := by
    rw [List.length_take, List.length_take]
  rw [overwrite]
  split
  · next h =>
      rw [List.getD_append _ _ _ _ (by omega), List.getD_eq_getElem?_getD,
        List.getElem?_take_of_lt hx, List.getElem?_take_of_lt h.1, List.getD_eq_getElem?_getD]
  · next h =>
      rw [List.getD_append_right _ _ _ _ (by omega), List.getD_eq_getElem?_getD,
        List.getElem?_drop, List.getD_eq_getElem?_getD]
      congr 2
      omega

omit content in
theorem foldl_overwrite_nil {lefts : List Left} :
    (∀ left ∈ lefts, left.bytes = []) → ∀ {content : List Byte},
      lefts.foldl overwrite content = content := by
  induction lefts with
  | nil =>
      intro _ content
      rfl
  | cons left rest ih =>
      intro hlefts content
      have hnil : overwrite content left = content := by
        simp [overwrite, hlefts left List.mem_cons_self]
      rw [List.foldl_cons, hnil]
      exact ih fun l hl => hlefts l (List.mem_cons_of_mem _ hl)

/-- The packets of a file before packet `i` have arrived, and `c` is what has become of the
file. -/
structure Assembled (content c : List Byte) (buffer : BlockData) (i : Nat) : Prop where
  length_eq : c.length = content.length
  peek_eq : ∀ x, x < content.length → x < i * 992 → buffer.peek x = c.getD x 0
  getD_eq : ∀ x, x < content.length → i * 992 ≤ x → c.getD x 0 = content.getD x 0

namespace Assembled

variable {c : List Byte} {buffer : BlockData} {i : Nat}

theorem leave (h : Assembled content c buffer i) (hsize : content.length ≤ lenBlockBuffer)
    {left : Left} (hleft : left.received = i) :
    Assembled content (overwrite c left) (buffer.place 0 left.bytes) i where
  length_eq := (overwrite_length c left).trans h.length_eq
  peek_eq := by
    intro x hx hi
    rw [overwrite_getD (h.length_eq ▸ hx), hleft, Cells.peek_place (hx.trans_le hsize)]
    by_cases hlt : x < left.bytes.length
    · rw [if_pos ⟨Nat.zero_le _, by omega⟩, if_pos ⟨hi, hlt⟩]
      rfl
    · rw [if_neg (by omega), if_neg fun h => hlt h.2, h.peek_eq x hx hi]
  getD_eq := by
    intro x hx hi
    rw [overwrite_getD (h.length_eq ▸ hx), hleft, if_neg fun h => Nat.not_lt.mpr hi h.1,
      h.getD_eq x hx hi]

theorem leaveAll (hsize : content.length ≤ lenBlockBuffer) {lefts : List Left} :
    ∀ {c : List Byte} {buffer : BlockData}, Assembled content c buffer i →
      (∀ left ∈ lefts, left.received = i) →
      Assembled content (lefts.foldl overwrite c)
        (lefts.foldl (fun b left => b.place 0 left.bytes) buffer) i := by
  induction lefts with
  | nil =>
      intro c buffer h _
      exact h
  | cons left rest ih =>
      intro c buffer h hlefts
      exact ih (h.leave hsize (hlefts left List.mem_cons_self)) fun l hl =>
        hlefts l (List.mem_cons_of_mem _ hl)

/-- Packets that arrive are not overwritten yet. -/
theorem store (h : Assembled content c buffer i) (hsize : content.length ≤ lenBlockBuffer)
    (count : Nat) :
    Assembled content c (buffer.place (i * 992) (dataFrom content i count)) (i + count) where
  length_eq := h.length_eq
  peek_eq := by
    intro x hx hi
    have hlength : (dataFrom content i count).length =
        min (count * 992) (content.length - i * 992) := by
      rw [dataFrom, List.length_take, List.length_drop]
    rw [Cells.peek_place (hx.trans_le hsize)]
    by_cases hlow : x < i * 992
    · rw [if_neg fun h => Nat.not_le.mpr hlow h.1, h.peek_eq x hx hlow]
    · have hcount : x - i * 992 < count * 992 := by omega
      have hback : i * 992 + (x - i * 992) = x := by omega
      rw [if_pos (by omega), h.getD_eq x hx (Nat.not_lt.mp hlow), dataFrom,
        List.getD_eq_getElem?_getD, List.getElem?_take_of_lt hcount, List.getElem?_drop, hback,
        List.getD_eq_getElem?_getD]
      rfl
  getD_eq := by
    intro x hx hi
    have hle : i * 992 ≤ (i + count) * 992 := Nat.mul_le_mul_right _ (Nat.le_add_right i count)
    exact h.getD_eq x hx (hle.trans hi)

/-- When all packets have arrived, the block buffer holds what has become of the file. -/
theorem slice_eq (h : Assembled content c buffer i) (hi : i = packetTotal content.length) :
    buffer.slice 0 content.length = c := by
  rw [← h.length_eq]
  refine Cells.slice_eq_of_peek _ _ _ ?_
  intro x hx
  have hlt : x < content.length := h.length_eq ▸ hx
  have hend : ¬ packetTotal content.length * 992 < content.length := fun hc =>
    Nat.lt_irrefl _ (lt_packetTotal.mpr hc)
  rw [Nat.zero_add]
  exact h.peek_eq x hlt (by omega)

end Assembled

/-! ## An upload with insertions -/

/-- With quiet reads, the upload saves once what the messages leave of the file. -/
theorem parse_insertions (hsize : content.length ≤ lenBlockBuffer) (parts : List Part) :
    ∀ {i : Nat} {c : List Byte} {buffer : BlockData}, parts ≠ [] →
      Inserted content packet i parts → Assembled content c buffer i →
      QuietFrom content packet i parts →
        (parse ⟨buffer, Cells.fill 0, 0⟩ (parts.flatMap Part.arrival)).effects =
          serveParts i parts >>= fun lefts => uploadDone packet (lefts.foldl overwrite c) := by
  induction parts with
  | nil =>
      intro i c buffer hne
      exact absurd rfl hne
  | cons part rest ih =>
      intro i c buffer _ hinserted hassembled hquiet
      cases rest with
      | nil =>
          -- The last part completes the block and saves it.
          have hend : i + part.count = packetTotal content.length := hinserted.2.2.2
          rw [List.flatMap_cons, List.flatMap_nil, List.append_nil,
            parse_part_save hsize hinserted, serveParts, bind_assoc]
          refine Program.bind_congr_of_returns (serveMessages_returns i part.messages _) ?_
          intro lefts hlefts
          have hstored := (hassembled.leaveAll hsize hlefts).store hsize part.count
          rw [hquiet.1.earlySaves_eq, Program.ret_bind, hstored.slice_eq hend]
          simp only [serveParts, Program.pure_eq_ret, Program.ret_bind, List.append_nil]
      | cons next rest =>
          -- An earlier part only stores its packet.
          rw [List.flatMap_cons, parse_part_store hsize hinserted, serveParts, bind_assoc,
            Program.effects_bind]
          refine Program.bind_congr_of_returns (serveMessages_returns i part.messages _) ?_
          intro lefts hlefts
          have hstored := (hassembled.leaveAll hsize hlefts).store hsize part.count
          rw [hquiet.1.earlySaves_eq, Program.ret_bind,
            ih (List.cons_ne_nil _ _) hinserted.2.2.2 hstored hquiet.2]
          simp only [bind_assoc, Program.pure_eq_ret, Program.ret_bind, List.foldl_append]

theorem uploadDone_atLeast (content : List Byte) :
    (uploadDone packet content).AtLeast Op.isWriteDat 1 := by
  rw [uploadDone_eq]
  exact fun _ => Program.atLeast_zero _

/-- The upload saves at least once. -/
theorem parse_insertions_atLeast_one (hsize : content.length ≤ lenBlockBuffer)
    (parts : List Part) :
    ∀ {i : Nat} {buffer : BlockData}, parts ≠ [] → Inserted content packet i parts →
      (parse ⟨buffer, Cells.fill 0, 0⟩ (parts.flatMap Part.arrival)).effects.AtLeast
        Op.isWriteDat 1 := by
  induction parts with
  | nil =>
      intro i buffer hne
      exact absurd rfl hne
  | cons part rest ih =>
      intro i buffer _ hinserted
      cases rest with
      | nil =>
          rw [List.flatMap_cons, List.flatMap_nil, List.append_nil,
            parse_part_save hsize hinserted]
          exact Program.atLeast_bind_of_forall _ fun _ =>
            Program.atLeast_bind_of_forall _ fun _ => uploadDone_atLeast _
      | cons next rest =>
          rw [List.flatMap_cons, parse_part_store hsize hinserted, Program.effects_bind]
          refine Program.atLeast_bind_of_forall _ fun lefts => ?_
          rw [Program.effects_bind]
          exact Program.atLeast_bind_of_forall _ fun _ =>
            ih (List.cons_ne_nil _ _) hinserted.2.2.2

/-- A read that is not quiet makes the upload save more than once. -/
theorem parse_insertions_atLeast_two (hsize : content.length ≤ lenBlockBuffer)
    (parts : List Part) :
    ∀ {i : Nat} {buffer : BlockData}, Inserted content packet i parts →
      ¬ QuietFrom content packet i parts →
      (parse ⟨buffer, Cells.fill 0, 0⟩ (parts.flatMap Part.arrival)).effects.AtLeast
        Op.isWriteDat 2 := by
  induction parts with
  | nil =>
      intro i buffer _ hquiet
      exact absurd trivial hquiet
  | cons part rest ih =>
      intro i buffer hinserted hquiet
      cases rest with
      | nil =>
          -- The last part saves, and its reads save once more before that.
          have hreads : ¬ QuietReads (leftBehind part.messages) content packet i part.stretches :=
            fun h => hquiet ⟨h, trivial⟩
          rw [List.flatMap_cons, List.flatMap_nil, List.append_nil,
            parse_part_save hsize hinserted]
          refine Program.atLeast_bind_of_forall _ fun lefts => ?_
          exact (earlySaves_atLeast_of_not_quiet hreads).bind (Program.returns_true _)
            fun _ _ => uploadDone_atLeast _
      | cons next rest =>
          rw [List.flatMap_cons, parse_part_store hsize hinserted, Program.effects_bind]
          refine Program.atLeast_bind_of_forall _ fun lefts => ?_
          rw [Program.effects_bind]
          -- An early save is in this part, or in a later one.
          by_cases hreads : QuietReads (leftBehind part.messages) content packet i part.stretches
          · have hrest : ¬ QuietFrom content packet (i + part.count) (next :: rest) :=
              fun h => hquiet ⟨hreads, h⟩
            exact Program.atLeast_bind_of_forall _ fun _ => ih hinserted.2.2.2 hrest
          · have hone := fun buffer => @parse_insertions_atLeast_one content packet hsize
              (next :: rest) (i + part.count) buffer (List.cons_ne_nil _ _) hinserted.2.2.2
            exact (earlySaves_atLeast_of_not_quiet hreads).bind (Program.returns_true _)
              fun _ _ => hone _

theorem inserted_withoutMessages {parts : List Part} :
    ∀ {i : Nat}, Inserted content packet i parts →
      Inserted content packet i (parts.map Part.withoutMessages) := by
  induction parts with
  | nil =>
      intro i h
      exact h
  | cons part rest ih =>
      intro i h
      refine ⟨?_, h.2.1, h.2.2.1, ih h.2.2.2⟩
      intro message hmessage
      cases hmessage

theorem quietFrom_withoutMessages (hsize : content.length ≤ lenBlockBuffer) {parts : List Part} :
    ∀ {i : Nat}, Inserted content packet i parts →
      QuietFrom content packet i (parts.map Part.withoutMessages) := by
  induction parts with
  | nil =>
      intro i _
      trivial
  | cons part rest ih =>
      intro i h
      exact ⟨quietReads_fill h.lt hsize part.stretches, ih h.2.2.2⟩

omit content packet in
theorem serveParts_withoutMessages (parts : List Part) :
    ∀ i, serveParts i (parts.map Part.withoutMessages) = .ret [] := by
  induction parts with
  | nil =>
      intro i
      rfl
  | cons part rest ih =>
      intro i
      rw [List.map_cons, serveParts]
      change (serveParts (i + part.count) (rest.map Part.withoutMessages) >>= fun later =>
        .ret ([] ++ later)) = _
      rw [ih]
      rfl

end Parts

end RobotServer
