import RobotServer.Model.World
import RobotServer.Transfer.Packets
import RobotServer.Transfer.ReadLoop

/-!
# Upload — a block is reassembled whatever the reads

An upload is the packets of a file arriving on a connection.  `uploadAt` computes the connection
after any number of its bytes from the file alone; a read inside a packet, at the end of a packet
and at the end of the file are `receive_wait`, `receive_store` and `receive_save`, and reading on
from there is `parse_upload` and `parse_upload_part`.
-/

namespace RobotServer

open CText Memory Interaction

/-! ## The connection during an upload -/

/-- What the end of an upload does: the block is saved, acknowledged and multicast. -/
def uploadDone (packet : DeviceId) (content : List Byte) : Action Unit := do
  writeDat (genBlockFilePathName (hextostring packet.toList)) content
  apolloReturnPacket (ascii "SETOK%")
  startApolloSynerAction ⟨hextostring packet.toList, multicastTypeAgps⟩

/-- Nothing is awaited on the connection, and what an earlier message left in the packet buffer
cannot pass for a negative length. -/
structure Idle (client : BlockBuffer) : Prop where
  index_eq : client.index = 0
  peek_ne : client.packet.peek 30 ≠ 0xFF

theorem idle_zero : Idle BlockBuffer.zero where
  index_eq := rfl
  peek_ne := by
    have hpeek : (Cells.fill 0 : PacketBuffer).peek 30 = 0 := Cells.peek_fill (by decide)
    rw [BlockBuffer.zero, hpeek]
    decide

/-! ## A packet over what stood there before -/

section Overlay

/-- A packet buffer with the first `m` bytes of packet `i` at its head. -/
def overlay (base : PacketBuffer) (content : List Byte) (packet : DeviceId) (i m : Nat) :
    PacketBuffer :=
  base.place 0 ((packetAt content packet i).take m)

variable {base : PacketBuffer} {content : List Byte} {packet : DeviceId}

theorem overlay_peek_of_lt {i m x : Nat} (hx : x < m)
    (hm : m ≤ (packetAt content packet i).length) :
    (overlay base content packet i m).peek x = (packetAt content packet i).getD x 0 := by
  have hle := packetAt_length_le content packet i
  have htake : ((packetAt content packet i).take m).length = m := List.length_take_of_le hm
  have hpeek := Cells.peek_place_add base 0 ((packetAt content packet i).take m)
    (show 0 + x < 1024 by omega) (by omega)
  rw [Nat.zero_add] at hpeek
  rw [overlay, hpeek, List.getD_eq_getElem?_getD, List.getElem?_take_of_lt hx,
    List.getD_eq_getElem?_getD]
  rfl

theorem overlay_peek_of_le {i m x : Nat} (hx : m ≤ x) (hlt : x < 1024) :
    (overlay base content packet i m).peek x = base.peek x := by
  have htake : ((packetAt content packet i).take m).length ≤ m := List.length_take_le _ _
  exact Cells.peek_place_of_le hlt (by omega)

variable (base packet)

/-- With 32 bytes the whole header is there. -/
theorem overlay_holdsHeader {i m : Nat} (h32 : 32 ≤ m)
    (hm : m ≤ (packetAt content packet i).length) :
    HoldsHeader (overlay base content packet i m) packet (packetTotal content.length) i
      (packetData content i).length := by
  intro x hx _
  rw [overlay_peek_of_lt (by omega) hm, packetAt_getD_header hx]

theorem overlay_peek_zero {i m : Nat} (hpos : 0 < m)
    (hm : m ≤ (packetAt content packet i).length) :
    (overlay base content packet i m).peek 0 = 0x56 := by
  rw [overlay_peek_of_lt hpos hm, packetAt_getD_header (by decide)]
  exact (packetHeader_getD _ _ _ _).1

/-- With all its bytes packet `i` is there. -/
theorem overlay_holdsPacket {i m : Nat} (hm : m = (packetAt content packet i).length) :
    HoldsPacket (overlay base content packet i m) content packet i :=
  .of_peek fun x hx _ => overlay_peek_of_lt (by omega) hm.le

variable {base packet}

/-- A length field whose high byte is not -1 asks for the whole header at least. -/
theorem le_toUnsigned_dataLengthOf {b30 : Byte} (h : b30 ≠ 0xFF) (b31 : Byte) :
    32 ≤ toUnsigned (dataLengthOf b30 b31 + lenHeaderLength) := by
  have h30 := b30.toNat_lt
  have h31 := b31.toNat_lt
  have hne : b30.toNat ≠ 255 := fun he => h (UInt8.toNat_inj.mp he)
  simp only [toUnsigned, dataLengthOf, schar, lenHeaderLength]
  split <;> omega

/-- Before its last byte, no packet whose header is there passes for a complete last one. -/
theorem overlay_incomplete {i m : Nat} (hi : i < packetTotal content.length)
    (hsize : content.length ≤ lenBlockBuffer) (h32 : 32 ≤ m)
    (hm : m < (packetAt content packet i).length) :
    m < toUnsigned ((blockHeader (overlay base content packet i m)).dataLength +
      lenHeaderLength) := by
  have htotal := packetTotal_le hsize
  have hheader := overlay_holdsHeader base packet h32 hm.le
  rw [hheader.blockHeader_eq (by omega) (by omega) (packetData_length_le _ _)]
  have hdata := packetData_length_le content i
  rw [packetAt_length] at hm
  simp only [toUnsigned, lenHeaderLength]
  omega

/-- Before its last byte, no packet passes for a complete last one when what stood there before
cannot pass for a negative length. -/
theorem overlay_incomplete_of_peek_ne (hbase : base.peek 30 ≠ 0xFF) {i m : Nat}
    (hi : i < packetTotal content.length) (hsize : content.length ≤ lenBlockBuffer)
    (hm : m < (packetAt content packet i).length) :
    m < toUnsigned ((blockHeader (overlay base content packet i m)).dataLength +
      lenHeaderLength) := by
  by_cases h32 : 32 ≤ m
  · exact overlay_incomplete hi hsize h32 hm
  · -- Byte 30 is the one the sender wrote or the one that stood there before.
    have h30 : (overlay base content packet i m).peek 30 ≠ 0xFF := by
      by_cases hlt : 30 < m
      · rcases packetHeader_getD packet (packetTotal content.length) i
          (packetData content i).length with ⟨-, -, -, -, h30, -, -⟩
        have hdata := packetData_length_le content i
        have hpeek := @overlay_peek_of_lt base content packet i m 30 hlt hm.le
        intro he
        have hnat := congrArg UInt8.toNat (hpeek.symm.trans he)
        rw [packetAt_getD_header (by decide), h30, UInt8.toNat_ofNat'] at hnat
        change _ = 255 at hnat
        omega
      · have hpeek := @overlay_peek_of_le base content packet i m 30 (by omega) (by decide)
        exact fun he => hbase (hpeek.symm.trans he)
    have hle := le_toUnsigned_dataLengthOf h30 ((overlay base content packet i m).peek 31)
    exact lt_of_lt_of_le (by omega) hle

/-- A read inside a packet extends what is there of it. -/
theorem place_overlay {i m : Nat} {t : List Byte} (hm : m ≤ (packetAt content packet i).length)
    (ht : t = ((packetAt content packet i).drop m).take t.length) :
    (overlay base content packet i m).place m t = overlay base content packet i (m + t.length) := by
  have htake : ((packetAt content packet i).take m).length = m := List.length_take_of_le hm
  have hplace := Cells.place_place base 0 ((packetAt content packet i).take m) t
  rw [htake, Nat.zero_add] at hplace
  rw [overlay, hplace, overlay, List.take_add, ← ht]

theorem dispatch_block {client : BlockBuffer} (h : client.packet.peek 0 = 0x56)
    (blockIndex nbytes : Nat) :
    dispatch client blockIndex nbytes = blockDataRecv client blockIndex nbytes := by
  simp [dispatch, h]

/-- A complete last packet saves the block, wherever its other parts came from. -/
theorem blockDataRecv_last {client : BlockBuffer} {i blockIndex nbytes : Nat}
    (h : HoldsPacket client.packet content packet i) (hi : i + 1 = packetTotal content.length)
    (hsize : content.length ≤ lenBlockBuffer)
    (hm : (packetAt content packet i).length ≤ blockIndex + nbytes) :
    blockDataRecv client blockIndex nbytes =
      uploadDone packet ((client.buffer.place (i * 992) (packetData content i)).slice 0
        content.length) >>= fun _ =>
        .ret ({ client with
          buffer := client.buffer.place (i * 992) (packetData content i)
          index := blockIndex + nbytes }, blockIndex + nbytes) := by
  have hlt : i < packetTotal content.length := by omega
  have hlast := (h.isLast_iff hlt hsize).mpr hi
  have hlength := packetAt_length content packet i
  have hdataLe := packetData_length_le content i
  have hid : deviceIdText client.packet = hextostring packet.toList :=
    congrArg hextostring h.header.slice_deviceId
  -- The length in the header is reached by what was received.
  have hcomplete : toUnsigned ((blockHeader client.packet).dataLength + (lenHeaderLength : Nat)) ≤
      blockIndex + nbytes := by
    rw [h.blockHeader_eq hlt hsize]
    simp only [toUnsigned, lenHeaderLength]
    omega
  rw [blockDataRecv, storePacket, if_neg (fun hfull => hfull.2 hlast)]
  simp only [Program.pure_eq_ret, Program.ret_bind]
  rw [saveBlock, if_pos ⟨hlast, hcomplete⟩, h.copyBlockData_eq hlt hsize le_rfl]
  simp only [Program.ofOption_some, Program.ret_bind, hid]
  rw [h.blockOff_add_dataLength hi hsize, Cells.upTo?_of_le hsize]
  simp only [Program.ofOption_some, Program.ret_bind, uploadDone, bind_assoc, Program.pure_eq_ret]

/-- A read that ends inside a packet is tested for a last packet. -/
theorem receive_overlay_wait (buffer : BlockData) {i m : Nat} {t : List Byte} (hne : t ≠ [])
    (hm : m + t.length < (packetAt content packet i).length)
    (ht : t = ((packetAt content packet i).drop m).take t.length) :
    receive ⟨buffer, overlay base content packet i m, m⟩ m t =
      saveBlock ⟨buffer, overlay base content packet i (m + t.length), m + t.length⟩
        (blockHeader (overlay base content packet i (m + t.length))) (m + t.length) := by
  have hpos := List.length_pos_of_ne_nil hne
  have hfull := packetAt_length_le content packet i
  have hzero := overlay_peek_zero base packet (by omega) hm.le
  rw [receive, place_overlay (by omega) ht, dispatch_block hzero, blockDataRecv, storePacket,
    if_neg (by simp only [lenBlockPacket]; omega)]
  rfl

/-- A read that ends a packet stores it, unless it is the last one. -/
theorem receive_overlay_store (buffer : BlockData) {i m : Nat} {t : List Byte}
    (hi : i + 1 < packetTotal content.length) (hsize : content.length ≤ lenBlockBuffer)
    (hm : m + t.length = (packetAt content packet i).length)
    (ht : t = ((packetAt content packet i).drop m).take t.length) :
    receive ⟨buffer, overlay base content packet i m, m⟩ m t =
      .ret (⟨buffer.place (i * 992) (packetData content i), Cells.fill 0, 0⟩, 0) := by
  have hlt : i < packetTotal content.length := by omega
  have hfull : (packetAt content packet i).length = 1024 := packetAt_length_of_lt hi
  have hholds := overlay_holdsPacket base packet hm
  have hlast : ¬ ((blockHeader (overlay base content packet i (m + t.length))).pktIndex + 1 =
      (blockHeader (overlay base content packet i (m + t.length))).pktTotal) := by
    rw [hholds.isLast_iff hlt hsize]
    exact hi.ne
  rw [receive, place_overlay (by omega) ht, dispatch_block hholds.header.peek_zero, blockDataRecv,
    storePacket, if_pos ⟨by simp only [lenBlockPacket]; omega, hlast⟩,
    hholds.copyBlockData_eq hlt hsize le_rfl]
  simp only [Program.ofOption_some, Program.pure_eq_ret, Program.ret_bind]
  exact if_neg fun h => hlast h.1

/-- A read that ends the last packet saves the block. -/
theorem receive_overlay_save (buffer : BlockData) {i m : Nat} {t : List Byte}
    (hi : i + 1 = packetTotal content.length) (hsize : content.length ≤ lenBlockBuffer)
    (hm : m + t.length = (packetAt content packet i).length)
    (ht : t = ((packetAt content packet i).drop m).take t.length) :
    receive ⟨buffer, overlay base content packet i m, m⟩ m t =
      uploadDone packet ((buffer.place (i * 992) (packetData content i)).slice 0
        content.length) >>= fun _ =>
        .ret (⟨buffer.place (i * 992) (packetData content i),
          overlay base content packet i (m + t.length), m + t.length⟩, m + t.length) := by
  have hholds := overlay_holdsPacket base packet hm
  rw [receive, place_overlay (by omega) ht, dispatch_block hholds.header.peek_zero,
    blockDataRecv_last hholds hi hsize hm.ge]

end Overlay

/-! ## The connection after some bytes of an upload -/

section Upload

variable (client : BlockBuffer) (content : List Byte) (packet : DeviceId)

/-- What stands in the packet buffer before packet `i` arrives. -/
def packetBase (i : Nat) : PacketBuffer :=
  if i = 0 then client.packet else Cells.fill 0

/-- The packet buffer after `m` bytes of packet `i`. -/
def filledPacket (i m : Nat) : PacketBuffer :=
  (packetBase client i).place 0 ((packetAt content packet i).take m)

/-- The connection after `i` packets and `m` bytes of packet `i`. -/
def uploadAt (i m : Nat) : BlockBuffer where
  buffer := client.buffer.place 0 (content.take (i * 992))
  packet := filledPacket client content packet i m
  index := m

/-- The connection when the upload is over: its last packet stays in the packet buffer. -/
def uploadEnd : BlockBuffer where
  buffer := client.buffer.place 0 content
  packet := filledPacket client content packet (packetTotal content.length - 1)
    (packetAt content packet (packetTotal content.length - 1)).length
  index := (packetAt content packet (packetTotal content.length - 1)).length

/-- The bytes of the upload from byte `m` of packet `i` on. -/
def remaining (i m : Nat) : List Byte :=
  (packetAt content packet i).drop m ++ ((packetsOf content packet).drop (i + 1)).flatten

variable {client content packet}

theorem packetBase_peek_ne (h : Idle client) (i : Nat) : (packetBase client i).peek 30 ≠ 0xFF := by
  unfold packetBase
  split
  · exact h.peek_ne
  · rw [Cells.peek_fill (by decide)]
    decide

theorem uploadAt_zero (h : Idle client) : uploadAt client content packet 0 0 = client := by
  have hindex := h.index_eq
  cases client
  simp_all [uploadAt, filledPacket, packetBase]

/-! ## One read of an upload -/

/-- Before its last byte, no packet passes for a complete last one. -/
theorem filledPacket_incomplete (hidle : Idle client) {i m : Nat}
    (hi : i < packetTotal content.length) (hsize : content.length ≤ lenBlockBuffer)
    (hm : m < (packetAt content packet i).length) :
    m < toUnsigned ((blockHeader (filledPacket client content packet i m)).dataLength +
      lenHeaderLength) :=
  overlay_incomplete_of_peek_ne (packetBase_peek_ne hidle i) hi hsize hm

/-- Storing packet `i` extends the part of the file that is there. -/
theorem place_take_packetData {i : Nat} (hi : i < packetTotal content.length)
    (buffer : BlockData) :
    (buffer.place 0 (content.take (i * 992))).place (i * 992) (packetData content i) =
      buffer.place 0 (content.take ((i + 1) * 992)) := by
  have hstart := lt_packetTotal.mp hi
  have htake : (content.take (i * 992)).length = i * 992 := List.length_take_of_le hstart.le
  have hplace := Cells.place_place buffer 0 (content.take (i * 992)) (packetData content i)
  rw [htake, Nat.zero_add, take_append_packetData] at hplace
  exact hplace

/-- A read that ends inside a packet is kept. -/
theorem receive_wait (hidle : Idle client) {i m : Nat} {t : List Byte}
    (hi : i < packetTotal content.length) (hsize : content.length ≤ lenBlockBuffer)
    (hne : t ≠ []) (hm : m + t.length < (packetAt content packet i).length)
    (ht : t = ((packetAt content packet i).drop m).take t.length) :
    receive (uploadAt client content packet i m) m t =
      .ret (uploadAt client content packet i (m + t.length), m + t.length) := by
  have hwait := filledPacket_incomplete hidle hi hsize hm
  refine (receive_overlay_wait _ hne hm ht).trans ?_
  change saveBlock (uploadAt client content packet i (m + t.length)) (blockHeader
    (filledPacket client content packet i (m + t.length))) (m + t.length) = _
  exact if_neg fun h => Nat.not_lt.mpr h.2 hwait

/-- A read that ends a packet stores it, unless it is the last one. -/
theorem receive_store {i m : Nat} {t : List Byte} (hi : i + 1 < packetTotal content.length)
    (hsize : content.length ≤ lenBlockBuffer)
    (hm : m + t.length = (packetAt content packet i).length)
    (ht : t = ((packetAt content packet i).drop m).take t.length) :
    receive (uploadAt client content packet i m) m t =
      .ret (uploadAt client content packet (i + 1) 0, 0) := by
  refine (receive_overlay_store _ hi hsize hm ht).trans ?_
  rw [place_take_packetData (by omega)]
  simp [uploadAt, filledPacket, packetBase]

/-- A read that ends the last packet saves the file. -/
theorem receive_save {i m : Nat} {t : List Byte} (hi : i + 1 = packetTotal content.length)
    (hsize : content.length ≤ lenBlockBuffer)
    (hm : m + t.length = (packetAt content packet i).length)
    (ht : t = ((packetAt content packet i).drop m).take t.length) :
    receive (uploadAt client content packet i m) m t =
      uploadDone packet content >>= fun _ =>
        .ret (uploadEnd client content packet, m + t.length) := by
  have hlt : i < packetTotal content.length := by omega
  have hplace := place_take_packetData hlt client.buffer
  rw [take_packets hi] at hplace
  have hslice : ((client.buffer.place 0 (content.take (i * 992))).place (i * 992)
      (packetData content i)).slice 0 content.length = content := by
    rw [hplace]
    exact Cells.slice_place_self client.buffer 0 content (by rw [Nat.zero_add]; exact hsize)
  refine (receive_overlay_save _ hi hsize hm ht).trans ?_
  rw [hslice, hplace]
  simp only [uploadEnd, filledPacket, overlay, ← hi, Nat.add_sub_cancel, ← hm]

/-! ## Reading on through an upload -/

theorem remaining_last {i : Nat} (h : i + 1 = packetTotal content.length) (m : Nat) :
    remaining content packet i m = (packetAt content packet i).drop m := by
  have hdrop : (packetsOf content packet).drop (i + 1) = [] := by
    refine List.drop_of_length_le ?_
    simp [packetsOf, h]
  rw [remaining, hdrop, List.flatten_nil, List.append_nil]

theorem remaining_next {i : Nat} (h : i + 1 < packetTotal content.length) (m : Nat) :
    remaining content packet i m =
      (packetAt content packet i).drop m ++ remaining content packet (i + 1) 0 := by
  have hlen : i + 1 < (packetsOf content packet).length := by simpa [packetsOf] using h
  have hget : (packetsOf content packet)[i + 1] = packetAt content packet (i + 1) := by
    simp [packetsOf]
  rw [remaining, List.drop_eq_getElem_cons hlen, hget]
  simp [remaining]

theorem remaining_zero (h : 0 < content.length) :
    remaining content packet 0 0 = packetBytes content packet := by
  have htotal : 0 < packetTotal content.length := packetTotal_pos h
  have hlen : 0 < (packetsOf content packet).length := by simpa [packetsOf] using htotal
  have hsplit := List.drop_eq_getElem_cons hlen
  have hget : (packetsOf content packet)[0] = packetAt content packet 0 := by simp [packetsOf]
  rw [List.drop_zero, hget] at hsplit
  rw [packetBytes_eq_flatten, hsplit, List.flatten_cons]
  rfl

/-- A read of an upload stays inside the packet that is being received. -/
theorem removed_within {i m : Nat} {input : Evbuffer} (hi : i < packetTotal content.length)
    (hm : m < (packetAt content packet i).length)
    (hpre : input.flatten <+: remaining content packet i m) :
    let t := (evbufferRemove (lenBlockPacket - m) input).1
    t = ((packetAt content packet i).drop m).take t.length ∧
      m + t.length ≤ (packetAt content packet i).length := by
  intro t
  have hle : t.length ≤ 1024 - m := evbufferRemove_length_le (lenBlockPacket - m) input
  have ht : t <+: remaining content packet i m :=
    List.IsPrefix.trans ⟨_, evbufferRemove_flatten (lenBlockPacket - m) input⟩ hpre
  have hdrop : ((packetAt content packet i).drop m).length =
      (packetAt content packet i).length - m := List.length_drop
  have hroom : m + t.length ≤ (packetAt content packet i).length := by
    by_cases hlast : i + 1 = packetTotal content.length
    · rw [remaining_last hlast] at ht
      have htl := ht.length_le
      omega
    · have hfull : (packetAt content packet i).length = 1024 := packetAt_length_of_lt (by omega)
      omega
  have hprefix : t <+: (packetAt content packet i).drop m :=
    List.prefix_of_prefix_length_le ht (List.prefix_append _ _) (by omega)
  exact ⟨List.prefix_iff_eq_take.mp hprefix, hroom⟩

theorem removed_ne_nil {i m : Nat} {input : Evbuffer} (hm : m < (packetAt content packet i).length)
    (hne : input.flatten ≠ []) : (evbufferRemove (lenBlockPacket - m) input).1 ≠ [] := by
  intro hnil
  have hfull := packetAt_length_le content packet i
  rcases evbufferRemove_eq_nil hnil with ⟨hempty, -⟩ | hzero
  · exact hne hempty
  · simp only [lenBlockPacket] at hzero
    omega

/-- What is left of the upload behind a read. -/
theorem remaining_step {i m : Nat} {t : List Byte}
    (ht : t = ((packetAt content packet i).drop m).take t.length) :
    remaining content packet i m = t ++ remaining content packet i (m + t.length) := by
  have hsplit : (packetAt content packet i).drop m =
      t ++ (packetAt content packet i).drop (m + t.length) := by
    calc
      (packetAt content packet i).drop m =
          ((packetAt content packet i).drop m).take t.length ++
            ((packetAt content packet i).drop m).drop t.length :=
        (List.take_append_drop _ _).symm
      _ = t ++ (packetAt content packet i).drop (m + t.length) := by
        rw [← ht, List.drop_drop]
  rw [remaining, hsplit, List.append_assoc]
  rfl

/-- At the end of a packet the next one remains. -/
theorem remaining_packet_end {i m : Nat} (h : i + 1 < packetTotal content.length)
    (hm : m = (packetAt content packet i).length) :
    remaining content packet i m = remaining content packet (i + 1) 0 := by
  rw [remaining_next h, hm, List.drop_length, List.nil_append]

theorem remaining_end {i m : Nat} (h : i + 1 = packetTotal content.length)
    (hm : m = (packetAt content packet i).length) : remaining content packet i m = [] := by
  rw [remaining_last h, hm, List.drop_length]

theorem remaining_ne_nil {i m : Nat} (hm : m < (packetAt content packet i).length) :
    remaining content packet i m ≠ [] := by
  intro hnil
  have hdrop : (packetAt content packet i).drop m = [] := (List.append_eq_nil_iff.mp hnil).1
  have hlen := congrArg List.length hdrop
  rw [List.length_drop, List.length_nil] at hlen
  omega

theorem packetAt_pos {i : Nat} : 0 < (packetAt content packet i).length := by
  rw [packetAt_length]
  omega

theorem uploadAt_index_le {i m : Nat} (hm : m ≤ (packetAt content packet i).length) :
    (uploadAt client content packet i m).index ≤ lenBlockPacket :=
  hm.trans (packetAt_length_le _ _ _)

theorem uploadEnd_index_le : (uploadEnd client content packet).index ≤ lenBlockPacket :=
  packetAt_length_le _ _ _

/-- The rest of an upload completes it, and reading goes on behind it. -/
theorem parse_upload (hidle : Idle client) (hsize : content.length ≤ lenBlockBuffer) (n : Nat) :
    ∀ {i m : Nat} {input : Evbuffer}, i < packetTotal content.length →
      m < (packetAt content packet i).length → input.flatten.length ≤ n →
      input.flatten = remaining content packet i m → ∀ later : Evbuffer,
        parse (uploadAt client content packet i m) (input ++ later) =
          uploadDone packet content >>= fun _ =>
            parse (uploadEnd client content packet) later := by
  induction n with
  | zero =>
      intro i m input hi hm hn hflat later
      have hnil : input.flatten = [] := List.eq_nil_of_length_eq_zero (Nat.le_zero.mp hn)
      exact absurd (hflat.symm.trans hnil) (remaining_ne_nil hm)
  | succ n ih =>
      intro i m input hi hm hn hflat later
      have hne : input.flatten ≠ [] := hflat ▸ remaining_ne_nil hm
      have hremoved := removed_ne_nil hm hne
      have hlen := evbufferRemove_length (lenBlockPacket - m) input
      have hpos := List.length_pos_of_ne_nil hremoved
      rcases removed_within hi hm ⟨[], by rw [List.append_nil, hflat]⟩ with ⟨ht, hroom⟩
      -- The read and what it leaves are the upload that remains.
      have hrest : (evbufferRemove (lenBlockPacket - m) input).2.flatten = remaining content packet i
          (m + (evbufferRemove (lenBlockPacket - m) input).1.length) := by
        have hsplit := evbufferRemove_flatten (lenBlockPacket - m) input
        rw [hflat, remaining_step ht] at hsplit
        exact List.append_cancel_left hsplit
      rw [parse_eq (uploadAt_index_le hm.le)]
      simp only [show (uploadAt client content packet i m).index = m from rfl,
        evbufferRemove_append _ hne, if_neg hremoved]
      rcases Nat.lt_or_eq_of_le hroom with hlt | heq
      · rw [receive_wait hidle hi hsize hremoved hlt ht]
        exact ih hi hlt (by omega) hrest later
      · rcases Nat.lt_or_eq_of_le (Nat.succ_le_of_lt hi) with hnext | hlast
        · rw [receive_store hnext hsize heq ht]
          rw [remaining_packet_end hnext heq] at hrest
          exact ih hnext packetAt_pos (by omega) hrest later
        · rw [receive_save hlast hsize heq ht, bind_assoc]
          rw [remaining_end hlast heq] at hrest
          congr 1
          funext _
          exact parse_empty_append uploadEnd_index_le hrest later

/-- A part of an upload, as long as its last byte is missing, has no effect. -/
theorem parse_upload_part (hidle : Idle client) (hsize : content.length ≤ lenBlockBuffer)
    (n : Nat) :
    ∀ {i m : Nat} {input : Evbuffer}, i < packetTotal content.length →
      m < (packetAt content packet i).length → input.flatten.length ≤ n →
      input.flatten <+: remaining content packet i m →
      input.flatten ≠ remaining content packet i m →
        ∃ client', parse (uploadAt client content packet i m) input = .ret (client', []) := by
  induction n with
  | zero =>
      intro i m input hi hm hn _ _
      have hnil : input.flatten = [] := List.eq_nil_of_length_eq_zero (Nat.le_zero.mp hn)
      exact ⟨_, parse_nil (uploadAt_index_le hm.le) hnil⟩
  | succ n ih =>
      intro i m input hi hm hn hpre hpart
      by_cases hnil : input.flatten = []
      · exact ⟨_, parse_nil (uploadAt_index_le hm.le) hnil⟩
      · have hremoved := removed_ne_nil hm hnil
        have hlen := evbufferRemove_length (lenBlockPacket - m) input
        have hpos := List.length_pos_of_ne_nil hremoved
        have hsplit := evbufferRemove_flatten (lenBlockPacket - m) input
        rcases removed_within hi hm hpre with ⟨ht, hroom⟩
        have hpre' : (evbufferRemove (lenBlockPacket - m) input).2.flatten <+:
            remaining content packet i
              (m + (evbufferRemove (lenBlockPacket - m) input).1.length) := by
          rw [← hsplit, remaining_step ht] at hpre
          exact (List.prefix_append_right_inj _).mp hpre
        have hpart' : (evbufferRemove (lenBlockPacket - m) input).2.flatten ≠
            remaining content packet i
              (m + (evbufferRemove (lenBlockPacket - m) input).1.length) := by
          intro heq
          rw [← hsplit, remaining_step ht, heq] at hpart
          exact hpart rfl
        rw [parse_eq (uploadAt_index_le hm.le)]
        simp only [show (uploadAt client content packet i m).index = m from rfl, if_neg hremoved]
        -- The packet is either still short of its end or full now.
        rcases Nat.lt_or_eq_of_le hroom with hlt | heq
        · rw [receive_wait hidle hi hsize hremoved hlt ht]
          exact ih hi hlt (by omega) hpre' hpart'
        · rcases Nat.lt_or_eq_of_le (Nat.succ_le_of_lt hi) with hnext | hlast
          · rw [receive_store hnext hsize heq ht]
            rw [remaining_packet_end hnext heq] at hpre' hpart'
            exact ih hnext packetAt_pos (by omega) hpre' hpart'
          · -- Behind the last packet nothing remains that could be missing.
            rw [remaining_end hlast heq] at hpre' hpart'
            exact absurd (List.prefix_nil.mp hpre') hpart'

end Upload

/-! ## The effects of an upload -/

/-- On an idle connection a whole upload is completed, whatever the reads and the calls. -/
theorem connection_upload {client : BlockBuffer} (hidle : Idle client) {packet : DeviceId}
    {content : List Byte} (hpos : 0 < content.length) (hsize : content.length ≤ lenBlockBuffer)
    {calls : List Evbuffer} (hcalls : calls.flatten.flatten = packetBytes content packet) :
    connection client [] calls =
      uploadDone packet content >>= fun _ => .ret (uploadEnd client content packet, []) := by
  have hindex : client.index ≤ lenBlockPacket := hidle.index_eq ▸ Nat.zero_le _
  have htotal : 0 < packetTotal content.length := packetTotal_pos hpos
  have hparse := parse_upload hidle hsize _ htotal packetAt_pos le_rfl
    (hcalls.trans (remaining_zero hpos).symm) []
  rw [uploadAt_zero hidle] at hparse
  rw [connection_eq_parse calls hindex (parse_nil hindex rfl), List.nil_append]
  rw [List.append_nil] at hparse
  rw [hparse, parse_nil uploadEnd_index_le rfl]

/-- On an idle connection a part of an upload has no effect, whatever the reads and the calls. -/
theorem connection_upload_part {client : BlockBuffer} (hidle : Idle client) {packet : DeviceId}
    {content : List Byte} (hpos : 0 < content.length) (hsize : content.length ≤ lenBlockBuffer)
    {calls : List Evbuffer} {received : Nat}
    (hcalls : calls.flatten.flatten = (packetBytes content packet).take received)
    (hpart : received < (packetBytes content packet).length) :
    ∃ client', connection client [] calls = .ret (client', []) := by
  have hindex : client.index ≤ lenBlockPacket := hidle.index_eq ▸ Nat.zero_le _
  have htotal : 0 < packetTotal content.length := packetTotal_pos hpos
  have hpre : calls.flatten.flatten <+: remaining content packet 0 0 := by
    rw [hcalls, remaining_zero hpos]
    exact List.take_prefix _ _
  have hne : calls.flatten.flatten ≠ remaining content packet 0 0 := by
    rw [hcalls, remaining_zero hpos]
    intro heq
    have hlen := congrArg List.length heq
    rw [List.length_take] at hlen
    omega
  have hparse := parse_upload_part hidle hsize _ htotal packetAt_pos le_rfl hpre hne
  rw [uploadAt_zero hidle] at hparse
  rw [connection_eq_parse calls hindex (parse_nil hindex rfl), List.nil_append]
  exact hparse

section Effects

variable {σ : Type} (E : Environment serverInterface σ)

theorem uploadDone_eq (packet : DeviceId) (content : List Byte) :
    uploadDone packet content =
      .call (.writeDat (genBlockFilePathName (hextostring packet.toList)) content) fun _ =>
        .call (.writeBuffer (ascii "SETOK%")) fun failed =>
          Program.onlyIf failed (perform .closeClient) >>= fun _ =>
            .call (.createThread
              (.apolloSynerAction ⟨hextostring packet.toList, multicastTypeAgps⟩)) .ret := rfl

/-- The run of `uploadDone`, for either reply of the socket. -/
theorem uploadDone_run (packet : DeviceId) (content : List Byte) (s : σ) :
    let outcome := (uploadDone packet content).run E s
    outcome.result = some () ∧
      outcome.trace.filter Op.isWriteDat =
        [.writeDat (genBlockFilePathName (hextostring packet.toList)) content] ∧
      outcome.trace.filter Op.isWriteBuffer = [.writeBuffer (ascii "SETOK%")] := by
  rw [uploadDone_eq, Program.run_call, Program.run_call]
  generalize E.answer (.writeBuffer (ascii "SETOK%")) _ = reply
  rcases reply with ⟨failed, s'⟩
  cases (failed : Bool) with
  | false => exact ⟨rfl, rfl, rfl⟩
  | true => exact ⟨rfl, rfl, rfl⟩

/-- **Reassembly is exact under every segmentation**: nothing happens before the last byte, and
the last byte saves exactly the file, once, and acknowledges it, once. -/
theorem connection_upload_exact (s : σ) (packet : DeviceId) (content : List Byte)
    (hpos : 0 < content.length) (hsize : content.length ≤ lenBlockBuffer) (calls : List Evbuffer)
    (received : Nat)
    (hcalls : calls.flatten.flatten = (packetBytes content packet).take received) :
    let outcome := (connection BlockBuffer.zero [] calls).run E s
    outcome.result.isSome ∧
      (received < (packetBytes content packet).length → outcome.trace = []) ∧
      ((packetBytes content packet).length ≤ received →
        outcome.trace.filter Op.isWriteDat =
            [.writeDat (genBlockFilePathName (hextostring packet.toList)) content] ∧
          outcome.trace.filter Op.isWriteBuffer = [.writeBuffer (ascii "SETOK%")]) := by
  intro outcome
  rcases Nat.lt_or_ge received (packetBytes content packet).length with hpart | hwhole
  · rcases connection_upload_part idle_zero hpos hsize hcalls hpart with ⟨client', hconnection⟩
    have houtcome : outcome = ⟨[], some (client', []), s⟩ := by
      simp only [outcome, hconnection, Program.run_ret]
    rw [houtcome]
    exact ⟨rfl, fun _ => rfl, fun hge => absurd hpart (Nat.not_lt.mpr hge)⟩
  · rw [List.take_of_length_le hwhole] at hcalls
    rcases uploadDone_run E packet content s with ⟨hresult, hsaved, hqueued⟩
    have houtcome : outcome = _ :=
      (congrArg (fun p => p.run E s) (connection_upload idle_zero hpos hsize hcalls)).trans
        (Program.run_bind_of_result E hresult)
    rw [houtcome]
    simp only [Program.run_ret, List.append_nil]
    exact ⟨rfl, fun hlt => absurd hlt (Nat.not_lt.mpr hwhole), fun _ => ⟨hsaved, hqueued⟩⟩

/-- A file of one byte, cut inside the header and received in two calls. -/
theorem connection_upload_exact_one_byte :
    let packet : DeviceId := Vector.replicate 8 0x11
    let calls := [[(packetBytes [7] packet).take 30], [(packetBytes [7] packet).drop 30]]
    (((connection BlockBuffer.zero [] calls).run world World.empty).trace.filter Op.isWriteDat =
        [.writeDat (genBlockFilePathName (hextostring packet.toList)) [7]]) ∧
      (((connection BlockBuffer.zero [] calls).run world World.empty).trace.filter
        Op.isWriteBuffer = [.writeBuffer (ascii "SETOK%")]) := by
  intro packet calls
  have hcalls : calls.flatten.flatten = (packetBytes [7] packet).take 33 := by decide
  exact (connection_upload_exact world World.empty packet [7] (by decide) (by decide) calls 33
    hcalls).2.2 (by decide)

end Effects

end RobotServer
