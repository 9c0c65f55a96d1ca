import RobotServer.Interaction.Performs
import RobotServer.Transfer.Upload

/-!
# PacketReads — packets read over what an earlier message left

A packet is read over the bytes that stand in the packet buffer.  Until its header is complete the
test for a last packet sees fields of both: `earlySaves` are the saves this leads to, and
`QuietReads` says that there are none.  Behind the header nothing of the earlier bytes is seen, so
any number of packets, in any reads, is stored (`parse_packets_store`) or stored and saved
(`parse_packets_save`) behind the early saves of the first one.
-/

namespace RobotServer

open CText Memory Interaction

/-! ## Packets one after another -/

section Packets

variable (content : List Byte) (packet : DeviceId)

/-- The bytes of `count` packets from packet `i` on. -/
def packetsFrom (i count : Nat) : List Byte :=
  (List.range' i count).flatMap (packetAt content packet)

/-- The part of the file that these packets carry. -/
def dataFrom (i count : Nat) : List Byte :=
  (content.drop (i * 992)).take (count * 992)

theorem flatten_packetAt (i : Nat) :
    [packetAt content packet i].flatten = packetsFrom content packet i 1 := rfl

theorem dataFrom_one (i : Nat) : dataFrom content i 1 = packetData content i := by
  rw [dataFrom, Nat.one_mul]
  rfl

theorem dataFrom_succ (i count : Nat) :
    dataFrom content i (count + 1) = packetData content i ++ dataFrom content (i + 1) count := by
  have hmul : (count + 1) * 992 = 992 + count * 992 := by omega
  have hdrop : i * 992 + 992 = (i + 1) * 992 := by omega
  rw [dataFrom, hmul, List.take_add, List.drop_drop, hdrop]
  rfl

variable {content}

/-- Packets stored one after another are stored as one stretch. -/
theorem place_dataFrom {i : Nat} (h : i + 1 < packetTotal content.length) (buffer : BlockData)
    (count : Nat) :
    (buffer.place (i * 992) (packetData content i)).place ((i + 1) * 992)
        (dataFrom content (i + 1) count) =
      buffer.place (i * 992) (dataFrom content i (count + 1)) := by
  have hplace := Cells.place_place buffer (i * 992) (packetData content i)
    (dataFrom content (i + 1) count)
  have hstart : i * 992 + 992 = (i + 1) * 992 := by omega
  rw [packetData_length_of_lt h, hstart] at hplace
  rw [hplace, dataFrom_succ]

end Packets

/-! ## Reads that end inside a header -/

/-- The header passes for the one of a last packet that is complete at `index`. -/
def PassesForLast (data : PacketBuffer) (index : Nat) : Prop :=
  (blockHeader data).pktIndex + 1 = (blockHeader data).pktTotal ∧
    toUnsigned ((blockHeader data).dataLength + lenHeaderLength) ≤ index

theorem saveBlock_of_passes {client : BlockBuffer} {index : Nat}
    (h : PassesForLast client.packet index) :
    saveBlock client (blockHeader client.packet) index =
      Program.ofOption (copyBlockData client.buffer client.packet (blockHeader client.packet)) >>=
        fun buffer => Program.ofOption (buffer.upTo? ((blockHeader client.packet).blockOff +
          (blockHeader client.packet).dataLength)) >>= fun saved =>
        writeDat (genBlockFilePathName (deviceIdText client.packet)) saved >>= fun _ =>
        apolloReturnPacket (ascii "SETOK%") >>= fun _ =>
        startApolloSynerAction ⟨deviceIdText client.packet, multicastTypeAgps⟩ >>= fun _ =>
          .ret ({ client with buffer := buffer }, index) := if_pos h

theorem saveBlock_of_not_passes {client : BlockBuffer} {index : Nat}
    (h : ¬ PassesForLast client.packet index) :
    saveBlock client (blockHeader client.packet) index = .ret (client, index) := if_neg h

section Early

variable (base : PacketBuffer) (content : List Byte) (packet : DeviceId) (i : Nat)

/-- No read ends inside the header of packet `i` where the header passes for a last one. -/
def QuietReads (stretches : Evbuffer) : Prop :=
  ∀ reads, reads <+: stretches → 0 < reads.flatten.length →
    reads.flatten.length < lenHeaderLength →
      ¬ PassesForLast (overlay base content packet i reads.flatten.length) reads.flatten.length

variable (buffer : BlockData)

/-- The test for a last packet after a read that ends at byte `m` of packet `i`. -/
def earlySave (m : Nat) : Action Unit :=
  (saveBlock ⟨buffer, overlay base content packet i m, m⟩
    (blockHeader (overlay base content packet i m)) m).effects

/-- The tests after the reads that end inside the header, from byte `m` on. -/
def earlySaves : Nat → Evbuffer → Action Unit
  | _, [] => .ret ()
  | m, stretch :: rest =>
      if stretch = [] then earlySaves m rest
      else if m + stretch.length < lenHeaderLength then
        earlySave base content packet i buffer (m + stretch.length) >>= fun _ =>
          earlySaves (m + stretch.length) rest
      else .ret ()

variable {base content packet i buffer}

theorem earlySave_eq_ret {m : Nat}
    (h : ¬ PassesForLast (overlay base content packet i m) m) :
    earlySave base content packet i buffer m = .ret () := by
  rw [earlySave, @saveBlock_of_not_passes ⟨buffer, overlay base content packet i m, m⟩ m h]
  rfl

/-- A length field that passes for an end inside the header is negative. -/
theorem toNat_dataLength_eq_zero {data : PacketBuffer} {index : Nat}
    (h : PassesForLast data index) (hindex : index < lenHeaderLength) :
    (blockHeader data).dataLength.toNat = 0 := by
  have hle := h.2
  have h30 := (data.peek 30).toNat_lt
  have h31 := (data.peek 31).toNat_lt
  simp only [toUnsigned, blockHeader, dataLengthOf, schar, lenHeaderLength] at hle hindex ⊢
  split at hle <;> omega

/-- A save inside the header changes nothing of the connection. -/
theorem saveBlock_early {m : Nat} (hm : m < lenHeaderLength) :
    saveBlock ⟨buffer, overlay base content packet i m, m⟩
        (blockHeader (overlay base content packet i m)) m =
      earlySave base content packet i buffer m >>= fun _ =>
        .ret (⟨buffer, overlay base content packet i m, m⟩, m) := by
  by_cases h : PassesForLast (overlay base content packet i m) m
  · have hcopy : copyBlockData buffer (overlay base content packet i m)
        (blockHeader (overlay base content packet i m)) = some buffer := by
      rw [copyBlockData, toNat_dataLength_eq_zero h hm]
      rfl
    rw [earlySave, @saveBlock_of_passes ⟨buffer, overlay base content packet i m, m⟩ m h]
    simp only [hcopy, Program.ofOption_some, Program.ret_bind, Program.effects, bind_assoc]
  · rw [earlySave_eq_ret h]
    exact @saveBlock_of_not_passes ⟨buffer, overlay base content packet i m, m⟩ m h

/-- A header that passes for a last one saves what stands in the block buffer. -/
theorem earlySave_atLeast {m : Nat} (h : PassesForLast (overlay base content packet i m) m) :
    (earlySave base content packet i buffer m).AtLeast Op.isWriteDat 1 := by
  rw [earlySave, @saveBlock_of_passes ⟨buffer, overlay base content packet i m, m⟩ m h,
    Program.effects_bind]
  dsimp only
  cases copyBlockData buffer (overlay base content packet i m)
      (blockHeader (overlay base content packet i m)) with
  | none => trivial
  | some stored =>
      rw [Program.ofOption_some, Program.ret_bind, Program.effects_bind]
      cases stored.upTo? ((blockHeader (overlay base content packet i m)).blockOff +
          (blockHeader (overlay base content packet i m)).dataLength) with
      | none => trivial
      | some saved => exact fun _ => Program.atLeast_zero _

/-- Quiet reads save nothing inside the header. -/
theorem earlySaves_eq_ret {stretches : Evbuffer} :
    ∀ {m : Nat}, (∀ reads, reads <+: stretches → 0 < reads.flatten.length →
      m + reads.flatten.length < lenHeaderLength →
        ¬ PassesForLast (overlay base content packet i (m + reads.flatten.length))
          (m + reads.flatten.length)) →
      earlySaves base content packet i buffer m stretches = .ret () := by
  induction stretches with
  | nil =>
      intro m _
      rfl
  | cons stretch rest ih =>
      intro m h
      -- The reads of the rest stand behind the first one.
      have hrest : ∀ reads, reads <+: rest →
          (stretch :: reads) <+: (stretch :: rest) := fun reads hreads =>
        (List.prefix_cons_inj stretch).mpr hreads
      have hlength : ∀ reads : Evbuffer, (stretch :: reads).flatten.length =
          stretch.length + reads.flatten.length := by
        intro reads
        rw [List.flatten_cons, List.length_append]
      rw [earlySaves]
      split
      · next hnil =>
          refine ih ?_
          intro reads hreads hpos hlt
          have hread := h (stretch :: reads) (hrest reads hreads)
          rw [hlength, hnil, List.length_nil, Nat.zero_add] at hread
          exact hread hpos hlt
      · next hne =>
          have hpos := List.length_pos_of_ne_nil hne
          split
          · next hlt =>
              have hread := h [stretch] (hrest [] (List.nil_prefix))
              rw [hlength, List.flatten_nil, List.length_nil, Nat.add_zero] at hread
              rw [earlySave_eq_ret (hread hpos hlt), Program.ret_bind]
              refine ih ?_
              intro reads hreads hpos' hlt'
              have hnext := h (stretch :: reads) (hrest reads hreads)
              rw [hlength, ← Nat.add_assoc] at hnext
              exact hnext (by omega) hlt'
          · rfl

theorem QuietReads.earlySaves_eq {stretches : Evbuffer}
    (h : QuietReads base content packet i stretches) :
    earlySaves base content packet i buffer 0 stretches = .ret () := by
  refine earlySaves_eq_ret ?_
  intro reads hreads hpos hlt
  rw [Nat.zero_add] at hlt ⊢
  exact h reads hreads hpos hlt

/-- A read that ends where the header passes for a last one leads to a save. -/
theorem earlySaves_atLeast {stretches : Evbuffer} :
    ∀ {m : Nat} {reads : Evbuffer}, reads <+: stretches → 0 < reads.flatten.length →
      m + reads.flatten.length < lenHeaderLength →
      PassesForLast (overlay base content packet i (m + reads.flatten.length))
        (m + reads.flatten.length) →
      (earlySaves base content packet i buffer m stretches).AtLeast Op.isWriteDat 1 := by
  induction stretches with
  | nil =>
      intro m reads hreads hpos
      rw [List.prefix_nil.mp hreads] at hpos
      exact absurd hpos (Nat.lt_irrefl 0)
  | cons stretch rest ih =>
      intro m reads hreads hpos hlt hpasses
      rcases List.prefix_cons_iff.mp hreads with rfl | ⟨reads', rfl, hreads'⟩
      · exact absurd hpos (Nat.lt_irrefl 0)
      rw [List.flatten_cons, List.length_append] at hpos hlt hpasses
      rw [earlySaves]
      split
      · next hnil =>
          rw [hnil, List.length_nil, Nat.zero_add] at hpos hlt hpasses
          exact ih hreads' hpos hlt hpasses
      · rw [if_pos (Nat.lt_of_le_of_lt (by omega) hlt)]
        by_cases hzero : reads'.flatten.length = 0
        · -- The read ends here.
          rw [hzero, Nat.add_zero] at hpasses
          exact (earlySave_atLeast hpasses).bind (Program.returns_true _) fun _ _ =>
            Program.atLeast_zero _
        · rw [← Nat.add_assoc] at hlt hpasses
          -- The save comes with a later read.
          have hnext := ih hreads' (Nat.pos_of_ne_zero hzero) hlt hpasses
          exact Program.atLeast_bind_of_forall _ fun _ => hnext

theorem earlySaves_atLeast_of_not_quiet {stretches : Evbuffer}
    (h : ¬ QuietReads base content packet i stretches) :
    (earlySaves base content packet i buffer 0 stretches).AtLeast Op.isWriteDat 1 := by
  simp only [QuietReads, not_forall, not_not] at h
  rcases h with ⟨reads, hreads, hpos, hlt, hpasses⟩
  refine earlySaves_atLeast hreads hpos ?_ ?_
  · rw [Nat.zero_add]
    exact hlt
  · rw [Nat.zero_add]
    exact hpasses

/-- Over bytes that cannot pass for a negative length every read is quiet. -/
theorem quietReads_of_peek_ne (hbase : base.peek 30 ≠ 0xFF)
    (hi : i < packetTotal content.length) (hsize : content.length ≤ lenBlockBuffer)
    (stretches : Evbuffer) : QuietReads base content packet i stretches := by
  intro reads _ _ hlt hpasses
  have hlength := packetAt_length content packet i
  have hwait := overlay_incomplete_of_peek_ne hbase hi hsize
    (show reads.flatten.length < (packetAt content packet i).length by
      change reads.flatten.length < 32 at hlt
      omega)
  exact Nat.not_lt.mpr hpasses.2 hwait

/-- Over a cleared packet buffer every read is quiet. -/
theorem quietReads_fill (hi : i < packetTotal content.length)
    (hsize : content.length ≤ lenBlockBuffer) (stretches : Evbuffer) :
    QuietReads (Cells.fill 0) content packet i stretches := by
  refine quietReads_of_peek_ne ?_ hi hsize stretches
  rw [Cells.peek_fill (by decide)]
  decide

/-- A read that has the whole header is quiet. -/
theorem quietReads_single {stretch : List Byte} (h : lenHeaderLength ≤ stretch.length) :
    QuietReads base content packet i [stretch] := by
  intro reads hreads hpos hlt
  rcases List.prefix_cons_iff.mp hreads with rfl | ⟨reads', rfl, -⟩
  · exact absurd hpos (Nat.lt_irrefl 0)
  · rw [List.flatten_cons, List.length_append] at hlt
    omega

end Early

/-! ## One packet -/

section Packet

variable {content : List Byte} {packet : DeviceId} {i : Nat}

/-- A read that ends inside a packet. -/
theorem parse_wait (hi : i < packetTotal content.length) (hsize : content.length ≤ lenBlockBuffer)
    (base : PacketBuffer) (buffer : BlockData) {m : Nat} {t : List Byte} (hne : t ≠ [])
    (hm : m + t.length < (packetAt content packet i).length)
    (ht : t = ((packetAt content packet i).drop m).take t.length) (rest : Evbuffer) :
    parse ⟨buffer, overlay base content packet i m, m⟩ (t :: rest) =
      (if m + t.length < lenHeaderLength then
        earlySave base content packet i buffer (m + t.length) else .ret ()) >>= fun _ =>
        parse ⟨buffer, overlay base content packet i (m + t.length), m + t.length⟩ rest := by
  have hfull := packetAt_length_le content packet i
  have hindex : m ≤ lenBlockPacket := by
    change m ≤ 1024
    omega
  -- All of the stretch fits behind the bytes that are there.
  have hroom : ¬ lenBlockPacket - m < t.length := by
    change ¬ 1024 - m < t.length
    omega
  have hread : parse ⟨buffer, overlay base content packet i m, m⟩ (t :: rest) =
      receive ⟨buffer, overlay base content packet i m, m⟩ m t >>= fun r => parse r.1 rest := by
    rw [parse_eq hindex, evbufferRemove_cons hne, if_neg hroom,
      List.take_of_length_le (Nat.not_lt.mp hroom)]
    exact if_neg hne
  rw [hread, receive_overlay_wait buffer hne hm ht]
  -- A block is only saved while the header is incomplete.
  split
  · next hlt =>
      rw [saveBlock_early hlt, bind_assoc]
      rfl
  · next hge =>
      have hwait := @overlay_incomplete base content packet i (m + t.length) hi hsize
        (Nat.not_lt.mp hge) hm
      rw [saveBlock, if_neg fun h => Nat.not_lt.mpr h.2 hwait]
      rfl

/-- The read that ends a packet takes in the rest of it, and nothing behind it. -/
theorem removed_packet_end {m : Nat} {stretch tail : List Byte} {rest : Evbuffer}
    (hi : i < packetTotal content.length)
    (htail : i + 1 = packetTotal content.length → tail = [])
    (hm : m < (packetAt content packet i).length)
    (hflat : stretch ++ rest.flatten = (packetAt content packet i).drop m ++ tail)
    (hge : (packetAt content packet i).length ≤ m + stretch.length) :
    (evbufferRemove (lenBlockPacket - m) (stretch :: rest)).1 = (packetAt content packet i).drop m ∧
      (evbufferRemove (lenBlockPacket - m) (stretch :: rest)).2.flatten = tail := by
  have hfull := packetAt_length_le content packet i
  have hsplit := (evbufferRemove_flatten (lenBlockPacket - m) (stretch :: rest)).trans hflat
  have hne : stretch ≠ [] := by
    intro hnil
    rw [hnil, List.length_nil] at hge
    omega
  -- Both splits of the input cut off as many bytes.
  have hlength : (evbufferRemove (lenBlockPacket - m) (stretch :: rest)).1.length =
      ((packetAt content packet i).drop m).length := by
    rw [evbufferRemove_cons hne, List.length_take, List.length_drop]
    change min (1024 - m) stretch.length = _
    by_cases hlast : i + 1 = packetTotal content.length
    · -- Nothing can follow the last packet.
      have htotal := congrArg List.length hflat
      rw [htail hlast, List.append_nil, List.length_append, List.length_drop] at htotal
      omega
    · have h1024 := @packetAt_length_of_lt content packet i (by omega)
      omega
  exact List.append_inj hsplit hlength

/-- Reading a packet comes to the read that ends it. -/
theorem parse_until (hi : i < packetTotal content.length) (hsize : content.length ≤ lenBlockBuffer)
    (base : PacketBuffer) (buffer : BlockData) {tail : List Byte}
    (htail : i + 1 = packetTotal content.length → tail = []) (input : Evbuffer) :
    ∀ {m : Nat}, m < (packetAt content packet i).length →
      input.flatten = (packetAt content packet i).drop m ++ tail →
      ∃ k t rest, k + t.length = (packetAt content packet i).length ∧
        t = ((packetAt content packet i).drop k).take t.length ∧ rest.flatten = tail ∧
        parse ⟨buffer, overlay base content packet i m, m⟩ input =
          earlySaves base content packet i buffer m input >>= fun _ =>
            receive ⟨buffer, overlay base content packet i k, k⟩ k t >>= fun r =>
              parse r.1 rest := by
  have hlength := packetAt_length content packet i
  have hfull := packetAt_length_le content packet i
  -- The reads are taken one after the other until one ends the packet.
  induction input with
  | nil =>
      intro m hm hflat
      have hnil := List.append_eq_nil_iff.mp hflat.symm
      exact absurd (List.drop_eq_nil_iff.mp hnil.1) (Nat.not_le.mpr hm)
  | cons stretch rest ih =>
      intro m hm hflat
      have hindex : m ≤ lenBlockPacket := by
        change m ≤ 1024
        omega
      by_cases hnil : stretch = []
      · rcases ih hm (by rw [← hflat, hnil]; rfl) with ⟨k, t, rest', hk, ht, hrest, hparse⟩
        refine ⟨k, t, rest', hk, ht, hrest, ?_⟩
        have hflatten : [stretch].flatten = [] := by
          rw [hnil]
          rfl
        have hempty : parse ⟨buffer, overlay base content packet i m, m⟩ (stretch :: rest) =
            parse ⟨buffer, overlay base content packet i m, m⟩ rest :=
          parse_empty_append hindex hflatten rest
        rw [hempty, hparse, earlySaves, if_pos hnil]
      · have hpos := List.length_pos_of_ne_nil hnil
        rw [List.flatten_cons] at hflat
        rcases Nat.lt_or_ge (m + stretch.length) (packetAt content packet i).length with hlt | hge
        · -- The read ends inside the packet.
          have hlen : stretch.length ≤ ((packetAt content packet i).drop m).length := by
            rw [List.length_drop]
            omega
          have htake := congrArg (List.take stretch.length) hflat
          rw [List.take_left, List.take_append_of_le_length hlen] at htake
          have hdrop := congrArg (List.drop stretch.length) hflat
          rw [List.drop_left, List.drop_append_of_le_length hlen, List.drop_drop] at hdrop
          rcases ih hlt hdrop with ⟨k, t, rest', hk, ht, hrest, hparse⟩
          refine ⟨k, t, rest', hk, ht, hrest, ?_⟩
          rw [parse_wait hi hsize base buffer hnil hlt htake, hparse, earlySaves, if_neg hnil]
          split
          · rw [bind_assoc]
          · next hheader =>
              have hquiet : earlySaves base content packet i buffer (m + stretch.length) rest =
                  .ret () := by
                -- Behind the header no read saves the block early.
                refine earlySaves_eq_ret ?_
                intro reads _ _ h32
                exact absurd h32 (by omega)
              rw [hquiet]
              rfl
        · -- The read ends the packet: only a full one can be followed by more.
          have hheader : ¬ m + stretch.length < lenHeaderLength := by
            change ¬ m + stretch.length < 32
            omega
          rcases removed_packet_end hi htail hm hflat hge with ⟨hread, hrest⟩
          refine ⟨m, (packetAt content packet i).drop m,
            (evbufferRemove (lenBlockPacket - m) (stretch :: rest)).2, ?_, ?_, hrest, ?_⟩
          · rw [List.length_drop]
            omega
          · rw [List.take_length]
          · have hne : (packetAt content packet i).drop m ≠ [] := fun hdrop =>
              absurd (List.drop_eq_nil_iff.mp hdrop) (Nat.not_le.mpr hm)
            rw [parse_eq hindex, earlySaves, if_neg hnil, if_neg hheader, Program.ret_bind]
            dsimp only
            rw [hread, if_neg hne]

theorem parse_packet_store (hsize : content.length ≤ lenBlockBuffer) (base : PacketBuffer)
    (buffer : BlockData) {input : Evbuffer} {count : Nat}
    (hi : i + 1 < packetTotal content.length)
    (hflat : input.flatten = packetsFrom content packet i (count + 1)) :
    ∃ rest : Evbuffer, rest.flatten = packetsFrom content packet (i + 1) count ∧
      parse ⟨buffer, base, 0⟩ input = earlySaves base content packet i buffer 0 input >>= fun _ =>
        parse ⟨buffer.place (i * 992) (packetData content i), Cells.fill 0, 0⟩ rest := by
  have hstart : overlay base content packet i 0 = base := Cells.place_nil base 0
  have hlength := packetAt_length content packet i
  rcases parse_until (Nat.lt_of_succ_lt hi) hsize base buffer (fun hlast => absurd hlast hi.ne)
    input (show 0 < (packetAt content packet i).length by omega) hflat with
    ⟨k, t, rest, hk, ht, hrest, hparse⟩
  refine ⟨rest, hrest, ?_⟩
  rw [hstart] at hparse
  rw [hparse, receive_overlay_store buffer hi hsize hk ht]
  rfl

/-- Packets that are followed by others are stored. -/
theorem parse_packets_store (hsize : content.length ≤ lenBlockBuffer) (count : Nat) :
    ∀ {i : Nat} (base : PacketBuffer) (buffer : BlockData) {input : Evbuffer},
      i + (count + 1) < packetTotal content.length →
      input.flatten = packetsFrom content packet i (count + 1) →
        parse ⟨buffer, base, 0⟩ input = earlySaves base content packet i buffer 0 input >>= fun _ =>
          .ret (⟨buffer.place (i * 992) (dataFrom content i (count + 1)), Cells.fill 0, 0⟩, []) := by
  induction count with
  | zero =>
      intro i base buffer input hi hflat
      rcases parse_packet_store hsize base buffer hi hflat with ⟨rest, hrest, hparse⟩
      rw [hparse]
      congr 1
      funext _
      rw [dataFrom_one]
      exact parse_nil (Nat.zero_le _) hrest
  | succ count ih =>
      intro i base buffer input hi hflat
      rcases parse_packet_store hsize base buffer (by omega) hflat with ⟨rest, hrest, hparse⟩
      have hnext : i + 1 < packetTotal content.length := by omega
      rw [hparse]
      congr 1
      funext _
      -- The packet buffer is cleared behind a packet that is stored.
      rw [ih (Cells.fill 0) _ (by omega) hrest,
        (quietReads_fill hnext hsize rest).earlySaves_eq, Program.ret_bind,
        place_dataFrom hnext]

/-- Packets up to the last one are stored, and the block is saved. -/
theorem parse_packets_save (hsize : content.length ≤ lenBlockBuffer) (count : Nat) :
    ∀ {i : Nat} (base : PacketBuffer) (buffer : BlockData) {input : Evbuffer},
      i + (count + 1) = packetTotal content.length →
      input.flatten = packetsFrom content packet i (count + 1) →
        (parse ⟨buffer, base, 0⟩ input).effects =
          earlySaves base content packet i buffer 0 input >>= fun _ =>
            uploadDone packet ((buffer.place (i * 992) (dataFrom content i (count + 1))).slice 0
              content.length) := by
  induction count with
  | zero =>
      intro i base buffer input hi hflat
      have hlt : i < packetTotal content.length := by omega
      have hstart : overlay base content packet i 0 = base := Cells.place_nil base 0
      have hlength := packetAt_length content packet i
      have hindex := packetAt_length_le content packet i
      rcases @parse_until content packet i hlt hsize base buffer [] (fun _ => rfl) input 0
        (show 0 < (packetAt content packet i).length by omega) hflat with
        ⟨k, t, rest, hk, ht, hrest, hparse⟩
      rw [hstart] at hparse
      rw [hparse, receive_overlay_save buffer hi hsize hk ht, Program.effects_bind]
      congr 1
      funext _
      rw [bind_assoc, Program.effects_bind, dataFrom_one]
      -- Nothing is left to read behind the last packet.
      have hdone : ∀ client : BlockBuffer, client.index = k + t.length →
          (parse client rest).effects = .ret () := by
        intro client hclient
        rw [parse_nil (by rw [hclient, hk]; exact hindex) hrest]
        rfl
      simp only [Program.ret_bind]
      rw [hdone _ rfl]
      exact bind_pure _
  | succ count ih =>
      intro i base buffer input hi hflat
      rcases parse_packet_store hsize base buffer (by omega) hflat with ⟨rest, hrest, hparse⟩
      have hnext : i + 1 < packetTotal content.length := by omega
      rw [hparse, Program.effects_bind]
      congr 1
      funext _
      rw [ih (Cells.fill 0) _ (by omega) hrest,
        (quietReads_fill hnext hsize rest).earlySaves_eq, Program.ret_bind,
        place_dataFrom hnext]

end Packet

end RobotServer
