import RobotServer.Model.World
import RobotServer.Serving.Completion
import RobotServer.Transfer.Rounds

/-!
# Bounds — the accesses of the reassembly

Both receivers of a block run the same loop over fields that the sender chose.  A `Copy` is one
run of that loop.

- `Copy.Within` is the memory safety of a copy, access by access;
- `blockDataRecv_isSome_iff`: a read of a block completes exactly when its copies are safe, and
  `apolloSyner_isSome_iff`: a datagram is worked off exactly when its copies are safe in arrays of
  the sizes they have, where the received bytes do not count;
- `reassembly_within_iff` says which packets the copies of both receivers are safe for.
-/

namespace RobotServer

open CText Memory Interaction

/-! ## Copies -/

deriving instance DecidableEq for BlockHeader

/-- A run of the copy loop: the header it works on, the bytes received for the packet, and whether
the block is handed to `write_dat` behind it. -/
structure Copy where
  header : BlockHeader
  received : Nat
  saved : Bool
  deriving DecidableEq

/-- The writes of the loop stay in the block, its reads in the received bytes, and the length of
the file in the block. -/
structure Copy.Within (c : Copy) : Prop where
  writes : ∀ i : Nat, (i : Int) < c.header.dataLength →
    0 ≤ c.header.blockOff + i ∧ c.header.blockOff + i < lenBlockBuffer
  reads : ∀ i : Nat, (i : Int) < c.header.dataLength → lenHeaderLength + i < c.received
  length : c.saved = true →
    0 ≤ c.header.blockOff + c.header.dataLength ∧
      c.header.blockOff + c.header.dataLength ≤ lenBlockBuffer

/-- The copies of the `HDR_BLOCK_DATA_RECV` branch, with `received` bytes in the packet buffer. -/
def blockCopies (data : PacketBuffer) (received : Nat) : List Copy :=
  let header := blockHeader data
  if received = lenBlockPacket ∧ header.pktIndex + 1 ≠ header.pktTotal then
    [⟨header, received, false⟩]
  else if header.pktIndex + 1 = header.pktTotal ∧
      toUnsigned (header.dataLength + lenHeaderLength) ≤ received then [⟨header, received, true⟩]
  else []

def Round.copies {σ : Type} (round : Round σ) : List Copy :=
  if round.filled.peek 0 = hdrBlockDataRecv then blockCopies round.filled round.received else []

/-- `ApolloSyner` goes on to the data of a datagram. -/
def Accepted (u8DevId : DeviceId) (datagram : List Byte) : Prop :=
  (recvmsg datagram).peek 0 = 0x56 ∧
    apolloStrcmp (synerDeviceId u8DevId (recvmsg datagram)).toList
      ((recvmsg datagram).slice idxDeviceId lenDeviceId) lenDeviceId = true

instance (u8DevId : DeviceId) (datagram : List Byte) : Decidable (Accepted u8DevId datagram) :=
  inferInstanceAs (Decidable (_ ∧ _))

/-- What `recvfrom` returns for a datagram. -/
def receivedOf (datagram : List Byte) : Nat :=
  (datagram.take lenBlockPacket).length

/-- The copies of `ApolloSyner` for a datagram. -/
def datagramCopies (u8DevId : DeviceId) (datagram : List Byte) : List Copy :=
  let header := blockHeader (recvmsg datagram)
  if Accepted u8DevId datagram then
    if header.pktIndex + 1 = header.pktTotal then [⟨header, receivedOf datagram, true⟩]
    else if receivedOf datagram = lenBlockPacket then [⟨header, receivedOf datagram, false⟩]
    else []
  else []

/-! ## The copies are those of the code -/

theorem blockOff_eq (header : BlockHeader) : header.blockOff = header.pktIndex * 992 := rfl

/-- The copy loop is defined when every access stays in its array. -/
theorem copyBlockData_isSome_iff {n : Nat} (buffer : BlockData) (data : Cells n Byte)
    (header : BlockHeader) :
    (copyBlockData buffer data header).isSome ↔ ∀ i : Nat, (i : Int) < header.dataLength →
      (0 ≤ header.blockOff + i ∧ header.blockOff + i < lenBlockBuffer) ∧
        lenHeaderLength + i < n := by
  rw [copyBlockData, Cells.copy_isSome_iff]
  constructor
  · intro h i hi
    have haccess := h i (by omega)
    exact ⟨haccess.1, by omega⟩
  · intro h i hi
    have haccess := h i (by omega)
    exact ⟨haccess.1, by omega⟩

/-- The end of a block, behind its copy. -/
theorem isSome_save {σ : Type} (E : Environment serverInterface σ) (s : σ) {α : Type}
    (buffer : BlockData) (len : Int) {rest : List Byte → Action α} (hrest : ∀ saved, (rest saved).Total) :
    ((Program.ofOption (buffer.upTo? len) >>= rest).run E s).result.isSome ↔
      0 ≤ len ∧ len ≤ lenBlockBuffer := by
  rw [Program.isSome_result_ofOption_bind, ← @Cells.upTo?_isSome_iff lenBlockBuffer Byte _ buffer,
    Option.isSome_iff_exists]
  constructor
  · rintro ⟨saved, hsaved, -⟩
    exact ⟨saved, hsaved⟩
  · rintro ⟨saved, hsaved⟩
    exact ⟨saved, hsaved, (hrest saved).isSome_result E s⟩

/-- The two bytes of a length give a value of 16 bits. -/
theorem dataLength_bounds {n : Nat} (data : Cells n Byte) :
    -32768 ≤ (blockHeader data).dataLength ∧ (blockHeader data).dataLength < 32768 := by
  have hhigh := schar_bounds (data.peek 30)
  have hlow := (data.peek 31).toNat_lt
  change -32768 ≤ dataLengthOf _ _ ∧ dataLengthOf _ _ < 32768
  unfold dataLengthOf
  omega

/-- The comparison of the announced length, a signed value, with the unsigned offset. -/
theorem toUnsigned_dataLength_le_iff {n : Nat} (data : Cells n Byte) {received : Nat}
    (h : received ≤ lenBlockPacket) :
    toUnsigned ((blockHeader data).dataLength + lenHeaderLength) ≤ received ↔
      -32 ≤ (blockHeader data).dataLength ∧ (blockHeader data).dataLength + 32 ≤ received := by
  have hbounds := dataLength_bounds data
  change received ≤ 1024 at h
  change ((_ + 32) % 2 ^ 32 : Int).toNat ≤ received ↔ _
  omega

section BlockDataRecv

variable {σ : Type} (E : Environment serverInterface σ) (s : σ) {client : BlockBuffer}

theorem storePacket_isSome_iff {blockIndex nbytes : Nat}
    (hfull : blockIndex + nbytes = lenBlockPacket)
    (hlast : (blockHeader client.packet).pktIndex + 1 ≠ (blockHeader client.packet).pktTotal) :
    ((blockDataRecv client blockIndex nbytes).run E s).result.isSome ↔
      Copy.Within ⟨blockHeader client.packet, lenBlockPacket, false⟩ := by
  have hsave : ∀ (client' : BlockBuffer) (blockIndex' : Nat),
      saveBlock client' (blockHeader client.packet) blockIndex' = .ret (client', blockIndex') :=
    fun _ _ => if_neg fun h => hlast h.1
  simp only [blockDataRecv]
  rw [storePacket, if_pos ⟨hfull, hlast⟩, bind_assoc, Program.isSome_result_ofOption_bind]
  simp only [Program.pure_eq_ret, Program.ret_bind, hsave, Program.run_ret, Option.isSome_some,
    and_true]
  rw [← Option.isSome_iff_exists, copyBlockData_isSome_iff]
  constructor
  · intro h
    exact ⟨fun i hi => (h i hi).1, fun i hi => (h i hi).2, fun hsaved => Bool.noConfusion hsaved⟩
  · intro h i hi
    exact ⟨h.writes i hi, h.reads i hi⟩

theorem saveBlock_isSome_iff {received : Nat} (hreceived : received ≤ lenBlockPacket)
    (hlast : (blockHeader client.packet).pktIndex + 1 = (blockHeader client.packet).pktTotal)
    (hcomplete : toUnsigned ((blockHeader client.packet).dataLength + lenHeaderLength) ≤ received) :
    ((saveBlock client (blockHeader client.packet) received).run E s).result.isSome ↔
      Copy.Within ⟨blockHeader client.packet, received, true⟩ := by
  have hannounced := (toUnsigned_dataLength_le_iff client.packet hreceived).mp hcomplete
  have hrest : ∀ (buffer : BlockData) (saved : List Byte), (do
      writeDat (genBlockFilePathName (deviceIdText client.packet)) saved
      apolloReturnPacket (ascii "SETOK%")
      startApolloSynerAction ⟨deviceIdText client.packet, multicastTypeAgps⟩
      pure ({ client with buffer := buffer }, received) : Action (BlockBuffer × Nat)).Total := by
    intro buffer saved
    refine (Program.total_perform _).bind fun _ => ?_
    refine (apolloReturnPacket_total _).bind fun _ => ?_
    exact (Program.total_perform _).bind fun _ => trivial
  rw [saveBlock, if_pos ⟨hlast, hcomplete⟩, Program.isSome_result_ofOption_bind]
  simp only [isSome_save E s _ _ (hrest _)]
  rw [exists_and_right, ← Option.isSome_iff_exists, copyBlockData_isSome_iff]
  constructor
  · rintro ⟨hcopy, hlen⟩
    refine ⟨fun i hi => (hcopy i hi).1, fun i hi => ?_, fun _ => hlen⟩
    change 32 + i < received
    change (i : Int) < (blockHeader client.packet).dataLength at hi
    omega
  · intro h
    exact ⟨fun i hi => ⟨h.writes i hi, (h.reads i hi).trans_le hreceived⟩, h.length rfl⟩

/-- A read of a block completes exactly when its copies stay in their arrays. -/
theorem blockDataRecv_isSome_iff {blockIndex nbytes : Nat}
    (hroom : blockIndex + nbytes ≤ lenBlockPacket) :
    ((blockDataRecv client blockIndex nbytes).run E s).result.isSome ↔
      ∀ c ∈ blockCopies client.packet (blockIndex + nbytes), c.Within := by
  by_cases hstored : blockIndex + nbytes = lenBlockPacket ∧
      (blockHeader client.packet).pktIndex + 1 ≠ (blockHeader client.packet).pktTotal
  · rw [storePacket_isSome_iff E s hstored.1 hstored.2, blockCopies, if_pos hstored,
      List.forall_mem_singleton, hstored.1]
  · have hwait : blockDataRecv client blockIndex nbytes =
        saveBlock { client with index := blockIndex + nbytes } (blockHeader client.packet)
          (blockIndex + nbytes) := by
      simp only [blockDataRecv]
      rw [storePacket, if_neg hstored]
      rfl
    rw [hwait, blockCopies, if_neg hstored]
    by_cases hsaved : (blockHeader client.packet).pktIndex + 1 =
        (blockHeader client.packet).pktTotal ∧
          toUnsigned ((blockHeader client.packet).dataLength + lenHeaderLength) ≤
            blockIndex + nbytes
    · rw [if_pos hsaved, List.forall_mem_singleton]
      exact @saveBlock_isSome_iff σ E s { client with index := blockIndex + nbytes } _ hroom
        hsaved.1 hsaved.2
    · rw [if_neg hsaved, saveBlock, if_neg hsaved]
      exact iff_of_true rfl fun c hc => absurd hc List.not_mem_nil

/-- A round of the reassembly. -/
theorem Round.outcome_block {round : Round σ} (hkind : round.filled.peek 0 = hdrBlockDataRecv) :
    round.outcome E = (blockDataRecv { round.client with packet := round.filled }
      round.client.index round.removed.length).run E round.world := by
  rw [Round.outcome, receive, dispatch_block hkind]
  rfl

theorem Round.outcome_isSome_iff_copies {round : Round σ}
    (hkind : round.filled.peek 0 = hdrBlockDataRecv) (hroom : round.received ≤ lenBlockPacket) :
    (round.outcome E).result.isSome ↔ ∀ c ∈ round.copies, c.Within := by
  rw [Round.copies, if_pos hkind, Round.outcome_block E hkind]
  exact blockDataRecv_isSome_iff E round.world hroom

end BlockDataRecv

section ApolloSyner

variable {σ : Type} (E : Environment serverInterface σ) (s : σ)

/-- A datagram that is not accepted is worked off without a copy. -/
theorem apolloSyner_of_not_accepted {state : SynerState} {datagram : List Byte}
    (h : ¬ Accepted state.u8DevId datagram) :
    ((apolloSyner state datagram).run E s).result.isSome := by
  simp only [apolloSyner]
  split
  · rfl
  · next hkind =>
      rw [if_pos]
      · rfl
      · by_contra hstrcmp
        exact h ⟨not_not.mp hkind, by simpa using hstrcmp⟩

theorem apolloSyner_of_accepted {state : SynerState} {datagram : List Byte}
    (h : Accepted state.u8DevId datagram) :
    apolloSyner state datagram =
      Program.ofOption (storeDatagram state.u8SynerBlockData (recvmsg datagram)
        (receivedOf datagram)) >>= fun block =>
          saveDatagram ⟨block, synerDeviceId state.u8DevId (recvmsg datagram)⟩
            (recvmsg datagram) := by
  simp only [apolloSyner]
  rw [if_neg (not_not.mpr h.1), h.2]
  rfl

theorem saveDatagram_isSome_iff {state : SynerState} {datagram : List Byte}
    (hlast : (blockHeader (recvmsg datagram)).pktIndex + 1 =
      (blockHeader (recvmsg datagram)).pktTotal) :
    ((saveDatagram state (recvmsg datagram)).run E s).result.isSome ↔
      Copy.Within ⟨blockHeader (recvmsg datagram), 1048, true⟩ := by
  have hrest : ∀ saved : List Byte, (do
      writeDat (synerPathName ((recvmsg datagram).peek 20)
        (hextostring ((recvmsg datagram).slice idxDeviceId lenDeviceId))) saved
      pure { state with u8SynerBlockData := Cells.fill 0 } : Action SynerState).Total :=
    fun _ => (Program.total_perform _).bind fun _ => trivial
  simp only [saveDatagram]
  rw [if_pos hlast, Program.isSome_result_ofOption_bind]
  simp only [isSome_save E s _ _ hrest]
  rw [exists_and_right, ← Option.isSome_iff_exists, copyBlockData_isSome_iff]
  constructor
  · rintro ⟨hcopy, hlen⟩
    exact ⟨fun i hi => (hcopy i hi).1, fun i hi => (hcopy i hi).2, fun _ => hlen⟩
  · intro h
    exact ⟨fun i hi => ⟨h.writes i hi, h.reads i hi⟩, h.length rfl⟩

/-- A datagram is worked off exactly when its copies stay in the block and in the array the datagram
is received in. -/
theorem apolloSyner_isSome_iff (state : SynerState) (datagram : List Byte) :
    ((apolloSyner state datagram).run E s).result.isSome ↔
      ∀ c ∈ datagramCopies state.u8DevId datagram, Copy.Within { c with received := 1048 } := by
  simp only [datagramCopies]
  by_cases haccepted : Accepted state.u8DevId datagram
  · rw [apolloSyner_of_accepted haccepted, Program.isSome_result_ofOption_bind, if_pos haccepted]
    simp only [storeDatagram]
    -- The last datagram is saved from the block, any other is copied into it when it is full.
    by_cases hlast : (blockHeader (recvmsg datagram)).pktIndex + 1 =
        (blockHeader (recvmsg datagram)).pktTotal
    · rw [if_pos hlast, if_neg fun hfull => hfull.2 hlast, List.forall_mem_singleton]
      simp only [Option.some.injEq, exists_eq_left']
      exact saveDatagram_isSome_iff E s hlast
    · have hkeep : ∀ block, saveDatagram ⟨block, synerDeviceId state.u8DevId (recvmsg datagram)⟩
          (recvmsg datagram) = .ret ⟨block, synerDeviceId state.u8DevId (recvmsg datagram)⟩ := by
        intro block
        simp only [saveDatagram]
        exact if_neg hlast
      rw [if_neg hlast]
      simp only [hkeep, Program.run_ret, Option.isSome_some, and_true]
      by_cases hfull : receivedOf datagram = lenBlockPacket
      · rw [if_pos ⟨hfull, hlast⟩, if_pos hfull, List.forall_mem_singleton,
          ← Option.isSome_iff_exists, copyBlockData_isSome_iff]
        constructor
        · intro h
          exact ⟨fun i hi => (h i hi).1, fun i hi => (h i hi).2,
            fun hsaved => Bool.noConfusion hsaved⟩
        · intro h i hi
          exact ⟨h.writes i hi, h.reads i hi⟩
      · rw [if_neg fun h => hfull h.1, if_neg hfull]
        exact iff_of_true ⟨_, rfl⟩ fun c hc => absurd hc List.not_mem_nil
  · rw [if_neg haccepted]
    exact iff_of_true (apolloSyner_of_not_accepted E s haccepted)
      fun c hc => absurd hc List.not_mem_nil

end ApolloSyner

/-! ## The packets that fit -/

/-- A packet that is stored: its length is not positive, or it is one of a packet and the packet
ends in the block. -/
def BlockHeader.StoreFits (header : BlockHeader) : Prop :=
  header.dataLength ≤ 0 ∨ 0 ≤ header.pktIndex ∧ header.dataLength ≤ 992 ∧
    header.pktIndex * 992 + header.dataLength ≤ 32768

/-- The last packet of an upload: its index is not negative, and the packet ends in the block. -/
def BlockHeader.SaveFits (header : BlockHeader) : Prop :=
  0 ≤ header.pktIndex ∧ 0 ≤ header.pktIndex * 992 + header.dataLength ∧
    header.pktIndex * 992 + header.dataLength ≤ 32768

/-- The last datagram of a transfer, for which nothing else has been compared. -/
def BlockHeader.LastFits (header : BlockHeader) (received : Nat) : Prop :=
  0 ≤ header.pktIndex * 992 + header.dataLength ∧
    header.pktIndex * 992 + header.dataLength ≤ 32768 ∧
      (0 < header.dataLength → 0 ≤ header.pktIndex ∧ header.dataLength + 32 ≤ received)

/-- The packet in the buffer after a read fits, if it is stored or saved now. -/
def Round.Fits {σ : Type} (round : Round σ) : Prop :=
  round.filled.peek 0 = hdrBlockDataRecv →
    (round.received = lenBlockPacket →
      (blockHeader round.filled).pktIndex + 1 ≠ (blockHeader round.filled).pktTotal →
        (blockHeader round.filled).StoreFits) ∧
    ((blockHeader round.filled).pktIndex + 1 = (blockHeader round.filled).pktTotal →
      toUnsigned ((blockHeader round.filled).dataLength + lenHeaderLength) ≤ round.received →
        (blockHeader round.filled).SaveFits)

/-- A datagram fits, if it is accepted and stored or saved. -/
def DatagramFits (u8DevId : DeviceId) (datagram : List Byte) : Prop :=
  Accepted u8DevId datagram →
    (receivedOf datagram = lenBlockPacket →
      (blockHeader (recvmsg datagram)).pktIndex + 1 ≠
        (blockHeader (recvmsg datagram)).pktTotal →
          (blockHeader (recvmsg datagram)).StoreFits) ∧
    ((blockHeader (recvmsg datagram)).pktIndex + 1 =
      (blockHeader (recvmsg datagram)).pktTotal →
        (blockHeader (recvmsg datagram)).LastFits (receivedOf datagram))

/-- The first and the last access of a copy decide about all of them. -/
theorem Copy.within_iff (c : Copy) :
    c.Within ↔ (0 < c.header.dataLength → 0 ≤ c.header.pktIndex ∧
      c.header.dataLength + 32 ≤ c.received ∧
        c.header.pktIndex * 992 + c.header.dataLength ≤ 32768) ∧
      (c.saved = true → 0 ≤ c.header.pktIndex * 992 + c.header.dataLength ∧
        c.header.pktIndex * 992 + c.header.dataLength ≤ 32768) := by
  constructor
  · intro h
    refine ⟨fun hpos => ?_, h.length⟩
    have hfirst := h.writes 0 hpos
    have hlast : ((c.header.dataLength - 1).toNat : Int) < c.header.dataLength := by omega
    have hwrite := (h.writes _ hlast).2
    have hread := h.reads _ hlast
    rw [blockOff_eq] at hfirst hwrite
    change _ < (32768 : Int) at hwrite
    change 32 + _ < _ at hread
    omega
  · rintro ⟨haccess, hlength⟩
    refine ⟨fun i hi => ?_, fun i hi => ?_, hlength⟩
    · have hfit := haccess (by omega)
      rw [blockOff_eq]
      change _ ∧ _ < (32768 : Int)
      omega
    · have hfit := haccess (by omega)
      change 32 + i < c.received
      omega

/-- A packet that is stored is a full one. -/
theorem within_store_iff (header : BlockHeader) :
    Copy.Within ⟨header, lenBlockPacket, false⟩ ↔ header.StoreFits := by
  rw [Copy.within_iff, BlockHeader.StoreFits]
  change (0 < header.dataLength → 0 ≤ header.pktIndex ∧ header.dataLength + 32 ≤ (1024 : Nat) ∧
    header.pktIndex * 992 + header.dataLength ≤ 32768) ∧ (false = true → _) ↔ _
  constructor
  · rintro ⟨haccess, -⟩
    rcases lt_or_ge 0 header.dataLength with hpos | hle
    · have hfit := haccess hpos
      exact .inr (by omega)
    · exact .inl hle
  · intro h
    exact ⟨fun hpos => by omega, fun hsaved => Bool.noConfusion hsaved⟩

/-- The comparison with the offset bounds the length of the last packet of an upload. -/
theorem within_save_iff {n : Nat} (data : Cells n Byte) {received : Nat}
    (hreceived : received ≤ lenBlockPacket)
    (hcomplete : toUnsigned ((blockHeader data).dataLength + lenHeaderLength) ≤ received) :
    Copy.Within ⟨blockHeader data, received, true⟩ ↔ (blockHeader data).SaveFits := by
  have hannounced := (toUnsigned_dataLength_le_iff data hreceived).mp hcomplete
  change received ≤ 1024 at hreceived
  rw [Copy.within_iff, BlockHeader.SaveFits]
  constructor
  · rintro ⟨haccess, hlength⟩
    have hfit := hlength rfl
    refine ⟨?_, hfit⟩
    rcases lt_or_ge 0 (blockHeader data).dataLength with hpos | hle
    · exact (haccess hpos).1
    · change 0 ≤ (blockHeader data).pktIndex * 992 + (blockHeader data).dataLength ∧ _ at hfit
      omega
  · rintro ⟨hindex, hfit⟩
    exact ⟨fun _ => ⟨hindex, hannounced.2, hfit.2⟩, fun _ => hfit⟩

theorem within_last_iff (header : BlockHeader) (received : Nat) :
    Copy.Within ⟨header, received, true⟩ ↔ header.LastFits received := by
  rw [Copy.within_iff, BlockHeader.LastFits]
  constructor
  · rintro ⟨haccess, hlength⟩
    have hfit := hlength rfl
    exact ⟨hfit.1, hfit.2, fun hpos => ⟨(haccess hpos).1, (haccess hpos).2.1⟩⟩
  · rintro ⟨hlow, hhigh, haccess⟩
    exact ⟨fun hpos => ⟨(haccess hpos).1, (haccess hpos).2, hhigh⟩, fun _ => ⟨hlow, hhigh⟩⟩

theorem Round.copies_within_iff {σ : Type} {round : Round σ}
    (hroom : round.received ≤ lenBlockPacket) :
    (∀ c ∈ round.copies, c.Within) ↔ round.Fits := by
  rw [Round.copies, Round.Fits]
  by_cases hkind : round.filled.peek 0 = hdrBlockDataRecv
  · rw [if_pos hkind, blockCopies]
    simp only [hkind, true_imp_iff]
    by_cases hlast : (blockHeader round.filled).pktIndex + 1 = (blockHeader round.filled).pktTotal
    · rw [if_neg fun h => h.2 hlast]
      by_cases hcomplete : toUnsigned ((blockHeader round.filled).dataLength + lenHeaderLength) ≤
          round.received
      · rw [if_pos ⟨hlast, hcomplete⟩, List.forall_mem_singleton,
          within_save_iff round.filled hroom hcomplete]
        exact ⟨fun h => ⟨fun _ hne => absurd hlast hne, fun _ _ => h⟩,
          fun h => h.2 hlast hcomplete⟩
      · rw [if_neg fun h => hcomplete h.2]
        exact iff_of_true (fun c hc => absurd hc List.not_mem_nil)
          ⟨fun _ hne => absurd hlast hne, fun _ h => absurd h hcomplete⟩
    · by_cases hfull : round.received = lenBlockPacket
      · rw [if_pos ⟨hfull, hlast⟩, List.forall_mem_singleton, hfull, within_store_iff]
        exact ⟨fun h => ⟨fun _ _ => h, fun h' => absurd h' hlast⟩, fun h => h.1 rfl hlast⟩
      · rw [if_neg fun h => hfull h.1, if_neg fun h => hlast h.1]
        exact iff_of_true (fun c hc => absurd hc List.not_mem_nil)
          ⟨fun h => absurd h hfull, fun h => absurd h hlast⟩
  · rw [if_neg hkind]
    exact iff_of_true (fun c hc => absurd hc List.not_mem_nil) fun h => absurd h hkind

theorem datagramCopies_within_iff (u8DevId : DeviceId) (datagram : List Byte) :
    (∀ c ∈ datagramCopies u8DevId datagram, c.Within) ↔ DatagramFits u8DevId datagram := by
  simp only [datagramCopies, DatagramFits]
  by_cases haccepted : Accepted u8DevId datagram
  · rw [if_pos haccepted]
    simp only [haccepted, true_imp_iff]
    by_cases hlast : (blockHeader (recvmsg datagram)).pktIndex + 1 =
        (blockHeader (recvmsg datagram)).pktTotal
    · rw [if_pos hlast, List.forall_mem_singleton, within_last_iff]
      exact ⟨fun h => ⟨fun _ hne => absurd hlast hne, fun _ => h⟩, fun h => h.2 hlast⟩
    · rw [if_neg hlast]
      by_cases hfull : receivedOf datagram = lenBlockPacket
      · rw [if_pos hfull, List.forall_mem_singleton, hfull, within_store_iff]
        exact ⟨fun h => ⟨fun _ _ => h, fun h' => absurd h' hlast⟩, fun h => h.1 rfl hlast⟩
      · rw [if_neg hfull]
        exact iff_of_true (fun c hc => absurd hc List.not_mem_nil)
          ⟨fun h => absurd h hfull, fun h => absurd h hlast⟩
  · rw [if_neg haccepted]
    exact iff_of_true (fun c hc => absurd hc List.not_mem_nil) fun h => absurd h haccepted

/-- What an honest sender puts into a packet always fits. -/
theorem HoldsPacket.fits {n : Nat} {data : Cells n Byte} {content : List Byte} {packet : DeviceId}
    {i : Nat} (h : HoldsPacket data content packet i) (hi : i < packetTotal content.length)
    (hsize : content.length ≤ lenBlockBuffer) :
    (blockHeader data).StoreFits ∧ (blockHeader data).SaveFits ∧
      (blockHeader data).LastFits (packetAt content packet i).length := by
  have hstart := lt_packetTotal.mp hi
  have hdata := packetData_length_le content i
  have hend : i * 992 + (packetData content i).length ≤ content.length := by
    rw [packetData_length]
    omega
  change content.length ≤ 32768 at hsize
  rw [h.blockHeader_eq hi hsize, packetAt_length]
  simp only [BlockHeader.StoreFits, BlockHeader.SaveFits, BlockHeader.LastFits]
  refine ⟨.inr ?_, ?_, ?_⟩
  · exact ⟨Int.natCast_nonneg i, by omega, by omega⟩
  · exact ⟨Int.natCast_nonneg i, by omega, by omega⟩
  · exact ⟨by omega, by omega, fun _ => ⟨Int.natCast_nonneg i, by omega⟩⟩

/-! ## Whole runs -/

/-- In the run of `ApolloSyner` over `datagrams`, `datagram` arrives in the state `found`. -/
inductive IsArrival {σ : Type} (E : Environment serverInterface σ) :
    SynerState → List (List Byte) → σ → SynerState → List Byte → Prop where
  | here {state : SynerState} {datagram : List Byte} {rest : List (List Byte)} {s : σ} :
      IsArrival E state (datagram :: rest) s state datagram
  | later {state state' found : SynerState} {first datagram : List Byte} {rest : List (List Byte)}
      {s : σ} (hresult : ((apolloSyner state first).run E s).result = some state')
      (harrival : IsArrival E state' rest ((apolloSyner state first).run E s).final found datagram) :
      IsArrival E state (first :: rest) s found datagram

/-- **The reassembly stays in its buffers exactly in the runs whose stored and saved packets all
fit, for the reads of a connection and for datagrams.**  The copies are those of the code: a read of
a block returns if and only if its copies stay in the buffers, and a datagram is worked off if and
only if its copies stay in its array and in the block. -/
theorem reassembly_within_iff {σ τ : Type} (E : Environment serverInterface σ) (s : σ)
    (calls : List Evbuffer) (E' : Environment serverInterface τ) (s' : τ) (state : SynerState)
    (datagrams : List (List Byte)) :
    (((∀ round, IsRound E BlockBuffer.zero calls.flatten s round →
        ∀ c ∈ round.copies, c.Within) ∧
      ∀ found datagram, IsArrival E' state datagrams s' found datagram →
        ∀ c ∈ datagramCopies found.u8DevId datagram, c.Within) ↔
    (∀ round, IsRound E BlockBuffer.zero calls.flatten s round → round.Fits) ∧
      ∀ found datagram, IsArrival E' state datagrams s' found datagram →
        DatagramFits found.u8DevId datagram) ∧
    (∀ round, IsRound E BlockBuffer.zero calls.flatten s round →
      round.filled.peek 0 = hdrBlockDataRecv →
        ((round.outcome E).result.isSome ↔ ∀ c ∈ round.copies, c.Within)) ∧
    ∀ found datagram t, ((apolloSyner found datagram).run E' t).result.isSome ↔
      ∀ c ∈ datagramCopies found.u8DevId datagram, Copy.Within { c with received := 1048 } := by
  refine ⟨and_congr ?_ ?_, ?_, ?_⟩
  · refine forall_congr' fun round => ?_
    refine forall_congr' fun hround => ?_
    exact Round.copies_within_iff (hround.awaiting awaiting_zero).2
  · refine forall_congr' fun found => ?_
    refine forall_congr' fun datagram => ?_
    refine forall_congr' fun _ => ?_
    exact datagramCopies_within_iff found.u8DevId datagram
  · intro round hround hkind
    exact Round.outcome_isSome_iff_copies E hkind (hround.awaiting awaiting_zero).2
  · intro found datagram t
    exact apolloSyner_isSome_iff E' t found datagram

/-- A read of 33 bytes that announces packet -1 of 0, with one byte of data. -/
theorem reassembly_writes_before_block :
    ∃ round, IsRound world BlockBuffer.zero
        [[[0x56] ++ List.replicate 12 0 ++ [0xFF] ++ List.replicate 17 0 ++ [1, 0x2A]]].flatten
        World.empty round ∧ (round.outcome world).result = none ∧
      ∃ c ∈ round.copies, ¬ c.Within := by
  have hcopy : ¬ Copy.Within ⟨⟨1, -1, 0⟩, 33, true⟩ := by
    intro h
    exact absurd (h.writes 0 (by decide)).1 (by decide)
  refine ⟨_, .here (by decide), ?_, ⟨⟨1, -1, 0⟩, 33, true⟩, by decide +kernel, hcopy⟩
  refine Option.not_isSome_iff_eq_none.mp fun hreturns => ?_
  refine hcopy ((Round.outcome_isSome_iff_copies world ?_ ?_).mp hreturns _ ?_)
  · decide +kernel
  · decide +kernel
  · decide +kernel

end RobotServer
