import RobotServer.Transfer.Bounds

/-!
# Offsets — room for the next read

`apolloParsePacket` asks for `LEN_BLOCK_PACKET - blockIndex` bytes.  A packet that is stored resets
the offset, one that is saved does not: behind a full last packet the packet buffer stays full
(`Round.Wedges`), and no byte of the connection is read again.  A run that faults has no return at
all, so that the runs that leave room are those without such a packet and without a fault
(`connection_index_iff`).
-/

namespace RobotServer

open CText Memory Interaction

/-- The read fills the packet buffer with a last packet. -/
def Round.Wedges {σ : Type} (round : Round σ) : Prop :=
  round.filled.peek 0 = hdrBlockDataRecv ∧ round.received = lenBlockPacket ∧
    (blockHeader round.filled).pktIndex + 1 = (blockHeader round.filled).pktTotal

/-- The message of a round finds what its handler needs. -/
abbrev Round.Completes {σ : Type} (E : Environment serverInterface σ) (round : Round σ) : Prop :=
  MessageCompletes E round.filled round.removed.length round.world

/-! ## One round -/

/-- The second test of the branch keeps the offset. -/
theorem saveBlock_index {client : BlockBuffer} {index : Nat} (h : client.index = index)
    (header : BlockHeader) (blockIndex : Nat) :
    (saveBlock client header blockIndex).Returns fun r => r.1.index = index := by
  unfold saveBlock
  split
  · apply Program.returns_bind_of_forall
    intro buffer
    apply Program.returns_bind_of_forall
    intro saved
    apply Program.returns_bind_of_forall
    intro _
    apply Program.returns_bind_of_forall
    intro _
    apply Program.returns_bind_of_forall
    intro _
    exact h
  · exact h

/-- A full packet before the last one resets the offset. -/
theorem blockDataRecv_index_stored {client : BlockBuffer} {blockIndex nbytes : Nat}
    (hfull : blockIndex + nbytes = lenBlockPacket)
    (hlast : (blockHeader client.packet).pktIndex + 1 ≠ (blockHeader client.packet).pktTotal) :
    (blockDataRecv client blockIndex nbytes).Returns fun r => r.1.index = 0 := by
  simp only [blockDataRecv]
  rw [storePacket, if_pos ⟨hfull, hlast⟩, bind_assoc]
  apply Program.returns_bind_of_forall
  intro buffer
  simp only [Program.pure_eq_ret, Program.ret_bind]
  apply saveBlock_index
  rfl

/-- Any other read advances it. -/
theorem blockDataRecv_index_kept {client : BlockBuffer} {blockIndex nbytes : Nat}
    (h : ¬ (blockIndex + nbytes = lenBlockPacket ∧
      (blockHeader client.packet).pktIndex + 1 ≠ (blockHeader client.packet).pktTotal)) :
    (blockDataRecv client blockIndex nbytes).Returns fun r =>
      r.1.index = blockIndex + nbytes := by
  simp only [blockDataRecv]
  rw [storePacket, if_neg h]
  simp only [Program.pure_eq_ret, Program.ret_bind]
  apply saveBlock_index
  rfl

section Rounds

variable {σ : Type} {E : Environment serverInterface σ}

/-- A round of the reassembly returns exactly when its packet fits. -/
theorem Round.outcome_isSome_iff {round : Round σ}
    (hkind : round.filled.peek 0 = hdrBlockDataRecv) (hroom : round.received ≤ lenBlockPacket) :
    (round.outcome E).result.isSome ↔ round.Fits := by
  rw [← Round.copies_within_iff hroom]
  exact Round.outcome_isSome_iff_copies E hkind hroom

/-- A round returns exactly when its packet fits and its message finds what it needs. -/
theorem Round.isSome_iff {round : Round σ} (hroom : round.received ≤ lenBlockPacket) :
    (round.outcome E).result.isSome ↔ round.Fits ∧ round.Completes E := by
  by_cases hkind : round.filled.peek 0 = hdrBlockDataRecv
  · have hcompletes : round.Completes E := by
      intro proc hproc
      rw [hkind] at hproc
      exact nomatch hproc
    rw [Round.outcome_isSome_iff hkind hroom, and_iff_left hcompletes]
  · have hfits : round.Fits := fun h => absurd h hkind
    have hserved : receive round.client round.client.index round.removed = _ :=
      @dispatch_served { round.client with packet := round.filled } hkind round.client.index
        round.removed.length
    rw [and_iff_right hfits, Round.outcome, hserved]
    refine (Program.isSome_result_bind_of_total E _ (fun written => ?_) round.world).trans ?_
    · trivial
    · exact served_isSome_iff E round.filled round.removed.length round.world

/-- The packet buffer is full behind a round exactly when the round wedges. -/
theorem Round.index_eq_iff {round : Round σ} (hindex : round.client.index < lenBlockPacket)
    {r : BlockBuffer × Nat} (hresult : (round.outcome E).result = some r) :
    r.1.index = lenBlockPacket ↔ round.Wedges := by
  by_cases hkind : round.filled.peek 0 = hdrBlockDataRecv
  · rw [Round.Wedges, and_iff_right hkind]
    rw [Round.outcome_block E hkind] at hresult
    -- A full packet that is not the last is stored and the offset starts again.
    by_cases hstored : round.received = lenBlockPacket ∧
        (blockHeader round.filled).pktIndex + 1 ≠ (blockHeader round.filled).pktTotal
    · have hreset : (blockDataRecv { round.client with packet := round.filled }
          round.client.index round.removed.length).Returns fun r => r.1.index = 0 :=
        blockDataRecv_index_stored hstored.1 hstored.2
      rw [hreset.of_result E hresult]
      exact iff_of_false (by decide) fun h => hstored.2 h.2
    · have hkept : (blockDataRecv { round.client with packet := round.filled }
          round.client.index round.removed.length).Returns fun r => r.1.index = round.received :=
        blockDataRecv_index_kept hstored
      rw [hkept.of_result E hresult]
      constructor
      · intro hfull
        refine ⟨hfull, ?_⟩
        by_contra hne
        exact hstored ⟨hfull, hne⟩
      · exact fun h => h.1
  · -- Another message leaves the offset where it was.
    have hkeep : r.1.index = round.client.index := (receive_index hkind).of_result E hresult
    rw [hkeep]
    exact iff_of_false hindex.ne fun h => hkind h.1

/-! ## Whole runs -/

/-- There is nothing to read, and the run is over. -/
theorem parse_of_removed_eq_nil {client : BlockBuffer} (hindex : client.index < lenBlockPacket)
    {input : Evbuffer} {s : σ} (hnil : (firstRound client input s).removed = []) :
    parse client input = .ret (client, []) := by
  rw [parse_eq_firstRound hindex.le input s, if_pos hnil]
  rcases evbufferRemove_eq_nil hnil with ⟨-, hrest⟩ | hzero
  · rw [laterInput, hrest]
  · omega

/-- A full packet buffer ends the run. -/
theorem parse_full_result {client : BlockBuffer} (h : client.index = lenBlockPacket)
    (input : Evbuffer) (s : σ) :
    ((parse client input).run E s).result = some (client, laterInput client input) := by
  have hnil : (firstRound client input s).removed = [] := by
    have hle := evbufferRemove_length_le (lenBlockPacket - client.index) input
    rw [h, Nat.sub_self] at hle
    change (evbufferRemove (lenBlockPacket - client.index) input).1 = []
    rw [h, Nat.sub_self]
    exact List.eq_nil_of_length_eq_zero (Nat.le_zero.mp hle)
  rw [parse_eq_firstRound h.le input s, if_pos hnil]
  rfl

/-- A run that returns leaves room in the packet buffer and no input exactly when no round of it
wedges. -/
theorem parse_room_iff (n : Nat) :
    ∀ {client : BlockBuffer} {input : Evbuffer}, Awaiting client →
      client.index < lenBlockPacket → input.flatten.length ≤ n →
        ∀ {s : σ} {r : BlockBuffer × Evbuffer}, ((parse client input).run E s).result = some r →
          (r.1.index < lenBlockPacket ∧ r.2.flatten = [] ↔
            ∀ round, IsRound E client input s round → ¬ round.Wedges) := by
  induction n with
  | zero =>
      intro client input h hindex hn s r hr
      have hnil : input.flatten = [] := List.eq_nil_of_length_eq_zero (Nat.le_zero.mp hn)
      have hremoved : (firstRound client input s).removed = [] :=
        congrArg Prod.fst (evbufferRemove_empty (lenBlockPacket - client.index) hnil)
      rw [parse_of_removed_eq_nil hindex hremoved] at hr
      cases hr
      refine iff_of_true ⟨hindex, rfl⟩ ?_
      exact fun round hround => absurd hround (not_isRound_of_removed_eq_nil hremoved round)
  | succ n ih =>
      intro client input h hindex hn s r hr
      by_cases hremoved : (firstRound client input s).removed = []
      · rw [parse_of_removed_eq_nil hindex hremoved] at hr
        cases hr
        refine iff_of_true ⟨hindex, rfl⟩ ?_
        exact fun round hround => absurd hround (not_isRound_of_removed_eq_nil hremoved round)
      · have hroom := firstRound_received_le hindex.le input s
        have hshort := laterInput_length_lt hremoved
        rw [parse_result hindex.le hremoved] at hr
        rw [forall_isRound_iff hremoved]
        cases hresult : ((firstRound client input s).outcome E).result with
        | none =>
            rw [hresult] at hr
            cases hr
        | some next =>
            rw [hresult] at hr
            have hnext : Awaiting next.1 := Round.next_awaiting h hroom hresult
            have hfull : next.1.index = lenBlockPacket ↔ (firstRound client input s).Wedges :=
              Round.index_eq_iff hindex hresult
            by_cases hwedges : (firstRound client input s).Wedges
            · refine iff_of_false ?_ fun hrounds => hrounds.1 hwedges
              -- Behind a full packet buffer the run returns at once and leaves it full.
              have hstuck := (parse_full_result (hfull.mpr hwedges) _ _).symm.trans hr
              injection hstuck with hstuck
              rw [← hstuck]
              exact fun hleft => hleft.1.ne (hfull.mpr hwedges)
            · have hlt : next.1.index < lenBlockPacket :=
                lt_of_le_of_ne hnext.index_le fun heq => hwedges (hfull.mp heq)
              have hrest := ih hnext hlt
                (by omega : (laterInput client input).flatten.length ≤ n) hr
              simp only [hrest, hwedges, not_false_eq_true, true_and, Option.some.injEq,
                forall_eq']

/-- A run returns with room in the packet buffer and no input exactly when every round of it
returns and none wedges. -/
theorem parse_index_iff {client : BlockBuffer} {input : Evbuffer} (h : Awaiting client)
    (hindex : client.index < lenBlockPacket) (s : σ) :
    (∃ r, ((parse client input).run E s).result = some r ∧
      r.1.index < lenBlockPacket ∧ r.2.flatten = []) ↔
    ∀ round, IsRound E client input s round →
      (round.outcome E).result.isSome ∧ ¬ round.Wedges := by
  have hreturns := parse_isSome_iff (E := E) input.flatten.length h le_rfl s
  constructor
  · rintro ⟨r, hresult, hroom⟩ round hround
    have hround_returns := hreturns.mp (Option.isSome_iff_exists.mpr ⟨r, hresult⟩) round hround
    exact ⟨hround_returns, (parse_room_iff _ h hindex le_rfl hresult).mp hroom round hround⟩
  · intro hrounds
    rcases Option.isSome_iff_exists.mp (hreturns.mpr fun round hround => (hrounds round hround).1)
      with ⟨r, hresult⟩
    refine ⟨r, hresult, (parse_room_iff _ h hindex le_rfl hresult).mpr ?_⟩
    exact fun round hround => (hrounds round hround).2

/-- More input adds rounds behind those of a run. -/
theorem IsRound.append {client : BlockBuffer} {input : Evbuffer} {s : σ} {round : Round σ}
    (h : IsRound E client input s round) (later : Evbuffer) :
    IsRound E client (input ++ later) s round := by
  -- Chunks behind a removal that found something do not change it.
  have hsame : ∀ {client : BlockBuffer} {input : Evbuffer} {s : σ},
      (firstRound client input s).removed ≠ [] →
        firstRound client (input ++ later) s = firstRound client input s ∧
          laterInput client (input ++ later) = laterInput client input ++ later := by
    intro client input s hne
    have hinput : input.flatten ≠ [] := by
      intro hnil
      exact hne (congrArg Prod.fst (evbufferRemove_empty (lenBlockPacket - client.index) hnil))
    have hremove := evbufferRemove_append (lenBlockPacket - client.index) hinput later
    exact ⟨by rw [firstRound, hremove]; rfl, congrArg Prod.snd hremove⟩
  induction h with
  | here hne =>
      rw [← (hsame hne).1]
      refine .here ?_
      rw [(hsame hne).1]
      exact hne
  | @later client input s r round hne hresult hround ih =>
      refine .later (r := r) ?_ ?_ ?_
      · rw [(hsame hne).1]
        exact hne
      · rw [(hsame hne).1]
        exact hresult
      · rw [(hsame hne).1, (hsame hne).2]
        exact ih

end Rounds

/-- **Every call returns with room for the next read and no input left, exactly in the runs in
which every packet of a block fits, no read fills the packet buffer with a last packet, and every
other message finds what its handler needs.** -/
theorem connection_index_iff {σ : Type} (E : Environment serverInterface σ) (s : σ)
    (calls : List Evbuffer) :
    (∀ k : Nat, ∃ r : BlockBuffer × Evbuffer,
        ((connection BlockBuffer.zero [] (calls.take k)).run E s).result = some r ∧
          r.1.index < lenBlockPacket ∧ r.2.flatten = []) ↔
      ∀ round, IsRound E BlockBuffer.zero calls.flatten s round →
        round.Fits ∧ ¬ round.Wedges ∧ round.Completes E := by
  have hle : BlockBuffer.zero.index ≤ lenBlockPacket := Nat.zero_le _
  have hparse : ∀ calls : List Evbuffer, connection BlockBuffer.zero [] calls =
      parse BlockBuffer.zero calls.flatten := by
    intro calls
    rw [connection_eq_parse calls hle (parse_nil hle rfl), List.nil_append]
  have hrun := fun input : Evbuffer =>
    @parse_index_iff σ E BlockBuffer.zero input awaiting_zero (by decide) s
  -- In the rounds of a run, returning is fitting and finding what the handler needs.
  have hround_iff : ∀ input round, IsRound E BlockBuffer.zero input s round →
      ((round.outcome E).result.isSome ∧ ¬ round.Wedges ↔
        round.Fits ∧ ¬ round.Wedges ∧ round.Completes E) := by
    intro input round hround
    rw [Round.isSome_iff (hround.awaiting awaiting_zero).2]
    exact ⟨fun h => ⟨h.1.1, h.2, h.1.2⟩, fun h => ⟨⟨h.1, h.2.2⟩, h.2.1⟩⟩
  constructor
  · intro h round hround
    have hlast := h calls.length
    rw [List.take_length, hparse] at hlast
    exact (hround_iff _ round hround).mp ((hrun _).mp hlast round hround)
  -- A round of the first `k` calls is a round of all of them.
  · intro h k
    rw [hparse]
    refine (hrun _).mpr ?_
    intro round hround
    have happend := hround.append (calls.drop k).flatten
    rw [← List.flatten_append, List.take_append_drop] at happend
    exact (hround_iff _ round hround).mpr (h round happend)

/-- The packet of a file of 992 bytes, all of them zero. -/
def fullLastPacket : List Byte :=
  [0x56] ++ List.replicate 28 0 ++ [1, 3, 0xE0] ++ List.replicate 992 0

theorem fullLastPacket_length : fullLastPacket.length = 1024 := by
  simp only [fullLastPacket, List.length_append, List.length_replicate, List.length_cons,
    List.length_nil]

theorem fullLastPacket_filled :
    (firstRound BlockBuffer.zero [fullLastPacket] World.empty).filled =
      (Cells.fill 0 : PacketBuffer).place 0 fullLastPacket ∧
    (firstRound BlockBuffer.zero [fullLastPacket] World.empty).received = 1024 := by
  have hremoved : (firstRound BlockBuffer.zero [fullLastPacket] World.empty).removed =
      fullLastPacket := by
    refine (congrArg Prod.fst (evbufferRemove_cons (by decide) _ [])).trans ?_
    exact List.take_of_length_le fullLastPacket_length.le
  refine ⟨?_, ?_⟩
  · rw [Round.filled, hremoved]
    rfl
  · rw [Round.received, hremoved, fullLastPacket_length]
    rfl

theorem fullLastPacket_header :
    blockHeader ((Cells.fill 0 : PacketBuffer).place 0 fullLastPacket) = ⟨992, 0, 1⟩ := by
  decide +kernel

theorem fullLastPacket_wedges :
    (firstRound BlockBuffer.zero [fullLastPacket] World.empty).Wedges := by
  rcases fullLastPacket_filled with ⟨hfilled, hreceived⟩
  rw [Round.Wedges, hfilled, fullLastPacket_header]
  exact ⟨by decide +kernel, hreceived, rfl⟩

theorem fullLastPacket_fits :
    (firstRound BlockBuffer.zero [fullLastPacket] World.empty).Fits := by
  intro _
  rw [fullLastPacket_filled.1, fullLastPacket_header]
  exact ⟨fun _ hne => absurd rfl hne, fun _ _ => ⟨by decide, by decide, by decide⟩⟩

/-- An upload of 992 bytes in one read leaves a full packet buffer. -/
theorem connection_index_full :
    ∃ (calls : List Evbuffer) (r : BlockBuffer × Evbuffer),
      ((connection BlockBuffer.zero [] calls).run world World.empty).result = some r ∧
        ¬ r.1.index < lenBlockPacket := by
  have hle : BlockBuffer.zero.index ≤ lenBlockPacket := Nat.zero_le _
  have hwedges := fullLastPacket_wedges
  have hroom := firstRound_received_le hle [fullLastPacket] World.empty
  have hreturns :=
    (Round.outcome_isSome_iff (E := world) hwedges.1 hroom).mpr fullLastPacket_fits
  rcases Option.isSome_iff_exists.mp hreturns with ⟨r, hresult⟩
  have hfull := (Round.index_eq_iff (by decide) hresult).mpr hwedges
  have hremoved : (firstRound BlockBuffer.zero [fullLastPacket] World.empty).removed ≠ [] := by
    intro hnil
    have hreceived := hwedges.2.1
    rw [Round.received, hnil] at hreceived
    exact absurd hreceived (by decide)
  refine ⟨[[fullLastPacket]],
    (r.1, laterInput r.1 (laterInput BlockBuffer.zero [fullLastPacket])), ?_, ?_⟩
  · rw [connection_eq_parse _ hle (parse_nil hle rfl)]
    change ((parse BlockBuffer.zero [fullLastPacket]).run world World.empty).result = _
    rw [parse_result hle hremoved, hresult]
    exact parse_full_result hfull _ _
  · exact fun hlt => hlt.ne hfull

end RobotServer
