import RobotServer.Model.Protocol

/-!
# ReadLoop — one read at a time, whatever the calls

The read loop keeps its offset twice, in a local and in the connection.  Both agree after every
round (`dispatch_returns`), so a connection is determined by its reads: `parse` drains an input,
`parse_eq` is one round of it, and how the input is grouped into calls of the read callback makes
no difference (`connection_eq_parse`).
-/

namespace RobotServer

open CText Memory Interaction

/-! ## Removing bytes from the input -/

theorem evbufferRemove_flatten (datlen : Nat) (input : Evbuffer) :
    (evbufferRemove datlen input).1 ++ (evbufferRemove datlen input).2.flatten =
      input.flatten := by
  fun_induction evbufferRemove datlen input with
  | case1 => rfl
  | case2 rest ih => simpa using ih
  | case3 stretch rest hne =>
      by_cases h : datlen < stretch.length
      · simp [h, ← List.append_assoc]
      · have htake : stretch.take datlen = stretch := List.take_of_length_le (by omega)
        simp [h, htake]

theorem evbufferRemove_length_le (datlen : Nat) (input : Evbuffer) :
    (evbufferRemove datlen input).1.length ≤ datlen := by
  fun_induction evbufferRemove datlen input with
  | case1 => simp
  | case2 rest ih => exact ih
  | case3 stretch rest hne => simp

/-- The input left by a removal is shorter by the removed bytes. -/
theorem evbufferRemove_length (datlen : Nat) (input : Evbuffer) :
    (evbufferRemove datlen input).1.length + (evbufferRemove datlen input).2.flatten.length =
      input.flatten.length := by
  rw [← List.length_append, evbufferRemove_flatten]

/-- Input without a byte is removed as a whole. -/
theorem evbufferRemove_of_flatten_eq_nil (datlen : Nat) {empty : Evbuffer}
    (h : empty.flatten = []) (input : Evbuffer) :
    evbufferRemove datlen (empty ++ input) = evbufferRemove datlen input := by
  induction empty with
  | nil => rfl
  | cons stretch rest ih =>
      have hparts : stretch = [] ∧ rest.flatten = [] := by simpa using h
      rcases hparts with ⟨rfl, hrest⟩
      simpa [evbufferRemove] using ih hrest

theorem evbufferRemove_empty (datlen : Nat) {empty : Evbuffer} (h : empty.flatten = []) :
    evbufferRemove datlen empty = ([], []) := by
  have hremove := evbufferRemove_of_flatten_eq_nil datlen h []
  rwa [List.append_nil] at hremove

/-- Input behind the first byte that is not removed is left alone. -/
theorem evbufferRemove_append (datlen : Nat) {input : Evbuffer} (h : input.flatten ≠ [])
    (later : Evbuffer) :
    evbufferRemove datlen (input ++ later) =
      ((evbufferRemove datlen input).1, (evbufferRemove datlen input).2 ++ later) := by
  fun_induction evbufferRemove datlen input with
  | case1 => exact absurd rfl h
  | case2 rest ih => simpa [evbufferRemove] using ih (by simpa using h)
  | case3 stretch rest hne =>
      cases stretch with
      | nil => exact absurd rfl hne
      | cons b bs =>
          simp only [List.cons_append, evbufferRemove]
          split <;> rfl

theorem evbufferRemove_cons {stretch : List Byte} (h : stretch ≠ []) (datlen : Nat)
    (rest : Evbuffer) :
    evbufferRemove datlen (stretch :: rest) = (stretch.take datlen,
      if datlen < stretch.length then stretch.drop datlen :: rest else rest) := by
  cases stretch with
  | nil => exact absurd rfl h
  | cons b bs => rfl

/-- Nothing is removed when nothing may be, or when there is no byte. -/
theorem evbufferRemove_eq_nil {datlen : Nat} {input : Evbuffer}
    (h : (evbufferRemove datlen input).1 = []) :
    (input.flatten = [] ∧ (evbufferRemove datlen input).2 = []) ∨ datlen = 0 := by
  fun_induction evbufferRemove datlen input with
  | case1 => exact .inl ⟨rfl, rfl⟩
  | case2 rest ih => simpa using ih h
  | case3 stretch rest hne =>
      right
      have hcases : datlen = 0 ∨ stretch = [] := List.take_eq_nil_iff.mp h
      rcases hcases with hzero | hnil
      · exact hzero
      · exact absurd hnil hne

/-- Stretches without a byte are not noticed. -/
theorem evbufferRemove_filter (datlen : Nat) (input : Evbuffer) :
    (evbufferRemove datlen (input.filter (· ≠ []))).1 = (evbufferRemove datlen input).1 ∧
      (evbufferRemove datlen (input.filter (· ≠ []))).2.filter (· ≠ []) =
        (evbufferRemove datlen input).2.filter (· ≠ []) := by
  fun_induction evbufferRemove datlen input with
  | case1 => exact ⟨rfl, rfl⟩
  | case2 rest ih => simpa using ih
  | case3 stretch rest hne =>
      have hfilter : (stretch :: rest).filter (· ≠ []) = stretch :: rest.filter (· ≠ []) :=
        List.filter_cons_of_pos (decide_eq_true hne)
      rw [hfilter, evbufferRemove_cons hne]
      refine ⟨rfl, ?_⟩
      split
      · simp [List.filter_cons]
      · simp

/-- A removal of no bytes can be repeated. -/
theorem evbufferRemove_zero (input : Evbuffer) :
    evbufferRemove 0 (evbufferRemove 0 input).2 = evbufferRemove 0 input := by
  fun_induction evbufferRemove 0 input with
  | case1 => rfl
  | case2 rest ih => exact ih
  | case3 stretch rest hne =>
      have hpos : 0 < stretch.length := List.length_pos_of_ne_nil hne
      simp [hpos, evbufferRemove_cons hne]

/-! ## The two offsets agree -/

/-- The offset in the connection and the local one agree, and stay within the packet buffer. -/
def OffsetsAgree (r : BlockBuffer × Nat) : Prop :=
  r.1.index = r.2 ∧ r.2 ≤ lenBlockPacket

theorem deviceBlockDataSendPacket_returns (client : BlockBuffer) (length : Nat) :
    (deviceBlockDataSendPacket client length).Returns fun r => r.2.index = client.index := by
  unfold deviceBlockDataSendPacket
  split
  · exact rfl
  · apply Program.returns_bind_of_forall
    intro content
    apply Program.returns_bind_of_forall
    intro packets
    apply Program.returns_bind_of_forall
    intro _
    exact rfl

theorem storePacket_returns {client : BlockBuffer} {header : BlockHeader} {blockIndex nbytes : Nat}
    (h : blockIndex + nbytes ≤ lenBlockPacket) :
    (storePacket client header blockIndex nbytes).Returns OffsetsAgree := by
  unfold storePacket
  split
  · apply Program.returns_bind_of_forall
    intro buffer
    exact ⟨rfl, Nat.zero_le _⟩
  · exact ⟨rfl, h⟩

theorem saveBlock_returns {client : BlockBuffer} {header : BlockHeader} {blockIndex : Nat}
    (h : OffsetsAgree (client, blockIndex)) :
    (saveBlock client header blockIndex).Returns OffsetsAgree := by
  unfold saveBlock
  split
  · apply Program.returns_bind_of_forall
    intro buffer
    apply Program.returns_bind_of_forall
    intro saved
    apply Program.returns_bind_of_forall
    intro _
    apply Program.returns_bind_of_forall
    intro _
    apply Program.returns_bind_of_forall
    intro _
    exact h
  · exact h

/-- A branch that hands the message to a handler and keeps the connection. -/
theorem keepOffsets_returns {α : Type} {client : BlockBuffer} {blockIndex : Nat}
    (h : OffsetsAgree (client, blockIndex)) (p : Action α) :
    (p >>= fun _ => pure (client, blockIndex)).Returns OffsetsAgree := by
  apply Program.returns_bind_of_forall
  intro _
  exact h

theorem dispatch_returns {client : BlockBuffer} {blockIndex nbytes : Nat}
    (hindex : client.index = blockIndex) (h : blockIndex + nbytes ≤ lenBlockPacket) :
    (dispatch client blockIndex nbytes).Returns OffsetsAgree := by
  have hsame : OffsetsAgree (client, blockIndex) := ⟨hindex, Nat.le_trans (Nat.le_add_right _ _) h⟩
  unfold dispatch
  dsimp only
  -- The two block messages alone touch the buffer; every other branch hands back what it got.
  split
  · apply Program.returns_bind_of_forall
    intro _
    apply Program.returns_bind_of_forall
    intro r
    exact keepOffsets_returns hsame _
  split
  · apply Program.returns_bind_of_forall
    intro _
    apply Program.returns_bind_of_forall
    intro r
    exact keepOffsets_returns hsame _
  split
  · apply Program.returns_bind_of_forall
    intro _
    exact keepOffsets_returns hsame _
  split
  · apply Program.returns_bind_of_forall
    intro _
    apply Program.returns_bind_of_forall
    intro _
    exact keepOffsets_returns hsame _
  split
  · exact hsame
  split
  · exact keepOffsets_returns hsame _
  split
  · apply Program.returns_bind_of_forall
    intro _
    exact keepOffsets_returns hsame _
  split
  · exact keepOffsets_returns hsame _
  split
  · apply (storePacket_returns h).bind
    intro r hr
    exact saveBlock_returns hr
  split
  · apply Program.returns_bind_of_forall
    intro _
    apply (deviceBlockDataSendPacket_returns client nbytes).bind
    intro r hr
    exact ⟨hr.trans hsame.1, hsame.2⟩
  · exact hsame

/-! ## Reading on -/

/-- All of `input`, read from the offset the connection keeps. -/
def parse (client : BlockBuffer) (input : Evbuffer) : Action (BlockBuffer × Evbuffer) :=
  parseLoop (input.flatten.length + 1) client client.index input

/-- One read, of the bytes `removed` at offset `blockIndex`. -/
def receive (client : BlockBuffer) (blockIndex : Nat) (removed : List Byte) :
    Action (BlockBuffer × Nat) :=
  dispatch { client with packet := client.packet.place blockIndex removed } blockIndex
    removed.length

theorem receive_returns {client : BlockBuffer} {removed : List Byte}
    (h : client.index + removed.length ≤ lenBlockPacket) :
    (receive client client.index removed).Returns OffsetsAgree :=
  dispatch_returns rfl h

theorem apolloParsePacket_eq_parse {client : BlockBuffer} (h : client.index ≤ lenBlockPacket)
    (input : Evbuffer) : apolloParsePacket client input = parse client input := by
  simp only [apolloParsePacket, parse, if_neg (Nat.not_lt.mpr h)]

theorem parseLoop_succ (fuel : Nat) (client : BlockBuffer) (blockIndex : Nat) (input : Evbuffer) :
    parseLoop (fuel + 1) client blockIndex input =
      if (evbufferRemove (lenBlockPacket - blockIndex) input).1 = [] then
        .ret (client, (evbufferRemove (lenBlockPacket - blockIndex) input).2)
      else
        receive client blockIndex (evbufferRemove (lenBlockPacket - blockIndex) input).1 >>= fun r =>
          parseLoop fuel r.1 r.2 (evbufferRemove (lenBlockPacket - blockIndex) input).2 := rfl

/-- Fuel beyond the number of bytes makes no difference. -/
theorem parseLoop_fuel (fuel : Nat) :
    ∀ (fuel' : Nat) (client : BlockBuffer) (blockIndex : Nat) (input : Evbuffer),
      input.flatten.length < fuel → input.flatten.length < fuel' →
        parseLoop fuel client blockIndex input = parseLoop fuel' client blockIndex input := by
  induction fuel with
  | zero =>
      intro fuel' client blockIndex input h
      exact absurd h (Nat.not_lt_zero _)
  | succ fuel ih =>
      intro fuel' client blockIndex input h h'
      cases fuel' with
      | zero => exact absurd h' (Nat.not_lt_zero _)
      | succ fuel' =>
          rw [parseLoop_succ, parseLoop_succ]
          split
          · rfl
          · next hne =>
              -- A round that goes on removes at least one byte.
              have hpos := List.length_pos_of_ne_nil hne
              have hlen := evbufferRemove_length (lenBlockPacket - blockIndex) input
              congr 1
              funext r
              exact ih fuel' r.1 r.2 _ (by omega) (by omega)

/-- One round of reading on. -/
theorem parse_eq {client : BlockBuffer} (h : client.index ≤ lenBlockPacket) (input : Evbuffer) :
    parse client input =
      if (evbufferRemove (lenBlockPacket - client.index) input).1 = [] then
        .ret (client, (evbufferRemove (lenBlockPacket - client.index) input).2)
      else
        receive client client.index (evbufferRemove (lenBlockPacket - client.index) input).1 >>=
          fun r => parse r.1 (evbufferRemove (lenBlockPacket - client.index) input).2 := by
  rw [parse, parseLoop_succ]
  split
  · rfl
  · next hne =>
      have hpos := List.length_pos_of_ne_nil hne
      have hle := evbufferRemove_length_le (lenBlockPacket - client.index) input
      have hlen := evbufferRemove_length (lenBlockPacket - client.index) input
      refine Program.bind_congr_of_returns (receive_returns (by omega)) ?_
      intro r hr
      rw [parse, hr.1]
      exact parseLoop_fuel _ _ _ _ _ (by omega) (by omega)

/-- A stretch that is read at the head of the packet buffer. -/
theorem parse_stretch {client : BlockBuffer} (hindex : client.index = 0) {stretch : List Byte}
    (hne : stretch ≠ []) (rest : Evbuffer) :
    parse client (stretch :: rest) =
      receive client 0 (stretch.take lenBlockPacket) >>= fun r => parse r.1
        (if lenBlockPacket < stretch.length then stretch.drop lenBlockPacket :: rest else rest) := by
  have hremoved : stretch.take lenBlockPacket ≠ [] := by
    intro hnil
    rcases List.take_eq_nil_iff.mp hnil with hzero | hempty
    · exact absurd hzero (by decide)
    · exact hne hempty
  rw [parse_eq (hindex ▸ Nat.zero_le _), evbufferRemove_cons hne, hindex, Nat.sub_zero]
  exact if_neg hremoved

/-- Stretches without a byte make no difference. -/
theorem parse_empty_append {client : BlockBuffer} (h : client.index ≤ lenBlockPacket)
    {empty : Evbuffer} (hempty : empty.flatten = []) (input : Evbuffer) :
    parse client (empty ++ input) = parse client input := by
  rw [parse_eq h, parse_eq h input, evbufferRemove_of_flatten_eq_nil _ hempty]

theorem parse_nil {client : BlockBuffer} (h : client.index ≤ lenBlockPacket) {empty : Evbuffer}
    (hempty : empty.flatten = []) : parse client empty = .ret (client, []) := by
  rw [parse_eq h, evbufferRemove_empty _ hempty]
  rfl

/-- Reading is over: there is no input, or no room for it. -/
theorem parse_stuck {client : BlockBuffer} {input : Evbuffer} (h : client.index ≤ lenBlockPacket)
    (hnil : (evbufferRemove (lenBlockPacket - client.index) input).1 = []) :
    parse client (evbufferRemove (lenBlockPacket - client.index) input).2 =
      .ret (client, (evbufferRemove (lenBlockPacket - client.index) input).2) := by
  rcases evbufferRemove_eq_nil hnil with ⟨-, hrest⟩ | hzero
  · rw [hrest, parse_eq h]
    rfl
  · rw [parse_eq h, hzero, evbufferRemove_zero, ← hzero, if_pos hnil]

/-- A full packet buffer leaves no room for a read. -/
theorem parse_full {client : BlockBuffer} (h : client.index = lenBlockPacket) (input : Evbuffer) :
    (parse client input).effects = .ret () := by
  have hnil : (evbufferRemove (lenBlockPacket - client.index) input).1 = [] := by
    have hle := evbufferRemove_length_le (lenBlockPacket - client.index) input
    rw [h, Nat.sub_self] at hle ⊢
    exact List.eq_nil_of_length_eq_zero (Nat.le_zero.mp hle)
  rw [parse_eq h.le, if_pos hnil]
  rfl

/-- Inputs that differ in stretches without a byte have the same effects. -/
theorem parse_effects_congr (n : Nat) :
    ∀ {client : BlockBuffer} {input input' : Evbuffer}, client.index ≤ lenBlockPacket →
      input.flatten.length ≤ n → input.filter (· ≠ []) = input'.filter (· ≠ []) →
        (parse client input).effects = (parse client input').effects := by
  induction n with
  | zero =>
      intro client input input' h hn hfilter
      have hnil : input.flatten = [] := List.eq_nil_of_length_eq_zero (Nat.le_zero.mp hn)
      have hnil' : input'.flatten = [] := by
        rw [← List.flatten_filter_ne_nil, ← hfilter, List.flatten_filter_ne_nil, hnil]
      rw [parse_nil h hnil, parse_nil h hnil']
  | succ n ih =>
      intro client input input' h hn hfilter
      -- Empty chunks give a removal nothing, before it and behind it.
      have hremove := evbufferRemove_filter (lenBlockPacket - client.index) input
      have hremove' := evbufferRemove_filter (lenBlockPacket - client.index) input'
      rw [hfilter] at hremove
      have hfirst := hremove.1.symm.trans hremove'.1
      have hrest := hremove.2.symm.trans hremove'.2
      rw [parse_eq h, parse_eq h input', ← hfirst]
      split
      · rfl
      · next hne =>
          have hpos := List.length_pos_of_ne_nil hne
          have hle := evbufferRemove_length_le (lenBlockPacket - client.index) input
          have hlen := evbufferRemove_length (lenBlockPacket - client.index) input
          rw [Program.effects_bind, Program.effects_bind]
          refine Program.bind_congr_of_returns (receive_returns (by omega)) ?_
          intro r hr
          exact ih (hr.1.trans_le hr.2) (by omega) hrest

/-- Input that arrives later is read after the input before it. -/
theorem parse_append (n : Nat) :
    ∀ {client : BlockBuffer} {input : Evbuffer}, client.index ≤ lenBlockPacket →
      input.flatten.length ≤ n → ∀ later : Evbuffer,
        parse client (input ++ later) =
          parse client input >>= fun r => parse r.1 (r.2 ++ later) := by
  induction n with
  | zero =>
      intro client input h hn later
      have hnil : input.flatten = [] := List.eq_nil_of_length_eq_zero (Nat.le_zero.mp hn)
      rw [parse_nil h hnil, parse_empty_append h hnil]
      rfl
  | succ n ih =>
      intro client input h hn later
      by_cases hnil : input.flatten = []
      · exact ih h (by simp [hnil]) later
      · rw [parse_eq h, evbufferRemove_append _ hnil, parse_eq h input]
        by_cases hremoved : (evbufferRemove (lenBlockPacket - client.index) input).1 = []
        · -- No room is left: what is not removed now is not removed later either.
          have hzero : lenBlockPacket - client.index = 0 := by
            rcases evbufferRemove_eq_nil hremoved with ⟨hempty, -⟩ | hzero
            · exact absurd hempty hnil
            · exact hzero
          have hrest : (evbufferRemove (lenBlockPacket - client.index) input).2.flatten ≠ [] := by
            have hflat := evbufferRemove_flatten (lenBlockPacket - client.index) input
            rw [hremoved, List.nil_append] at hflat
            rw [hflat]
            exact hnil
          rw [if_pos hremoved, if_pos hremoved]
          simp only [Program.ret_bind]
          rw [parse_eq h, evbufferRemove_append _ hrest, hzero, evbufferRemove_zero, ← hzero,
            if_pos hremoved]
        -- A round that removes something leaves a shorter input to the induction hypothesis.
        · have hpos := List.length_pos_of_ne_nil hremoved
          have hle := evbufferRemove_length_le (lenBlockPacket - client.index) input
          have hlen := evbufferRemove_length (lenBlockPacket - client.index) input
          dsimp only
          rw [if_neg hremoved, if_neg hremoved, bind_assoc]
          refine Program.bind_congr_of_returns (receive_returns (by omega)) ?_
          intro r hr
          exact ih (hr.1.trans_le hr.2) (by omega) later

theorem parse_returns (n : Nat) :
    ∀ {client : BlockBuffer} {input : Evbuffer}, client.index ≤ lenBlockPacket →
      input.flatten.length ≤ n →
        (parse client input).Returns fun r =>
          r.1.index ≤ lenBlockPacket ∧ parse r.1 r.2 = .ret r := by
  induction n with
  | zero =>
      intro client input h hn
      have hnil : input.flatten = [] := List.eq_nil_of_length_eq_zero (Nat.le_zero.mp hn)
      have hremove : (evbufferRemove (lenBlockPacket - client.index) input).1 = [] :=
        congrArg Prod.fst (evbufferRemove_empty (lenBlockPacket - client.index) hnil)
      rw [parse_eq h, if_pos hremove]
      exact ⟨h, parse_stuck h hremove⟩
  | succ n ih =>
      intro client input h hn
      rw [parse_eq h]
      split
      · next hremove => exact ⟨h, parse_stuck h hremove⟩
      · next hne =>
          have hpos := List.length_pos_of_ne_nil hne
          have hle := evbufferRemove_length_le (lenBlockPacket - client.index) input
          have hlen := evbufferRemove_length (lenBlockPacket - client.index) input
          refine (receive_returns (by omega)).bind ?_
          intro r hr
          exact ih (hr.1.trans_le hr.2) (by omega)

/-- **The grouping of the input into calls of the read callback makes no difference.** -/
theorem connection_eq_parse (calls : List Evbuffer) :
    ∀ {client : BlockBuffer} {pending : Evbuffer}, client.index ≤ lenBlockPacket →
      parse client pending = .ret (client, pending) →
        connection client pending calls = parse client (pending ++ calls.flatten) := by
  induction calls with
  | nil =>
      intro client pending h hstuck
      rw [List.flatten_nil, List.append_nil, hstuck]
      rfl
  | cons arrived calls ih =>
      intro client pending h hstuck
      have hcall : connection client pending (arrived :: calls) =
          parse client (pending ++ arrived) >>= fun r => connection r.1 r.2 calls := by
        rw [connection, apolloParsePacket_eq_parse h]
      have hparse := parse_append (pending ++ arrived).flatten.length h le_rfl calls.flatten
      rw [hcall, List.flatten_cons, ← List.append_assoc, hparse]
      refine Program.bind_congr_of_returns (parse_returns _ h le_rfl) ?_
      intro r hr
      exact ih hr.1 hr.2

end RobotServer
