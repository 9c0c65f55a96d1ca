import RobotServer.Serving.Messages

/-!
# Framing — messages of fixed length and the reads they arrive in

Heartbeats, polls, commands, locations and download requests have fixed lengths, but every read of
the loop is handed to a handler as one message (`receive_handled`).  The bytes handed to handlers
are never more than the bytes read (`parse_handled_le`), and they are all of them only when every
read is a message of its own (`filter_eq_of_handled`).
-/

namespace RobotServer

open CText Memory Interaction

/-! ## Calls of handlers -/

/-- The handlers that were called, each with the message it was given. -/
def handlersOf (trace : List Op) : List (Proc × List Byte) :=
  trace.filterMap fun o =>
    match o with
    | .handler proc packet => some (proc, packet)
    | _ => none

@[simp] theorem handlersOf_nil : handlersOf [] = [] := rfl

@[simp] theorem handlersOf_append (trace trace' : List Op) :
    handlersOf (trace ++ trace') = handlersOf trace ++ handlersOf trace' :=
  List.filterMap_append

theorem handlersOf_of_inner {trace : List Op} (h : ∀ o ∈ trace, o.isHandler = false) :
    handlersOf trace = [] := by
  refine List.filterMap_eq_nil_iff.mpr ?_
  intro o ho
  have hinner := h o ho
  cases o with
  | handler proc packet => cases hinner
  | _ => rfl

/-- The bytes that were handed to handlers. -/
def handledBytes (trace : List Op) : Nat :=
  ((handlersOf trace).map fun h => h.2.length).sum

theorem handledBytes_append (trace trace' : List Op) :
    handledBytes (trace ++ trace') = handledBytes trace + handledBytes trace' := by
  rw [handledBytes, handlersOf_append, List.map_append, List.sum_append]
  rfl

/-! ## One read -/

/-- Only a block is read in several pieces. -/
structure Awaiting (client : BlockBuffer) : Prop where
  index_le : client.index ≤ lenBlockPacket
  peek_zero : client.index ≠ 0 → client.packet.peek 0 = hdrBlockDataRecv

theorem storePacket_awaiting {client : BlockBuffer} {header : BlockHeader}
    {blockIndex nbytes : Nat} (hpeek : client.packet.peek 0 = hdrBlockDataRecv)
    (h : blockIndex + nbytes ≤ lenBlockPacket) :
    (storePacket client header blockIndex nbytes).Returns fun r =>
      r.1.index = r.2 ∧ Awaiting r.1 := by
  unfold storePacket
  split
  · apply Program.returns_bind_of_forall
    intro buffer
    exact ⟨rfl, Nat.zero_le _, fun h0 => absurd rfl h0⟩
  · exact ⟨rfl, h, fun _ => hpeek⟩

theorem saveBlock_awaiting {client : BlockBuffer} {header : BlockHeader} {blockIndex : Nat}
    (hindex : client.index = blockIndex) (h : Awaiting client) :
    (saveBlock client header blockIndex).Returns fun r => r.1.index = r.2 ∧ Awaiting r.1 := by
  unfold saveBlock
  split
  · apply Program.returns_bind_of_forall
    intro buffer
    apply Program.returns_bind_of_forall
    intro saved
    apply Program.returns_bind_of_forall
    intro _
    apply Program.returns_bind_of_forall
    intro _
    apply Program.returns_bind_of_forall
    intro _
    exact ⟨hindex, h.index_le, h.peek_zero⟩
  · exact ⟨hindex, h⟩

theorem blockDataRecv_awaiting {client : BlockBuffer} {blockIndex nbytes : Nat}
    (hpeek : client.packet.peek 0 = hdrBlockDataRecv) (h : blockIndex + nbytes ≤ lenBlockPacket) :
    (blockDataRecv client blockIndex nbytes).Returns fun r => r.1.index = r.2 ∧ Awaiting r.1 :=
  (storePacket_awaiting hpeek h).bind fun _ hr => saveBlock_awaiting hr.1 hr.2

theorem saveBlock_performs (client : BlockBuffer) (header : BlockHeader) (blockIndex : Nat) :
    (saveBlock client header blockIndex).Performs fun o => Op.isHandler o = false := by
  have hsend : (apolloReturnPacket (ascii "SETOK%")).Performs fun o => Op.isHandler o = false :=
    apolloReturnPacket_performs (by rfl) (by rfl)
  unfold saveBlock
  split
  · refine (Program.performs_ofOption _).bind fun buffer => ?_
    refine (Program.performs_ofOption _).bind fun saved => ?_
    refine Program.Performs.bind (Program.performs_perform rfl) fun _ => ?_
    refine hsend.bind fun _ => ?_
    exact Program.Performs.bind (Program.performs_perform rfl) fun _ => trivial
  · trivial

/-- The reassembly of a block calls no handler. -/
theorem blockDataRecv_performs (client : BlockBuffer) (blockIndex nbytes : Nat) :
    (blockDataRecv client blockIndex nbytes).Performs fun o => Op.isHandler o = false := by
  refine Program.Performs.bind ?_ fun r => saveBlock_performs r.1 _ r.2
  unfold storePacket
  split
  · exact (Program.performs_ofOption _).bind fun _ => trivial
  · trivial

section Receive

variable {client : BlockBuffer} {removed : List Byte}

/-- The header byte of the packet buffer after a read that does not start a message. -/
theorem peek_zero_place_of_pos (hindex : client.index ≠ 0) (removed : List Byte) :
    (client.packet.place client.index removed).peek 0 = client.packet.peek 0 :=
  Cells.peek_place_of_lt (by decide) (Nat.pos_of_ne_zero hindex)

theorem receive_awaiting (h : Awaiting client)
    (hroom : client.index + removed.length ≤ lenBlockPacket) :
    (receive client client.index removed).Returns fun r => r.1.index = r.2 ∧ Awaiting r.1 := by
  by_cases hpeek : (client.packet.place client.index removed).peek 0 = hdrBlockDataRecv
  · rw [receive, dispatch_block hpeek]
    exact blockDataRecv_awaiting hpeek hroom
  · -- Another message starts at the head of the packet buffer, and ends there.
    have hindex : client.index = 0 := by
      by_contra hne
      rw [peek_zero_place_of_pos hne] at hpeek
      exact hpeek (h.peek_zero hne)
    rw [receive, dispatch_served hpeek]
    apply Program.returns_bind_of_forall
    intro written
    exact ⟨rfl, h.index_le, fun hne => absurd hindex hne⟩

/-- A message of another kind keeps the offset of the connection. -/
theorem receive_index {off : Nat} (hpeek : (client.packet.place off removed).peek 0 ≠ hdrBlockDataRecv) :
    (receive client off removed).Returns fun r => r.1.index = client.index := by
  rw [receive, dispatch_served hpeek]
  apply Program.returns_bind_of_forall
  intro written
  rfl

variable {σ : Type} (E : Environment serverInterface σ) (s : σ) {off : Nat}

/-- A read that starts a message is handed to the handler of its first byte. -/
theorem receive_handlers (hpeek : (client.packet.place off removed).peek 0 ≠ hdrBlockDataRecv) :
    handlersOf ((receive client off removed).run E s).trace =
      match handlerOf ((client.packet.place off removed).peek 0) with
      | none => []
      | some proc => [(proc, (client.packet.place off removed).slice 0 removed.length)] := by
  rw [receive, dispatch_served hpeek, Program.trace_bind_ret]
  cases hhandler : handlerOf ((client.packet.place off removed).peek 0) with
  | none =>
      rw [served, hhandler]
      rfl
  | some proc =>
      rw [served_eq hhandler, perform_bind, Program.run_call]
      have hinner := (procAction_inner proc (client.packet.place off removed)
        removed.length).trace E
      exact congrArg (List.cons _) (handlersOf_of_inner fun o ho => (hinner _ o ho).1)

/-- A read that reassembles a block calls no handler. -/
theorem receive_block_handlers
    (hpeek : (client.packet.place off removed).peek 0 = hdrBlockDataRecv) :
    handlersOf ((receive client off removed).run E s).trace = [] := by
  rw [receive, dispatch_block hpeek]
  exact handlersOf_of_inner ((blockDataRecv_performs _ _ _).trace E s)

/-- A read at the head of the packet buffer is handed to no handler, or to one and as a whole. -/
theorem receive_handlers_cases (hlen : removed.length ≤ lenBlockPacket) :
    handlersOf ((receive client 0 removed).run E s).trace = [] ∨
      ∃ proc, handlersOf ((receive client 0 removed).run E s).trace = [(proc, removed)] ∧
        (receive client 0 removed).Returns fun r => r.1.index = client.index := by
  by_cases hpeek : (client.packet.place 0 removed).peek 0 = hdrBlockDataRecv
  · exact .inl (receive_block_handlers E s hpeek)
  · have hhandlers := receive_handlers E s hpeek
    rw [Cells.slice_place_self _ _ _ (by rw [Nat.zero_add]; exact hlen)] at hhandlers
    cases hhandler : handlerOf ((client.packet.place 0 removed).peek 0) with
    | none =>
        rw [hhandler] at hhandlers
        exact .inl hhandlers
    | some proc =>
        rw [hhandler] at hhandlers
        exact .inr ⟨proc, hhandlers, receive_index hpeek⟩

/-- The handlers a read calls are given no more bytes than it has. -/
theorem receive_handled_le :
    handledBytes ((receive client off removed).run E s).trace ≤ removed.length := by
  by_cases hpeek : (client.packet.place off removed).peek 0 = hdrBlockDataRecv
  · rw [handledBytes, receive_block_handlers E s hpeek]
    exact Nat.zero_le _
  · rw [handledBytes, receive_handlers E s hpeek]
    split
    · exact Nat.zero_le _
    · simp

end Receive

/-! ## All reads -/

section Parse

variable {σ : Type} (E : Environment serverInterface σ)

theorem parse_handled_le (n : Nat) :
    ∀ {client : BlockBuffer} {input : Evbuffer}, Awaiting client → input.flatten.length ≤ n →
      ∀ s, handledBytes ((parse client input).run E s).trace ≤ input.flatten.length := by
  induction n with
  | zero =>
      intro client input h hn s
      have hnil : input.flatten = [] := List.eq_nil_of_length_eq_zero (Nat.le_zero.mp hn)
      rw [parse_nil h.index_le hnil]
      exact Nat.zero_le _
  | succ n ih =>
      intro client input h hn s
      rw [parse_eq h.index_le]
      split
      · exact Nat.zero_le _
      · next hne =>
          have hpos := List.length_pos_of_ne_nil hne
          have hle := evbufferRemove_length_le (lenBlockPacket - client.index) input
          have hlen := evbufferRemove_length (lenBlockPacket - client.index) input
          have hread := @receive_handled_le client
            (evbufferRemove (lenBlockPacket - client.index) input).1 σ E s client.index
          have hnext := @receive_awaiting client
            (evbufferRemove (lenBlockPacket - client.index) input).1 h (by omega)
          rcases Program.exists_trace_bind E _ (fun r : BlockBuffer × Nat => parse r.1
            (evbufferRemove (lenBlockPacket - client.index) input).2) s with
            ⟨later, htrace, hlater⟩
          rw [htrace, handledBytes_append]
          -- The round faulted, or the rest of the input is handled behind it.
          rcases hlater with rfl | ⟨r, hresult, rfl⟩
          · change _ + 0 ≤ _
            omega
          · have hrest := @ih r.1 (evbufferRemove (lenBlockPacket - client.index) input).2
              (hnext.of_result E hresult).2 (by omega)
              ((receive client client.index
                (evbufferRemove (lenBlockPacket - client.index) input).1).run E s).final
            omega

/-- When handlers are given every byte, and never a full packet buffer, every read is a stretch
of its own. -/
theorem filter_eq_of_handled (input : Evbuffer) :
    ∀ {client : BlockBuffer}, client.index = 0 → ∀ s,
      (∀ h ∈ handlersOf ((parse client input).run E s).trace, h.2.length < lenBlockPacket) →
      handledBytes ((parse client input).run E s).trace = input.flatten.length →
        input.filter (· ≠ []) = (handlersOf ((parse client input).run E s).trace).map Prod.snd := by
  induction input with
  | nil =>
      intro client hindex s _ _
      rw [parse_nil (hindex ▸ Nat.zero_le _) rfl]
      rfl
  | cons stretch rest ih =>
      intro client hindex s
      have hclient : Awaiting client := ⟨hindex ▸ Nat.zero_le _, fun h => absurd hindex h⟩
      by_cases hne : stretch = []
      · subst hne
        have hparse := parse_empty_append hclient.index_le
          (by simp : ([[]] : Evbuffer).flatten = []) rest
        have hsame : parse client ([] :: rest) = parse client rest := hparse
        rw [hsame]
        exact ih hindex s
      · rw [parse_stretch hindex hne]
        have hpos := List.length_pos_of_ne_nil hne
        have hfit : (stretch.take lenBlockPacket).length ≤ lenBlockPacket :=
          List.length_take_le _ _
        have hnext := @receive_awaiting client (stretch.take lenBlockPacket) hclient
          (by rw [hindex, Nat.zero_add]; exact hfit)
        rw [hindex] at hnext
        generalize hinput : (if lenBlockPacket < stretch.length then
          stretch.drop lenBlockPacket :: rest else rest) = input
        have hbytes : (stretch.take lenBlockPacket).length + input.flatten.length =
            (stretch :: rest).flatten.length := by
          have hremove := evbufferRemove_length lenBlockPacket (stretch :: rest)
          rw [evbufferRemove_cons hne] at hremove
          rw [← hinput]
          exact hremove
        rcases Program.exists_trace_bind E (receive client 0 (stretch.take lenBlockPacket))
          (fun r : BlockBuffer × Nat => parse r.1 input) s with ⟨later, htrace, hlater⟩
        have hrest : handledBytes later ≤ input.flatten.length := by
          rcases hlater with rfl | ⟨r, hresult, rfl⟩
          · exact Nat.zero_le _
          · exact parse_handled_le E _ (hnext.of_result E hresult).2 le_rfl _
        rw [htrace, handledBytes_append, handlersOf_append]
        intro hshort hall
        rcases receive_handlers_cases E s hfit with hnone | ⟨proc, hhandlers, hindex'⟩
        · -- The bytes of the stretch would be missing.
          rw [handledBytes, hnone, ← hbytes] at hall
          change 0 + _ = _ at hall
          have hread : 0 < (stretch.take lenBlockPacket).length := by
            rw [List.length_take]
            exact lt_min (by decide) hpos
          omega
        · rw [hhandlers] at hshort ⊢
          -- No full packet buffer was handed over, so this was the whole stretch.
          have hlt := hshort _ (List.mem_append_left _ (List.mem_singleton_self _))
          have hlong : stretch.length ≤ lenBlockPacket := by
            rw [List.length_take] at hlt
            exact ((min_lt_iff.mp hlt).resolve_left (lt_irrefl _)).le
          rw [if_neg (Nat.not_lt.mpr hlong)] at hinput
          subst hinput
          have hcons : (stretch :: rest).filter (· ≠ []) = stretch :: rest.filter (· ≠ []) :=
            List.filter_cons_of_pos (decide_eq_true hne)
          rw [List.take_of_length_le hlong, hcons]
          change _ = stretch :: (handlersOf later).map Prod.snd
          congr 1
          rw [handledBytes, hhandlers] at hall
          change (stretch.take lenBlockPacket).length + _ = _ at hall
          rcases hlater with rfl | ⟨r, hresult, rfl⟩
          · -- A fault leaves nothing unread.
            change _ + 0 = _ at hall
            have hnil : rest.flatten = [] := List.eq_nil_of_length_eq_zero (by omega)
            exact List.filter_eq_nil_iff.mpr fun t ht h =>
              absurd (List.flatten_eq_nil_iff.mp hnil t ht) (of_decide_eq_true h)
          · refine ih ((hindex'.of_result E hresult).trans hindex) _ ?_ (by omega)
            intro h hmem
            exact hshort h (List.mem_append_right _ hmem)

end Parse

/-! ## Quiet surroundings -/

/-- Nothing is stored, and every operation succeeds. -/
def quietReply : (o : Op) → o.Reply
  | .redisGet _ => none
  | .redisSet _ _ => true
  | .executeQuery _ _ => some []
  | .readDat _ => some []
  | .localtime => ⟨126, 0, 4, 1, 0, 0, 0⟩
  | .writeBuffer _ => false
  | .openFile _ => true
  | .assistNowOnlineData _ _ => none
  | .handler _ _ => ()
  | .redisDel _ => ()
  | .execute _ _ => ()
  | .writeDat _ _ => ()
  | .closeClient => ()
  | .createThread _ => ()
  | .sendto _ => ()
  | .writeAgps _ _ _ => ()
  | .system _ => ()

def quiet : Environment serverInterface Unit where
  answer := fun o _ => (quietReply o, ())

/-- Where nothing is stored, no handler runs into undefined behaviour. -/
theorem procAction_quiet (proc : Proc) (packet : PacketBuffer) (nbytes : Nat) :
    ∃ written, ((procAction proc packet nbytes).run quiet ()).result = some written := by
  -- Every wait is answered with nothing, so each message ends in its shortest branch.
  cases proc with
  | deviceHeartPacket =>
      simp only [procAction, deviceHeartPacket]
      split
      · exact ⟨[], rfl⟩
      · exact ⟨[], rfl⟩
  | phoneHeaderPacket =>
      simp only [procAction, phoneHeaderPacket]
      split
      · exact ⟨[], rfl⟩
      · exact ⟨[], rfl⟩
  | phoneCommandPacket =>
      simp only [procAction, phoneCommandPacket]
      split
      · exact ⟨[], rfl⟩
      · exact ⟨[], rfl⟩
  | deviceLocationPacket =>
      simp only [procAction, deviceLocationPacket]
      split
      · exact ⟨[], rfl⟩
      · exact ⟨[], rfl⟩
  | phoneAddDevice => exact ⟨[], rfl⟩
  | phoneOperatorUserInfo =>
      simp only [procAction, phoneOperatorUserInfo]
      split
      · exact ⟨[], rfl⟩
      split
      · exact ⟨[], rfl⟩
      split
      · exact ⟨[], rfl⟩
      · exact ⟨[], rfl⟩
  | deviceBaseStation => exact ⟨[], rfl⟩
  | deviceBlockDataSendPacket =>
      simp only [procAction, download]
      split
      · exact ⟨[], rfl⟩
      · exact ⟨[], rfl⟩

/-! ## Messages of fixed length -/

/-- The header bytes and lengths of heartbeats, polls, commands, locations and download requests. -/
def fixedLengths : List (Byte × Nat) :=
  [(hdrHeartPacketDevice, lenHeartPacketDevice), (hdrHeartPacketPhone, lenHeartPacketPhone),
    (hdrCommandPacket, lenCommandPacket), (hdrLocationData, lenGpsLocationData),
    (hdrLocationData, lenLabLocationData), (hdrBlockDataSend, lenDeviceDownload)]

def IsFixedMessage (message : List Byte) : Prop :=
  (message.headD 0, message.length) ∈ fixedLengths

instance (message : List Byte) : Decidable (IsFixedMessage message) :=
  inferInstanceAs (Decidable (_ ∈ fixedLengths))

theorem IsFixedMessage.bounds {message : List Byte} (h : IsFixedMessage message) :
    0 < message.length ∧ message.length < lenBlockPacket ∧
      ∃ proc, handlerOf (message.headD 0) = some proc ∧ message.headD 0 ≠ hdrBlockDataRecv := by
  have hall : ∀ e ∈ fixedLengths, 0 < e.2 ∧ e.2 < lenBlockPacket ∧
      (handlerOf e.1).isSome ∧ e.1 ≠ hdrBlockDataRecv := by decide
  rcases hall _ h with ⟨hpos, hlt, hsome, hne⟩
  rcases Option.isSome_iff_exists.mp hsome with ⟨proc, hproc⟩
  exact ⟨hpos, hlt, proc, hproc, hne⟩

/-- Messages that are read one by one are handed over one by one. -/
theorem parse_quiet (messages : List (List Byte)) :
    (∀ m ∈ messages, IsFixedMessage m) → ∀ {client : BlockBuffer}, client.index = 0 →
      (handlersOf ((parse client messages).run quiet ()).trace).map Prod.snd = messages := by
  induction messages with
  | nil =>
      intro _ client hindex
      rw [parse_nil (hindex ▸ Nat.zero_le _) rfl]
      rfl
  | cons m rest ih =>
      intro hfixed client hindex
      rcases (hfixed m (by simp)).bounds with ⟨hpos, hlt, proc, hproc, hblock⟩
      have hne := List.ne_nil_of_length_pos hpos
      have hpeek := peek_place_zero hne client.packet
      have hslice := Cells.slice_place_self client.packet 0 m (by rw [Nat.zero_add]; exact hlt.le)
      rw [← hpeek] at hproc hblock
      rcases procAction_quiet proc (client.packet.place 0 m) m.length with ⟨written, hwritten⟩
      rw [parse_stretch hindex hne, List.take_of_length_le hlt.le, if_neg (Nat.not_lt.mpr hlt.le)]
      -- The message goes to its handler and leaves the offset at the start.
      have hreceive : ((receive client 0 m).run quiet ()).result =
          some ({ client with
            packet := client.packet.place 0 m
            buffer := client.buffer.place 0 written }, 0) := by
        rw [receive, dispatch_served hblock, served_eq hproc, perform_bind, Program.call_bind,
          Program.run_call, Program.run_bind_of_result quiet hwritten]
        rfl
      have hhandlers := receive_handlers quiet () hblock
      rw [hproc, hslice] at hhandlers
      rw [Program.run_bind_of_result quiet hreceive, handlersOf_append, hhandlers, List.map_append]
      exact congrArg (List.cons m) (ih (fun m' h => hfixed m' (by simp [h])) hindex)

/-! ## Every way to cut the messages -/

/-- **A sequence of messages of fixed length is framed as it was sent exactly when every message is
read on its own.** -/
theorem connection_framing_iff {client : BlockBuffer} (hindex : client.index = 0)
    {messages : List (List Byte)} (hfixed : ∀ m ∈ messages, IsFixedMessage m)
    {calls : List Evbuffer} (hcut : calls.flatten.flatten = messages.flatten) :
    (∀ (σ : Type) (E : Environment serverInterface σ) (s : σ),
        handlersOf ((connection client [] calls).run E s).trace =
          handlersOf ((connection client [] [messages]).run E s).trace) ↔
      calls.flatten.filter (· ≠ []) = messages := by
  have hle : client.index ≤ lenBlockPacket := hindex ▸ Nat.zero_le _
  have hnil : parse client [] = .ret (client, []) := parse_nil hle rfl
  rw [connection_eq_parse calls hle hnil, connection_eq_parse [messages] hle hnil,
    List.flatten_singleton]
  change (∀ (σ : Type) (E : Environment serverInterface σ) (s : σ),
    handlersOf ((parse client calls.flatten).run E s).trace =
      handlersOf ((parse client messages).run E s).trace) ↔ _
  constructor
  · intro h
    -- The quiet server shows every message by the bytes its handler was given.
    have hquiet := parse_quiet messages hfixed hindex
    rw [← h Unit quiet ()] at hquiet
    have hfilter := filter_eq_of_handled quiet calls.flatten hindex ()
    rw [hquiet] at hfilter
    refine hfilter ?_ ?_
    · intro c hc
      have hmem : c.2 ∈ (handlersOf
          ((parse client calls.flatten).run quiet ()).trace).map Prod.snd :=
        List.mem_map.mpr ⟨c, hc, rfl⟩
      rw [hquiet] at hmem
      exact (hfixed _ hmem).bounds.2.1
    · rw [handledBytes, hcut, List.length_flatten]
      have hmap := congrArg (List.map List.length) hquiet
      rw [List.map_map] at hmap
      exact congrArg List.sum hmap
  · intro hfilter σ E s
    -- No message is empty, so the two inputs differ in empty chunks at most.
    have hmessages : messages.filter (· ≠ []) = messages := by
      refine List.filter_eq_self.mpr ?_
      intro m hm
      exact decide_eq_true (List.ne_nil_of_length_pos (hfixed m hm).bounds.1)
    have heffects := parse_effects_congr _ hle le_rfl (hfilter.trans hmessages.symm)
    rw [← Program.trace_effects E (parse client calls.flatten), heffects, Program.trace_effects]

/-- A poll and a command, with a read without bytes between them. -/
theorem connection_framing_iff_poll_command :
    let poll : List Byte := 0x50 :: List.replicate 7 0
    let command : List Byte := 0x43 :: List.replicate 15 0
    ∀ (σ : Type) (E : Environment serverInterface σ) (s : σ),
      handlersOf ((connection BlockBuffer.zero [] [[poll, []], [command]]).run E s).trace =
        handlersOf ((connection BlockBuffer.zero [] [[poll, command]]).run E s).trace :=
  (@connection_framing_iff BlockBuffer.zero rfl _ (by decide) _ (by decide)).mpr (by decide)

/-- A heartbeat in two reads of 16 bytes. -/
theorem connection_framing_cut :
    ∃ (message : List Byte) (calls calls' : List Evbuffer), IsFixedMessage message ∧
      calls.flatten.flatten = message ∧ calls'.flatten.flatten = message ∧
        handlersOf ((connection BlockBuffer.zero [] calls).run world World.empty).trace ≠
          handlersOf ((connection BlockBuffer.zero [] calls').run world World.empty).trace := by
  refine ⟨0x48 :: List.replicate 31 0, [[0x48 :: List.replicate 31 0]],
    [[0x48 :: List.replicate 15 0], [List.replicate 16 0]], by decide, by decide, by decide, ?_⟩
  decide +kernel

end RobotServer
