import RobotServer.Serving.Framing

/-!
# Rounds — the reads of a run, one by one

`parse` is a loop over reads, each of which may end the run with a fault.  `IsRound` says that a
read is made in a run, together with the connection and the world it finds.

- `parse_isSome_iff`: a run returns exactly when every round does;
- `IsRound.awaiting`: what every read keeps of a connection holds in every round.
-/

namespace RobotServer

open CText Memory Interaction

/-- A read of the loop: the connection before it, the bytes that are removed from the input, and
the world at that time. -/
structure Round (σ : Type) where
  client : BlockBuffer
  removed : List Byte
  world : σ

namespace Round

variable {σ : Type}

/-- The packet buffer that `dispatch` finds. -/
def filled (round : Round σ) : PacketBuffer :=
  round.client.packet.place round.client.index round.removed

/-- The bytes of the packet received so far. -/
def received (round : Round σ) : Nat :=
  round.client.index + round.removed.length

/-- The round itself, run in its world. -/
def outcome (E : Environment serverInterface σ) (round : Round σ) :
    Outcome serverInterface σ (BlockBuffer × Nat) :=
  (receive round.client round.client.index round.removed).run E round.world

end Round

section IsRound

variable {σ : Type}

/-- The read that `parse client input` starts with. -/
def firstRound (client : BlockBuffer) (input : Evbuffer) (s : σ) : Round σ where
  client := client
  removed := (evbufferRemove (lenBlockPacket - client.index) input).1
  world := s

/-- The input behind that read. -/
def laterInput (client : BlockBuffer) (input : Evbuffer) : Evbuffer :=
  (evbufferRemove (lenBlockPacket - client.index) input).2

variable (E : Environment serverInterface σ)

/-- The rounds of the run of `parse client input` from `s`. -/
inductive IsRound : BlockBuffer → Evbuffer → σ → Round σ → Prop where
  | here {client : BlockBuffer} {input : Evbuffer} {s : σ}
      (hne : (firstRound client input s).removed ≠ []) :
      IsRound client input s (firstRound client input s)
  | later {client : BlockBuffer} {input : Evbuffer} {s : σ} {r : BlockBuffer × Nat}
      {round : Round σ} (hne : (firstRound client input s).removed ≠ [])
      (hresult : ((firstRound client input s).outcome E).result = some r)
      (hround : IsRound r.1 (laterInput client input) ((firstRound client input s).outcome E).final
        round) :
      IsRound client input s round

variable {E}

theorem awaiting_zero : Awaiting BlockBuffer.zero :=
  ⟨Nat.zero_le _, fun h => absurd rfl h⟩

/-- The bytes of a read fit behind those that are there. -/
theorem firstRound_received_le {client : BlockBuffer} (h : client.index ≤ lenBlockPacket)
    (input : Evbuffer) (s : σ) : (firstRound client input s).received ≤ lenBlockPacket := by
  have hle := evbufferRemove_length_le (lenBlockPacket - client.index) input
  change client.index + (evbufferRemove (lenBlockPacket - client.index) input).1.length ≤ _
  omega

/-- The connection behind a round. -/
theorem Round.next_awaiting {round : Round σ} (hclient : Awaiting round.client)
    (hroom : round.received ≤ lenBlockPacket) {r : BlockBuffer × Nat}
    (hresult : (round.outcome E).result = some r) : Awaiting r.1 :=
  ((receive_awaiting hclient hroom).of_result E hresult).2

/-- Every round finds a connection that awaits the rest of a block, or is at the head of its
packet buffer, and reads no byte behind the packet buffer. -/
theorem IsRound.awaiting {client : BlockBuffer} {input : Evbuffer} {s : σ} {round : Round σ}
    (h : IsRound E client input s round) (hclient : Awaiting client) :
    Awaiting round.client ∧ round.received ≤ lenBlockPacket := by
  induction h with
  | here hne => exact ⟨hclient, firstRound_received_le hclient.index_le _ _⟩
  | @later client input s r round hne hresult hround ih =>
      exact ih (Round.next_awaiting hclient (firstRound_received_le hclient.index_le input s) hresult)

/-- A run without input has no rounds. -/
theorem not_isRound_of_removed_eq_nil {client : BlockBuffer} {input : Evbuffer} {s : σ}
    (hnil : (firstRound client input s).removed = []) (round : Round σ) :
    ¬ IsRound E client input s round := by
  intro h
  cases h with
  | here hne => exact hne hnil
  | later hne hresult hround => exact hne hnil

/-- The rounds of a run are its first round and, if that returns, the rounds behind it. -/
theorem forall_isRound_iff {client : BlockBuffer} {input : Evbuffer} {s : σ}
    (hne : (firstRound client input s).removed ≠ []) {P : Round σ → Prop} :
    (∀ round, IsRound E client input s round → P round) ↔
      P (firstRound client input s) ∧
        ∀ r, ((firstRound client input s).outcome E).result = some r →
          ∀ round, IsRound E r.1 (laterInput client input)
            ((firstRound client input s).outcome E).final round → P round := by
  constructor
  · intro h
    exact ⟨h _ (.here hne), fun r hresult round hround => h _ (.later hne hresult hround)⟩
  · rintro ⟨hfirst, hlater⟩ round hround
    cases hround with
    | here hne => exact hfirst
    | later hne hresult hround => exact hlater _ hresult _ hround

theorem laterInput_length_lt {client : BlockBuffer} {input : Evbuffer} {s : σ}
    (hne : (firstRound client input s).removed ≠ []) :
    (laterInput client input).flatten.length < input.flatten.length := by
  have hpos := List.length_pos_of_ne_nil hne
  have hlen := evbufferRemove_length (lenBlockPacket - client.index) input
  change 0 < (evbufferRemove _ _).1.length at hpos
  change (evbufferRemove _ _).2.flatten.length < _
  omega

/-- A run starts with its first round. -/
theorem parse_eq_firstRound {client : BlockBuffer} (h : client.index ≤ lenBlockPacket)
    (input : Evbuffer) (s : σ) :
    parse client input =
      if (firstRound client input s).removed = [] then .ret (client, laterInput client input)
      else receive client client.index (firstRound client input s).removed >>= fun r =>
        parse r.1 (laterInput client input) :=
  parse_eq h input

/-- The result of a run, by the result of its first round. -/
theorem parse_result {client : BlockBuffer} (h : client.index ≤ lenBlockPacket) {input : Evbuffer}
    {s : σ} (hne : (firstRound client input s).removed ≠ []) :
    ((parse client input).run E s).result =
      match ((firstRound client input s).outcome E).result with
      | some r => ((parse r.1 (laterInput client input)).run E
          ((firstRound client input s).outcome E).final).result
      | none => none := by
  have houtcome : (firstRound client input s).outcome E =
      (receive client client.index (firstRound client input s).removed).run E s := rfl
  rw [parse_eq_firstRound h input s, if_neg hne, Program.run_bind, houtcome]
  cases ((receive client client.index (firstRound client input s).removed).run E s).result with
  | none => rfl
  | some r => rfl

/-- A run returns exactly when every round of it does. -/
theorem parse_isSome_iff (n : Nat) :
    ∀ {client : BlockBuffer} {input : Evbuffer}, Awaiting client → input.flatten.length ≤ n →
      ∀ s : σ, ((parse client input).run E s).result.isSome ↔
        ∀ round, IsRound E client input s round → (round.outcome E).result.isSome := by
  induction n with
  | zero =>
      intro client input h hn s
      have hnil : input.flatten = [] := List.eq_nil_of_length_eq_zero (Nat.le_zero.mp hn)
      have hremoved : (firstRound client input s).removed = [] :=
        congrArg Prod.fst (evbufferRemove_empty (lenBlockPacket - client.index) hnil)
      rw [parse_nil h.index_le hnil]
      exact iff_of_true rfl fun round hround =>
        absurd hround (not_isRound_of_removed_eq_nil hremoved round)
  | succ n ih =>
      intro client input h hn s
      by_cases hremoved : (firstRound client input s).removed = []
      · rw [parse_eq_firstRound h.index_le input s, if_pos hremoved]
        exact iff_of_true rfl fun round hround =>
          absurd hround (not_isRound_of_removed_eq_nil hremoved round)
      · have hshort := laterInput_length_lt hremoved
        rw [parse_result h.index_le hremoved, forall_isRound_iff hremoved]
        cases hresult : ((firstRound client input s).outcome E).result with
        | none => simp
        | some r =>
            -- A round that returns leaves the buffer ready for the next one.
            have hnext := Round.next_awaiting h (firstRound_received_le h.index_le input s) hresult
            have hrest := ih hnext (by omega : (laterInput client input).flatten.length ≤ n)
              ((firstRound client input s).outcome E).final
            simp only [hrest, Option.isSome_some, true_and, Option.some.injEq, forall_eq']

end IsRound

end RobotServer
