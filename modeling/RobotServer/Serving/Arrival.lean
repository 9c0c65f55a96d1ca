import RobotServer.Interaction.Ensures
import RobotServer.Transfer.ReadLoop

/-!
# Arrival — one message, served on its own

`Arrival.serve` is what the read callback does with a message that arrives in one read on a
connection between messages: the message is dispatched, and nothing else happens
(`Arrival.serve_eq`).  `repliesOf` are the buffers a run queues for the client.
-/

namespace RobotServer

open CText Memory Interaction

/-! ## Replies -/

/-- The buffers that were queued for the client. -/
def repliesOf (trace : List Op) : List (List Byte) :=
  trace.filterMap fun o =>
    match o with
    | .writeBuffer buffer => some buffer
    | _ => none

@[simp] theorem repliesOf_nil : repliesOf [] = [] := rfl

@[simp] theorem repliesOf_append (trace trace' : List Op) :
    repliesOf (trace ++ trace') = repliesOf trace ++ repliesOf trace' :=
  List.filterMap_append

/-- A reply is queued once, whatever becomes of the socket, and what the socket does not touch
stays. -/
theorem apolloReturnPacket_ensures {σ β : Type} {E : Environment serverInterface σ} (view : σ → β)
    {buffer : List Byte} (hwrite : ∀ s, view (E.answer (.writeBuffer buffer) s).2 = view s)
    (hclose : ∀ s, view (E.answer .closeClient s).2 = view s) (s : σ) :
    Program.Ensures E (apolloReturnPacket buffer) s fun trace _ s' =>
      repliesOf trace = [buffer] ∧ view s' = view s := by
  have hsame := hwrite s
  apply Program.Ensures.call
  generalize E.answer (.writeBuffer buffer) s = reply at hsame
  rcases reply with ⟨failed, s'⟩
  cases (failed : Bool) with
  | false => exact .ret ⟨rfl, hsame⟩
  | true => exact .call (.ret ⟨rfl, (hclose s').trans hsame⟩)

/-! ## Arrivals -/

/-- A message that arrives in one read on a connection. -/
structure Arrival where
  client : BlockBuffer
  message : List Byte

namespace Arrival

/-- The packet buffer after the read: the message stands at its head. -/
def packet (a : Arrival) : PacketBuffer :=
  a.client.packet.place 0 a.message

/-- A field of the message as the handlers read it. -/
theorem slice_packet {a : Arrival} (hlen : a.message.length ≤ lenBlockPacket) {off len : Nat}
    (h : off + len ≤ a.message.length) :
    a.packet.slice off len = (a.message.drop off).take len := by
  have hwhole := Cells.slice_place_self a.client.packet 0 a.message
    (by rw [Nat.zero_add]; exact hlen)
  have hpart := Cells.slice_drop_take a.packet 0 h
  rw [Nat.zero_add] at hpart
  rw [← hpart, packet, hwhole]

/-- The read callback of the connection. -/
def serve (a : Arrival) : Action Unit :=
  (apolloParsePacket a.client [a.message]).effects

/-- Between messages the connection reads to the head of its packet buffer. -/
theorem serve_eq {a : Arrival} (hindex : a.client.index = 0) (hne : a.message ≠ [])
    (hlen : a.message.length ≤ lenBlockPacket) :
    a.serve = (dispatch { a.client with packet := a.packet } 0 a.message.length).effects := by
  have hle : a.client.index ≤ lenBlockPacket := hindex ▸ Nat.zero_le _
  have hremove : evbufferRemove (lenBlockPacket - a.client.index) [a.message] =
      (a.message, []) := by
    rw [hindex, Nat.sub_zero, evbufferRemove_cons hne, List.take_of_length_le hlen,
      if_neg (Nat.not_lt.mpr hlen)]
  have hroom : a.client.index + a.message.length ≤ lenBlockPacket := by
    rw [hindex, Nat.zero_add]
    exact hlen
  rw [serve, apolloParsePacket_eq_parse hle, parse_eq hle, hremove]
  dsimp only
  rw [if_neg hne, Program.effects_bind]
  -- Nothing is left to read behind the message.
  have hrest : ∀ r : BlockBuffer × Nat, OffsetsAgree r →
      (parse r.1 []).effects = Program.ret () := by
    rintro r ⟨hagree, hbound⟩
    rw [parse_nil (hagree ▸ hbound) rfl]
    rfl
  rw [Program.bind_congr_of_returns (receive_returns hroom) hrest, receive, hindex]
  rfl

end Arrival

/-! ## Runs and histories -/

section Run

variable {σ : Type} (E : Environment serverInterface σ)

/-- The state after messages that are served one after another. -/
def serveAll (s : σ) (arrivals : List Arrival) : σ :=
  arrivals.foldl (fun s a => (a.serve.run E s).final) s

theorem serveAll_concat (s : σ) (arrivals : List Arrival) (a : Arrival) :
    serveAll E s (arrivals ++ [a]) = (a.serve.run E (serveAll E s arrivals)).final := by
  rw [serveAll, List.foldl_append]
  rfl

end Run

/-- The last element of a history stands behind every other one. -/
theorem append_singleton_cases {α : Type} {history before after : List α} {last e : α}
    (h : history ++ [last] = before ++ e :: after) :
    (after = [] ∧ e = last) ∨ ∃ after', after = after' ++ [last] ∧
      history = before ++ e :: after' := by
  rcases List.eq_nil_or_concat' after with rfl | ⟨after', x, rfl⟩
  · have hlast := (List.append_inj' h rfl).2
    injection hlast with hlast
    exact .inl ⟨rfl, hlast.symm⟩
  · right
    have hsplit : history ++ [last] = (before ++ e :: after') ++ [x] := by
      rw [h, List.append_assoc]
      rfl
    rcases List.append_inj' hsplit rfl with ⟨hhistory, hx⟩
    injection hx with hx
    exact ⟨after', by rw [hx], hhistory⟩

end RobotServer
