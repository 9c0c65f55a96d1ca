import RobotServer.Interaction.Performs
import RobotServer.Serving.Arrival
import RobotServer.Transfer.Reuse

/-!
# Messages — what a message in one read does, and what it leaves behind

A message that is no part of an upload runs the handler of its first byte.  `served` is that
handler as a program of the packet buffer alone: it returns the bytes that a download request
leaves in the block buffer, which is all that a message changes of its connection besides the
packet buffer (`dispatch_served`).  The handler is called once, with the bytes of the message
(`served_cases`).
-/

namespace RobotServer

open CText Memory Interaction

/-! ## The wrappers perform one operation -/

section Performs

variable {P : Op → Prop}

theorem setKeyToredis_performs {key value : Text} (h : P (.redisSet key value)) :
    (setKeyToredis key value).Performs P := by
  refine ⟨h, ?_⟩
  intro ok
  cases (ok : Bool) with
  | false => trivial
  | true => trivial

theorem getValueFromredis_performs {key : Text} (h : P (.redisGet key)) :
    (getValueFromredis key).Performs P := by
  refine ⟨h, ?_⟩
  intro reply
  cases (reply : Option Text) with
  | none => trivial
  | some str => trivial

theorem apolloReturnPacket_performs {buffer : List Byte} (h : P (.writeBuffer buffer))
    (hclose : P .closeClient) : (apolloReturnPacket buffer).Performs P :=
  ⟨h, fun _ => Program.performs_onlyIf ⟨hclose, fun _ => trivial⟩⟩

end Performs

/-! ## Operations of handlers -/

def Op.isHandler : Op → Bool
  | .handler _ _ => true
  | _ => false

/-- An operation of a handler: it calls no other one, and it saves no file. -/
def Op.IsInner (o : Op) : Prop :=
  o.isHandler = false ∧ o.isWriteDat = false

theorem forM_returnPacket_performs (buffers : List (List Byte)) :
    (buffers.forM apolloReturnPacket : Action Unit).Performs Op.IsInner := by
  induction buffers with
  | nil => trivial
  | cons buffer rest ih =>
      change (apolloReturnPacket buffer >>= fun _ => rest.forM apolloReturnPacket).Performs _
      exact (apolloReturnPacket_performs ⟨rfl, rfl⟩ ⟨rfl, rfl⟩).bind fun _ => ih

theorem selectLocationNewItem_performs (u8DeviceId : Text) (userId : Int) :
    (selectLocationNewItem u8DeviceId userId).Performs Op.IsInner := by
  rw [selectLocationNewItem, perform_bind]
  refine ⟨⟨rfl, rfl⟩, ?_⟩
  intro result
  dsimp only
  split
  · trivial
  · exact (setKeyToredis_performs ⟨rfl, rfl⟩).bind fun _ => trivial
  · trivial

theorem takeDeviceCommand_inner (u8DeviceId : Text) (info : HeartInfo) :
    (takeDeviceCommand u8DeviceId info).Performs Op.IsInner := by
  have hdel : (delRedisKey u8DeviceId).Performs Op.IsInner :=
    Program.performs_perform ⟨rfl, rfl⟩
  refine (getValueFromredis_performs ⟨rfl, rfl⟩).bind ?_
  intro value
  cases value with
  | none => trivial
  | some value =>
      dsimp only
      split
      · exact hdel.bind fun _ => trivial
      · exact (Program.performs_ofOption _).bind fun _ => hdel.bind fun _ => trivial

theorem deviceHeartPacket_inner (packet : PacketBuffer) (length : Nat) (info : HeartInfo) :
    (deviceHeartPacket packet length info).Performs Op.IsInner := by
  unfold deviceHeartPacket
  split
  · trivial
  · refine (getValueFromredis_performs ⟨rfl, rfl⟩).bind ?_
    intro user
    cases user with
    | none => trivial
    | some user =>
        refine (Program.performs_onlyIf (Program.performs_perform ⟨rfl, rfl⟩)).bind ?_
        intro _
        refine (setKeyToredis_performs ⟨rfl, rfl⟩).bind ?_
        intro result
        split
        · trivial
        · exact takeDeviceCommand_inner _ _

theorem heartReply_inner (result : Int) (info : HeartInfo) :
    (heartReply result info).Performs Op.IsInner := by
  have hsend : ∀ buffer, (apolloReturnPacket buffer).Performs Op.IsInner := fun buffer =>
    apolloReturnPacket_performs ⟨rfl, rfl⟩ ⟨rfl, rfl⟩
  unfold heartReply
  split
  · split
    · exact hsend _
    · exact hsend _
  · split
    · exact ⟨⟨rfl, rfl⟩, fun _ => hsend _⟩
    · trivial

theorem phoneHeaderPacket_inner (packet : PacketBuffer) (length : Nat) :
    (phoneHeaderPacket packet length).Performs Op.IsInner := by
  unfold phoneHeaderPacket
  split
  · trivial
  · exact (getValueFromredis_performs ⟨rfl, rfl⟩).bind fun _ => trivial

theorem phoneCommandPacket_inner (packet : PacketBuffer) (length : Nat) :
    (phoneCommandPacket packet length).Performs Op.IsInner := by
  have hset : ∀ key value, (setKeyToredis key value).Performs Op.IsInner := fun key value =>
    setKeyToredis_performs ⟨rfl, rfl⟩
  unfold phoneCommandPacket
  split
  · trivial
  · refine (getValueFromredis_performs ⟨rfl, rfl⟩).bind ?_
    intro u8DeviceId
    cases u8DeviceId with
    | none => trivial
    | some u8DeviceId =>
        dsimp only
        split
        · exact (hset _ _).bind fun _ => trivial
        split
        · trivial
        split
        · trivial
        split
        · refine (Program.performs_onlyIf (selectLocationNewItem_performs _ _)).bind ?_
          intro _
          exact (hset _ _).bind fun _ => trivial
        · trivial

theorem deviceLocationPacket_inner (packet : PacketBuffer) (length : Nat) :
    (deviceLocationPacket packet length).Performs Op.IsInner := by
  unfold deviceLocationPacket
  split
  · trivial
  · refine (getValueFromredis_performs ⟨rfl, rfl⟩).bind ?_
    intro user
    cases user with
    | none => trivial
    | some user =>
        dsimp only
        split
        · refine (Program.performs_onlyIf (Program.performs_perform ⟨rfl, rfl⟩)).bind ?_
          intro _
          refine ⟨⟨rfl, rfl⟩, fun _ => ?_⟩
          exact (setKeyToredis_performs ⟨rfl, rfl⟩).bind fun _ => trivial
        · exact ⟨⟨rfl, rfl⟩, fun _ => trivial⟩

/-- The operations of a request about an account, with the statement of each command. -/
theorem phoneOperatorUserInfo_performs {P : Op → Prop} (hsend : ∀ buffer, P (.writeBuffer buffer))
    (hclose : P .closeClient) (packet : PacketBuffer) {userName password : Text}
    (hname : cstr (packet.slice idxPhoneUsername lenPhoneUsername) = userName)
    (hpassword : cstr (packet.slice idxPhonePassword lenPhonePassword) = password)
    (hinsert : packet.peek idxPhoneCommand = cmdPhoneRegisterUser →
      P (.execute .insertUser [userName, password]))
    (hselect : packet.peek idxPhoneCommand = cmdPhoneRegisterUser ∨
      packet.peek idxPhoneCommand = cmdPhoneSigninUser →
      P (.executeQuery .selectUserid [userName, password]))
    (hupdate : packet.peek idxPhoneCommand = cmdPhoneUpdatePwd →
      P (.execute .selectUpdatePassword [userName, password])) :
    (phoneOperatorUserInfo packet).Performs P := by
  have hreply : ∀ buffer, (apolloReturnPacket buffer).Performs P := fun buffer =>
    apolloReturnPacket_performs (hsend buffer) hclose
  -- The lookup behind a registration and the one of a sign-in are the same statement.
  have hquery : ∀ code : Byte, P (.executeQuery .selectUserid [userName, password]) →
      (selectUserId userName password 0 >>= fun r => if r.1 = .ok then
        apolloReturnPacket (retOkPacket r.2) else apolloReturnPacket (retNoPacket code) :
          Action Unit).Performs P := by
    intro code hP
    refine Program.Performs.bind ⟨hP, ?_⟩ ?_
    · intro result
      cases (result : Option (List (List Text))) with
      | none => trivial
      | some rows => trivial
    · intro r
      split
      · exact hreply _
      · exact hreply _
  unfold phoneOperatorUserInfo
  rw [hname, hpassword]
  dsimp only
  split
  · next hcommand =>
      refine Program.Performs.bind ⟨hinsert hcommand, fun _ => trivial⟩ ?_
      intro inserted
      split
      · exact hquery _ (hselect (.inl hcommand))
      · exact hreply _
  split
  · next hcommand => exact hquery _ (hselect (.inr hcommand))
  split
  · next hcommand =>
      refine Program.Performs.bind ⟨hupdate hcommand, fun _ => trivial⟩ ?_
      intro updated
      split
      · exact hreply _
      · exact hreply _
  · trivial

theorem phoneOperatorUserInfo_inner (packet : PacketBuffer) :
    (phoneOperatorUserInfo packet).Performs Op.IsInner :=
  phoneOperatorUserInfo_performs (fun _ => ⟨rfl, rfl⟩) ⟨rfl, rfl⟩ packet rfl rfl
    (fun _ => ⟨rfl, rfl⟩) (fun _ => ⟨rfl, rfl⟩) fun _ => ⟨rfl, rfl⟩

/-! ## Downloads -/

/-- The file that a download request asks for. -/
def downloadPath (packet : PacketBuffer) : Text :=
  if packet.peek 13 = 0x60 then genBlockFilePathName (deviceIdText packet)
  else if packet.peek 13 = 0x61 then genAgpsFilePathName (deviceIdText packet)
  else genBlockFilePathName (deviceIdText packet)

/-- `deviceBlockDataSendPacket` without the connection: the packets of the file are sent, and
they are the bytes left in the block buffer. -/
def download (packet : PacketBuffer) (length : Nat) : Action (List Byte) := do
  if length ≠ lenDeviceDownload then pure []
  else
    let content ← readDat (downloadPath packet)
    let out := packetBytes content (deviceIdAt packet)
    if out.length ≤ lenBlockBuffer then
      (slices out).forM apolloReturnPacket
      pure out
    else .fault

theorem deviceBlockDataSendPacket_eq (client : BlockBuffer) (length : Nat) :
    (deviceBlockDataSendPacket client length >>= fun r => .ret r.2) =
      download client.packet length >>= fun written =>
        .ret { client with buffer := client.buffer.place 0 written } := by
  unfold deviceBlockDataSendPacket download
  by_cases hlength : length ≠ lenDeviceDownload
  · rw [if_pos hlength, if_pos hlength]
    simp only [Program.pure_eq_ret, Program.ret_bind, Cells.place_nil]
  · rw [if_neg hlength, if_neg hlength]
    simp only [bind_assoc]
    congr 1
    funext content
    unfold takeDataPacket
    dsimp only
    by_cases hfit : (packetBytes content (deviceIdAt client.packet)).length ≤ lenBlockBuffer
    · -- The packets are sent out of the buffer they were written to.
      have hslice := Cells.slice_place_self client.buffer 0
        (packetBytes content (deviceIdAt client.packet)) (by rw [Nat.zero_add]; exact hfit)
      rw [if_pos hfit, if_pos hfit]
      simp only [Program.ofOption_some, Program.ret_bind, bind_assoc, Program.pure_eq_ret, hslice]
    · rw [if_neg hfit, if_neg hfit]
      rfl

theorem download_inner (packet : PacketBuffer) (length : Nat) :
    (download packet length).Performs Op.IsInner := by
  unfold download
  split
  · trivial
  · refine Program.Performs.bind ⟨⟨rfl, rfl⟩, ?_⟩ ?_
    · intro content
      cases (content : Option (List Byte)) with
      | none => trivial
      | some content => trivial
    · intro content
      dsimp only
      split
      · exact (forM_returnPacket_performs _).bind fun _ => trivial
      · trivial

/-! ## Messages -/

/-- What follows the call of a handler, and the bytes it leaves in the block buffer. -/
def procAction : Proc → PacketBuffer → Nat → Action (List Byte)
  | .deviceHeartPacket, packet, nbytes => do
      let (result, setValueBuf) ← deviceHeartPacket packet nbytes (Cells.fill 0)
      heartReply result setValueBuf
      pure []
  | .phoneHeaderPacket, packet, nbytes => do
      let (length, info) ← phoneHeaderPacket packet nbytes
      Program.onlyIf (0 ≤ length) (apolloReturnPacket (ascii "RET:" ++ info))
      pure []
  | .phoneCommandPacket, packet, nbytes => do
      let _ ← phoneCommandPacket packet nbytes
      pure []
  | .deviceLocationPacket, packet, nbytes => do
      let _ ← deviceLocationPacket packet nbytes
      apolloReturnPacket (ascii "RETOK%")
      pure []
  | .phoneAddDevice, _, _ => pure []
  | .phoneOperatorUserInfo, packet, _ => do
      phoneOperatorUserInfo packet
      pure []
  | .deviceBaseStation, _, _ => pure []
  | .deviceBlockDataSendPacket, packet, nbytes => download packet nbytes

theorem procAction_inner (proc : Proc) (packet : PacketBuffer) (nbytes : Nat) :
    (procAction proc packet nbytes).Performs Op.IsInner := by
  have hsend : ∀ buffer, (apolloReturnPacket buffer).Performs Op.IsInner := fun buffer =>
    apolloReturnPacket_performs ⟨rfl, rfl⟩ ⟨rfl, rfl⟩
  cases proc with
  | deviceHeartPacket =>
      refine (deviceHeartPacket_inner packet nbytes _).bind fun r => ?_
      exact (heartReply_inner r.1 r.2).bind fun _ => trivial
  | phoneHeaderPacket =>
      refine (phoneHeaderPacket_inner packet nbytes).bind fun r => ?_
      exact (Program.performs_onlyIf (hsend _)).bind fun _ => trivial
  | phoneCommandPacket => exact (phoneCommandPacket_inner packet nbytes).bind fun _ => trivial
  | deviceLocationPacket =>
      refine (deviceLocationPacket_inner packet nbytes).bind fun _ => ?_
      exact (hsend _).bind fun _ => trivial
  | phoneAddDevice => trivial
  | phoneOperatorUserInfo => exact (phoneOperatorUserInfo_inner packet).bind fun _ => trivial
  | deviceBaseStation => trivial
  | deviceBlockDataSendPacket => exact download_inner packet nbytes

/-- A message that is no part of an upload: its handler is called, once, with its own bytes. -/
def served (packet : PacketBuffer) (nbytes : Nat) : Action (List Byte) :=
  match handlerOf (packet.peek 0) with
  | none => pure []
  | some proc =>
      perform (.handler proc (packet.slice 0 nbytes)) >>= fun _ => procAction proc packet nbytes

theorem served_eq {packet : PacketBuffer} {proc : Proc}
    (h : handlerOf (packet.peek 0) = some proc) (nbytes : Nat) :
    served packet nbytes = perform (.handler proc (packet.slice 0 nbytes)) >>= fun _ =>
      procAction proc packet nbytes := by
  rw [served, h]

/-- A message changes the block buffer by what it leaves there, and nothing else. -/
theorem dispatch_served {client : BlockBuffer} (h : client.packet.peek 0 ≠ hdrBlockDataRecv)
    (blockIndex nbytes : Nat) :
    dispatch client blockIndex nbytes =
      served client.packet nbytes >>= fun written =>
        .ret ({ client with buffer := client.buffer.place 0 written }, blockIndex) := by
  cases hhandler : handlerOf (client.packet.peek 0) with
  | none =>
      rw [dispatch_ignored hhandler h, served, hhandler]
      simp only [Program.pure_eq_ret, Program.ret_bind, Cells.place_nil]
  | some proc =>
      rw [served_eq hhandler, bind_assoc]
      -- The branch is the one of the handler, and keeps the connection.
      unfold handlerOf at hhandler
      split at hhandler
      · next heq =>
          cases hhandler
          simp only [dispatch, heq, procAction, bind_assoc, Program.pure_eq_ret, Program.ret_bind,
            Cells.place_nil]
          rfl
      split at hhandler
      · next heq =>
          cases hhandler
          simp only [dispatch, heq, procAction, bind_assoc, Program.pure_eq_ret, Program.ret_bind,
            Cells.place_nil]
          rfl
      split at hhandler
      · next heq =>
          cases hhandler
          simp only [dispatch, heq, procAction, bind_assoc, Program.pure_eq_ret, Program.ret_bind,
            Cells.place_nil]
          rfl
      split at hhandler
      · next heq =>
          cases hhandler
          simp only [dispatch, heq, procAction, bind_assoc, Program.pure_eq_ret, Program.ret_bind,
            Cells.place_nil]
          rfl
      split at hhandler
      · next heq =>
          cases hhandler
          simp only [dispatch, heq, procAction, Program.pure_eq_ret, Program.ret_bind,
            Cells.place_nil]
          rfl
      split at hhandler
      · next heq =>
          cases hhandler
          simp only [dispatch, heq, procAction, bind_assoc, Program.pure_eq_ret, Program.ret_bind,
            Cells.place_nil]
          rfl
      split at hhandler
      · next heq =>
          cases hhandler
          simp only [dispatch, heq, procAction, Program.pure_eq_ret, Program.ret_bind,
            Cells.place_nil]
          rfl
      split at hhandler
      · next heq =>
          cases hhandler
          have hdownload := congrArg (fun p => p >>= fun client => Program.ret (client, blockIndex))
            (deviceBlockDataSendPacket_eq client nbytes)
          simp only [bind_assoc, Program.ret_bind] at hdownload
          rw [procAction, ← hdownload]
          simp only [dispatch, heq]
          rfl
      · cases hhandler

/-- A message that arrives on a connection between messages. -/
theorem receive_served {client : BlockBuffer} {message : List Byte} (hne : message ≠ [])
    (h : message.headD 0 ≠ hdrBlockDataRecv) :
    receive client 0 message =
      served (client.packet.place 0 message) message.length >>= fun written =>
        .ret (⟨client.buffer.place 0 written, client.packet.place 0 message, client.index⟩, 0) := by
  rw [receive, dispatch_served (by rw [peek_place_zero hne]; exact h)]

theorem connection_single {client : BlockBuffer} (hindex : client.index = 0) {message : List Byte}
    (hne : message ≠ []) (hlen : message.length ≤ lenBlockPacket)
    (h : message.headD 0 ≠ hdrBlockDataRecv) :
    connection client [] [[message]] =
      served (client.packet.place 0 message) message.length >>= fun written =>
        .ret (⟨client.buffer.place 0 written, client.packet.place 0 message, client.index⟩, []) := by
  have hle : client.index ≤ lenBlockPacket := hindex ▸ Nat.zero_le _
  have hparse : connection client [] [[message]] = parse client [message] :=
    connection_eq_parse _ hle (parse_nil hle rfl)
  rw [hparse, parse_stretch hindex hne, List.take_of_length_le hlen,
    if_neg (Nat.not_lt.mpr hlen), receive_served hne h, bind_assoc]
  refine Program.bind_congr_of_returns (Program.returns_true _) ?_
  intro written _
  exact @parse_nil ⟨client.buffer.place 0 written, client.packet.place 0 message, client.index⟩
    hle [] rfl

/-- The operations performed for a message are those of its handler. -/
theorem Arrival.serve_trace {a : Arrival} (hindex : a.client.index = 0) (hne : a.message ≠ [])
    (hlen : a.message.length ≤ lenBlockPacket) (h : a.message.headD 0 ≠ hdrBlockDataRecv)
    {σ : Type} (E : Environment serverInterface σ) (s : σ) :
    (a.serve.run E s).trace = ((served a.packet a.message.length).run E s).trace := by
  have hpeek : a.packet.peek 0 ≠ hdrBlockDataRecv := by
    rw [Arrival.packet, peek_place_zero hne]
    exact h
  rw [Arrival.serve_eq hindex hne hlen, Program.trace_effects, dispatch_served hpeek,
    Program.trace_bind_ret]

end RobotServer
