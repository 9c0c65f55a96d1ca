import RobotServer.Serving.Messages
import RobotServer.Transfer.Packetising

/-!
# Completion — which messages are worked off

Three handlers can fault: `deviceHeartPacket` reads the pieces of a stored command,
`phoneCommandPacket` the rows of a location, and `deviceBlockDataSendPacket` a file that has to fit
the block buffer with its headers.  `Proc.Completes` is what they must find; every other handler
returns whatever it finds (`procAction_isSome_iff`).
-/

namespace RobotServer

open CText Memory Interaction

/-! ## Reads and writes of redis -/

/-- The text that a stored value is read as. -/
def readText (stored : Text) : Text :=
  (cstr stored).take (redisCommandLength - 2)

theorem readText_of_le {stored : Text} (h : (cstr stored).length ≤ 254) :
    readText stored = cstr stored :=
  List.take_of_length_le h

theorem readText_length (stored : Text) :
    (readText stored).length = min 254 (cstr stored).length :=
  List.length_take

theorem readText_length_lt (stored : Text) : (readText stored).length < 256 := by
  rw [readText_length]
  omega

section Redis

variable {σ : Type} {E : Environment serverInterface σ} {s : σ}

theorem run_getValueFromredis (key : Text) :
    (getValueFromredis key).run E s =
      ⟨[.redisGet key], some ((E.answer (.redisGet key) s).1.map readText),
        (E.answer (.redisGet key) s).2⟩ := by
  rw [getValueFromredis, perform_bind, Program.run_call]
  cases (E.answer (.redisGet key) s).1 with
  | none => rfl
  | some stored => rfl

theorem run_setKeyToredis (key value : Text) :
    (setKeyToredis key value).run E s =
      ⟨[.redisSet key value], some (if (E.answer (.redisSet key value) s).1 = true then 0 else -1),
        (E.answer (.redisSet key value) s).2⟩ := by
  rw [setKeyToredis, perform_bind, Program.run_call]
  generalize E.answer (.redisSet key value) s = reply
  rcases reply with ⟨ok, s'⟩
  cases (ok : Bool) with
  | false => rfl
  | true => rfl

end Redis

theorem getValueFromredis_total (key : Text) : (getValueFromredis key).Total := by
  rintro (_ | value)
  · trivial
  · trivial

theorem setKeyToredis_total (key value : Text) : (setKeyToredis key value).Total := by
  rintro (_ | _)
  · trivial
  · trivial

/-! ## Handlers that always return -/

theorem apolloReturnPacket_total (buffer : List Byte) : (apolloReturnPacket buffer).Total :=
  fun _ => Program.total_onlyIf (Program.total_perform _)

theorem forM_returnPacket_total (buffers : List (List Byte)) :
    (buffers.forM apolloReturnPacket : Action Unit).Total := by
  induction buffers with
  | nil => trivial
  | cons buffer rest ih =>
      change (apolloReturnPacket buffer >>= fun _ => rest.forM apolloReturnPacket).Total
      exact (apolloReturnPacket_total buffer).bind fun _ => ih

theorem heartReply_total (result : Int) (info : HeartInfo) : (heartReply result info).Total := by
  unfold heartReply
  split
  · split
    · exact apolloReturnPacket_total _
    · exact apolloReturnPacket_total _
  · split
    · exact fun _ => apolloReturnPacket_total _
    · trivial

theorem phoneHeaderPacket_total (packet : PacketBuffer) (length : Nat) :
    (phoneHeaderPacket packet length).Total := by
  unfold phoneHeaderPacket
  split
  · trivial
  · exact (getValueFromredis_total _).bind fun _ => trivial

theorem deviceLocationPacket_total (packet : PacketBuffer) (length : Nat) :
    (deviceLocationPacket packet length).Total := by
  unfold deviceLocationPacket
  split
  · trivial
  · refine (getValueFromredis_total _).bind fun value => ?_
    cases value with
    | none => trivial
    | some user =>
        dsimp only
        split
        · refine (Program.total_onlyIf (Program.total_perform _)).bind fun _ => ?_
          refine Program.Total.bind (fun _ => trivial) fun _ => ?_
          exact (setKeyToredis_total _ _).bind fun _ => trivial
        · exact fun _ => trivial

theorem selectUserId_total (userName password : Text) (userId : UInt32) :
    (selectUserId userName password userId).Total := by
  rintro (_ | rows)
  · trivial
  · trivial

theorem phoneOperatorUserInfo_total (packet : PacketBuffer) :
    (phoneOperatorUserInfo packet).Total := by
  have hreply : ∀ (result : ConnectionpoolResult) (accepted refused : List Byte),
      (if result = .ok then apolloReturnPacket accepted else apolloReturnPacket refused).Total := by
    intro result accepted refused
    split
    · exact apolloReturnPacket_total _
    · exact apolloReturnPacket_total _
  unfold phoneOperatorUserInfo
  dsimp only
  split
  · refine Program.Total.bind (fun _ => trivial) fun inserted => ?_
    split
    · exact (selectUserId_total _ _ _).bind fun found => hreply found.1 _ _
    · exact apolloReturnPacket_total _
  · split
    · exact (selectUserId_total _ _ _).bind fun found => hreply found.1 _ _
    · split
      · exact Program.Total.bind (fun _ => trivial) fun updated => hreply updated _ _
      · trivial

/-! ## Heartbeats -/

section Handlers

variable {σ : Type} (E : Environment serverInterface σ)

/-- The command kept for a device, if it is one of four or more characters, has the pieces that it
is read for. -/
def CommandDecodes (u8DeviceId : Text) (info : HeartInfo) (s : σ) : Prop :=
  ∀ command, (E.answer (.redisGet u8DeviceId) s).1 = some command →
    4 ≤ (readText command).length → (storedCommand (readText command) info).isSome

theorem takeDeviceCommand_isSome_iff (u8DeviceId : Text) (info : HeartInfo) (s : σ) :
    ((takeDeviceCommand u8DeviceId info).run E s).result.isSome ↔
      CommandDecodes E u8DeviceId info s := by
  rw [takeDeviceCommand, Program.isSome_result_bind, run_getValueFromredis]
  simp only [Option.some.injEq, exists_eq_left']
  unfold CommandDecodes
  cases (E.answer (.redisGet u8DeviceId) s).1 with
  | none => exact iff_of_true rfl (by rintro command ⟨⟩)
  | some command =>
      simp only [Option.map_some, Option.some.injEq, forall_eq']
      split
      · next hshort => exact iff_of_true rfl fun hlong => absurd hshort (not_lt.mpr hlong)
      · next hlong =>
          rw [Program.isSome_result_ofOption_bind, Option.isSome_iff_exists]
          constructor
          · rintro ⟨decoded, hdecoded, -⟩ _
            exact ⟨decoded, hdecoded⟩
          · intro h
            rcases h (not_lt.mp hlong) with ⟨decoded, hdecoded⟩
            exact ⟨decoded, hdecoded, rfl⟩

/-- The state in which a heartbeat tells its user, behind the thread that it starts for a fall. -/
def fallReported (packet : PacketBuffer) (s : σ) : σ :=
  if packet.peek 10 &&& 0x0F != 0 then
    (E.answer (.createThread (.httpDeviceFalldown (packet.slice 0 lenHeartPacketDevice))) s).2
  else s

theorem run_reportFall (packet : PacketBuffer) (s : σ) :
    ∃ trace, (Program.onlyIf (packet.peek 10 &&& 0x0F != 0) (perform
      (.createThread (.httpDeviceFalldown (packet.slice 0 lenHeartPacketDevice))))).run E s =
        ⟨trace, some (), fallReported E packet s⟩ := by
  unfold fallReported
  cases packet.peek 10 &&& 0x0F != 0 with
  | false => exact ⟨[], rfl⟩
  | true => exact ⟨[_], rfl⟩

/-- Where the user of the device has been told, the command kept for it can be decoded. -/
def HeartbeatDecodes (packet : PacketBuffer) (info : HeartInfo) (s : σ) : Prop :=
  let user := E.answer (.redisGet (ascii "R_" ++ deviceIdText packet)) s
  ∀ stored, user.1 = some stored →
    let told := E.answer (.redisSet (readText stored) (deviceInfoText packet))
      (fallReported E packet user.2)
    told.1 = true → CommandDecodes E (deviceIdText packet) info told.2

theorem deviceHeartPacket_isSome_iff (packet : PacketBuffer) (info : HeartInfo) (s : σ) :
    ((deviceHeartPacket packet lenHeartPacketDevice info).run E s).result.isSome ↔
      HeartbeatDecodes E packet info s := by
  rw [deviceHeartPacket, if_neg (not_not.mpr rfl), Program.isSome_result_bind,
    run_getValueFromredis]
  simp only [Option.some.injEq, exists_eq_left']
  unfold HeartbeatDecodes
  dsimp only
  generalize E.answer (.redisGet (ascii "R_" ++ deviceIdText packet)) s = user
  rcases user with ⟨user, s₁⟩
  cases (user : Option Text) with
  | none => exact iff_of_true rfl (by rintro stored ⟨⟩)
  | some stored =>
      simp only [Option.map_some, Option.some.injEq, forall_eq']
      rcases run_reportFall E packet s₁ with ⟨trace, hfall⟩
      rw [Program.isSome_result_bind, hfall]
      simp only [exists_const, true_and]
      rw [Program.isSome_result_bind, run_setKeyToredis]
      simp only [Option.some.injEq, exists_eq_left']
      split
      · next htold =>
          rw [if_neg (by decide), takeDeviceCommand_isSome_iff]
          exact ⟨fun h _ => h, fun h => h htold⟩
      · next hfailed => exact iff_of_true rfl fun htold => absurd htold hfailed

/-! ## Commands of a phone -/

/-- The query for the rows of a device has a result, and its first row, if there is one, has the
three columns of a location. -/
def LocationAnswered (u8DeviceId : Text) (s : σ) : Prop :=
  ∃ rows, (E.answer (.executeQuery .selectLocationNewinfo [u8DeviceId]) s).1 = some rows ∧
    ∀ row, rows.head? = some row → 3 ≤ row.length

theorem selectLocationNewItem_isSome_iff (u8DeviceId : Text) (userId : Int) (s : σ) :
    ((selectLocationNewItem u8DeviceId userId).run E s).result.isSome ↔
      LocationAnswered E u8DeviceId s := by
  rw [selectLocationNewItem, perform_bind, Program.run_call]
  unfold LocationAnswered
  generalize E.answer (.executeQuery .selectLocationNewinfo [u8DeviceId]) s = reply
  rcases reply with ⟨result, s'⟩
  -- A row without the three columns leaves a null pointer to be read.
  have hshort : ∀ (row : List Text) (rows : List (List Text)), row.length < 3 →
      ¬ ∃ rows', some (row :: rows) = some rows' ∧
        ∀ row, rows'.head? = some row → 3 ≤ row.length := by
    rintro row rows hlt ⟨_, ⟨⟩, h⟩
    exact absurd (h row rfl) (not_le.mpr hlt)
  rcases (result : Option (List (List Text))) with
    _ | _ | ⟨_ | ⟨lng, _ | ⟨lat, _ | ⟨high, more⟩⟩⟩, rows⟩
  · exact iff_of_false Bool.false_ne_true (by rintro ⟨_, ⟨⟩, -⟩)
  · exact iff_of_true rfl ⟨[], rfl, by rintro row ⟨⟩⟩
  · exact iff_of_false Bool.false_ne_true (hshort _ _ (Nat.zero_lt_succ 2))
  · exact iff_of_false Bool.false_ne_true (hshort _ _ (Nat.one_lt_succ_succ 1))
  · exact iff_of_false Bool.false_ne_true (hshort _ _ (Nat.lt_succ_self 2))
  · refine iff_of_true (Program.Total.isSome_result E ?_ s') ⟨_, rfl, ?_⟩
    · exact (setKeyToredis_total _ _).bind fun _ => trivial
    · rintro row ⟨⟩
      exact Nat.le_add_left 3 _

/-- For the realtime location, the rows of the user's device can be read. -/
def LocationCompletes (packet : PacketBuffer) (s : σ) : Prop :=
  let device := E.answer (.redisGet (ascii "RP_" ++ intText (atoi (phoneIdText packet)))) s
  ∀ stored, device.1 = some stored →
    packet.peek idxPhoneCommand = cmdPhoneDeviceRealtimeLocation →
      LocationAnswered E (readText stored) device.2

/-- A location command is of the class without data. -/
theorem checkPhoneCommand_location {command : Byte}
    (h : command = cmdPhoneDeviceRealtimeLocation) : checkPhoneCommand command = 0 := by
  rw [h]
  decide

theorem phoneCommandPacket_isSome_iff (packet : PacketBuffer) (s : σ) :
    ((phoneCommandPacket packet lenCommandPacket).run E s).result.isSome ↔
      LocationCompletes E packet s := by
  have hkeep : ∀ key value, (setKeyToredis key value >>= fun result =>
      (pure (if result = -1 then -2 else 0) : Action Int)).Total := fun key value =>
    (setKeyToredis_total key value).bind fun _ => trivial
  rw [phoneCommandPacket, if_neg (not_not.mpr rfl), Program.isSome_result_bind,
    run_getValueFromredis]
  simp only [Option.some.injEq, exists_eq_left']
  unfold LocationCompletes
  dsimp only
  generalize E.answer (.redisGet (ascii "RP_" ++ intText (atoi (phoneIdText packet)))) s = device
  rcases device with ⟨device, s₁⟩
  cases (device : Option Text) with
  | none => exact iff_of_true rfl (by rintro stored ⟨⟩)
  | some stored =>
      simp only [Option.map_some, Option.some.injEq, forall_eq']
      have hclass := @checkPhoneCommand_location (packet.peek idxPhoneCommand)
      -- Only the branch of the location command can fault.
      split
      · next hfour =>
          refine iff_of_true ((hkeep _ _).isSome_result E s₁) fun h => ?_
          exact absurd ((hclass h).symm.trans hfour) (by decide)
      · split
        · next hseven =>
            exact iff_of_true rfl fun h => absurd ((hclass h).symm.trans hseven) (by decide)
        · split
          · next hthree =>
              exact iff_of_true rfl fun h => absurd ((hclass h).symm.trans hthree) (by decide)
          · split
            · rw [Program.isSome_result_bind_of_total E _ fun _ => hkeep _ _]
              by_cases hlocation : packet.peek idxPhoneCommand = cmdPhoneDeviceRealtimeLocation
              · rw [beq_iff_eq.mpr hlocation, Program.onlyIf_true, selectLocationNewItem_isSome_iff]
                exact ⟨fun h _ => h, fun h => h hlocation⟩
              · rw [beq_eq_false_iff_ne.mpr hlocation]
                exact iff_of_true rfl fun h => absurd h hlocation
            · next hnone =>
                exact iff_of_true rfl fun h => absurd ((hclass h).symm ▸ le_rfl) hnone

/-! ## Downloads -/

/-- The file that a download request asks for exists, and its packets fit the block buffer. -/
def FileFits (packet : PacketBuffer) (s : σ) : Prop :=
  ∃ content, (E.answer (.readDat (downloadPath packet)) s).1 = some content ∧
    content.length ≤ 31744

theorem download_isSome_iff (packet : PacketBuffer) (s : σ) :
    ((download packet lenDeviceDownload).run E s).result.isSome ↔ FileFits E packet s := by
  rw [download, if_neg (not_not.mpr rfl), readDat, perform_bind, Program.call_bind,
    Program.run_call]
  unfold FileFits
  generalize E.answer (.readDat (downloadPath packet)) s = reply
  rcases reply with ⟨content, s'⟩
  cases (content : Option (List Byte)) with
  | none => exact iff_of_false Bool.false_ne_true (by rintro ⟨_, ⟨⟩, -⟩)
  | some content =>
      have hsend : ∀ out : List Byte, ((slices out).forM apolloReturnPacket >>= fun _ =>
          (pure out : Action (List Byte))).Total := fun out =>
        (forM_returnPacket_total _).bind fun _ => trivial
      have hfit : (packetBytes (content.take lenBlockBuffer) (deviceIdAt packet)).length ≤
          lenBlockBuffer ↔ content.length ≤ 31744 := by
        rw [packetBytes_length_le_iff, List.length_take]
        change min 32768 _ ≤ _ ↔ _
        omega
      simp only [Option.some.injEq, exists_eq_left', ← hfit]
      dsimp only [Program.pure_eq_ret, Program.ret_bind]
      split
      · next hroom => exact iff_of_true ((hsend _).isSome_result E s') hroom
      · next hlong => exact iff_of_false Bool.false_ne_true hlong

/-! ## All handlers -/

/-- What the handler of a message must find for its run to return. -/
def Proc.Completes : Proc → PacketBuffer → Nat → σ → Prop
  | .deviceHeartPacket, packet, nbytes, s =>
      nbytes = lenHeartPacketDevice → HeartbeatDecodes E packet (Cells.fill 0) s
  | .phoneCommandPacket, packet, nbytes, s =>
      nbytes = lenCommandPacket → LocationCompletes E packet s
  | .deviceBlockDataSendPacket, packet, nbytes, s =>
      nbytes = lenDeviceDownload → FileFits E packet s
  | _, _, _, _ => True

theorem procAction_isSome_iff (proc : Proc) (packet : PacketBuffer) (nbytes : Nat) (s : σ) :
    ((procAction proc packet nbytes).run E s).result.isSome ↔
      proc.Completes E packet nbytes s := by
  cases proc with
  | deviceHeartPacket =>
      change _ ↔ (nbytes = lenHeartPacketDevice → _)
      rw [procAction]
      refine (Program.isSome_result_bind_of_total E _ (fun r => ?_) s).trans ?_
      · exact (heartReply_total r.1 r.2).bind fun _ => trivial
      · by_cases hlength : nbytes = lenHeartPacketDevice
        · rw [hlength, deviceHeartPacket_isSome_iff]
          exact ⟨fun h _ => h, fun h => h rfl⟩
        · rw [deviceHeartPacket, if_pos hlength]
          exact iff_of_true rfl fun h => absurd h hlength
  | phoneHeaderPacket =>
      refine iff_of_true (Program.Total.isSome_result E ?_ s) trivial
      refine (phoneHeaderPacket_total packet nbytes).bind fun _ => ?_
      exact (Program.total_onlyIf (apolloReturnPacket_total _)).bind fun _ => trivial
  | phoneCommandPacket =>
      change _ ↔ (nbytes = lenCommandPacket → _)
      rw [procAction]
      refine (Program.isSome_result_bind_of_total E _ (fun result => ?_) s).trans ?_
      · trivial
      · by_cases hlength : nbytes = lenCommandPacket
        · rw [hlength, phoneCommandPacket_isSome_iff]
          exact ⟨fun h _ => h, fun h => h rfl⟩
        · rw [phoneCommandPacket, if_pos hlength]
          exact iff_of_true rfl fun h => absurd h hlength
  | deviceLocationPacket =>
      refine iff_of_true (Program.Total.isSome_result E ?_ s) trivial
      refine (deviceLocationPacket_total packet nbytes).bind fun _ => ?_
      exact (apolloReturnPacket_total _).bind fun _ => trivial
  | phoneAddDevice => exact iff_of_true rfl trivial
  | phoneOperatorUserInfo =>
      refine iff_of_true (Program.Total.isSome_result E ?_ s) trivial
      exact (phoneOperatorUserInfo_total packet).bind fun _ => trivial
  | deviceBaseStation => exact iff_of_true rfl trivial
  | deviceBlockDataSendPacket =>
      change _ ↔ (nbytes = lenDeviceDownload → _)
      rw [procAction]
      by_cases hlength : nbytes = lenDeviceDownload
      · rw [hlength, download_isSome_iff]
        exact ⟨fun h _ => h, fun h => h rfl⟩
      · rw [download, if_pos hlength]
        exact iff_of_true rfl fun h => absurd h hlength

/-- A message finds what its handler needs, in the state behind its call. -/
def MessageCompletes (packet : PacketBuffer) (nbytes : Nat) (s : σ) : Prop :=
  ∀ proc, handlerOf (packet.peek 0) = some proc →
    proc.Completes E packet nbytes (E.answer (.handler proc (packet.slice 0 nbytes)) s).2

theorem served_isSome_iff (packet : PacketBuffer) (nbytes : Nat) (s : σ) :
    ((served packet nbytes).run E s).result.isSome ↔ MessageCompletes E packet nbytes s := by
  unfold MessageCompletes
  cases hhandler : handlerOf (packet.peek 0) with
  | none =>
      rw [served, hhandler]
      exact iff_of_true rfl (by rintro proc ⟨⟩)
  | some proc =>
      rw [served_eq hhandler, perform_bind, Program.run_call, procAction_isSome_iff]
      simp only [Option.some.injEq, forall_eq']

end Handlers

end RobotServer
