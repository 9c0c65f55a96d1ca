import RobotServer.Serving.Framing

/-!
# Leftovers — what a message can see of the messages before it

The packet buffer is never cleared between messages, so behind a short message stand the bytes of
earlier ones.  The handlers that check the length of the read see the message only
(`procAction_congr`); `phoneOperatorUserInfo` does not check it, and reads its fields wherever they
end.  `SelfContained` says when they end inside the message.
-/

namespace RobotServer

open CText Memory Interaction

/-! ## Handlers that check the length -/

section Congr

variable {packet packet' : PacketBuffer} {nbytes : Nat}

theorem slice_congr_of_le (h : ∀ i, i < nbytes → packet.peek i = packet'.peek i) {off len : Nat}
    (hle : off + len ≤ nbytes) : packet.slice off len = packet'.slice off len :=
  Cells.slice_congr fun i _ hi => h i (hi.trans_le hle)

theorem intAt_congr (h : ∀ i, i < nbytes → packet.peek i = packet'.peek i) {off : Nat}
    (hle : off + 4 ≤ nbytes) : intAt packet off = intAt packet' off :=
  congrArg (fun l => (leValue l : Int).bmod (2 ^ 32)) (slice_congr_of_le h hle)

theorem longAt_congr (h : ∀ i, i < nbytes → packet.peek i = packet'.peek i) {off : Nat}
    (hle : off + 8 ≤ nbytes) : longAt packet off = longAt packet' off :=
  congrArg (fun l => (leValue l : Int).bmod (2 ^ 64)) (slice_congr_of_le h hle)

theorem deviceHeartPacket_congr (h : ∀ i, i < nbytes → packet.peek i = packet'.peek i)
    (info : HeartInfo) :
    deviceHeartPacket packet nbytes info = deviceHeartPacket packet' nbytes info := by
  unfold deviceHeartPacket
  by_cases hlength : nbytes ≠ lenHeartPacketDevice
  · rw [if_pos hlength, if_pos hlength]
  · rw [if_neg hlength, if_neg hlength]
    have hlen : nbytes = 32 := not_ne_iff.mp hlength
    have hid : deviceIdText packet = deviceIdText packet' :=
      congrArg hextostring (slice_congr_of_le h (by rw [hlen]; decide))
    have hpower : packet.slice idxDevicePower lenDeviceInfo =
        packet'.slice idxDevicePower lenDeviceInfo := slice_congr_of_le h (by rw [hlen]; decide)
    have htime : intAt packet idxDeviceHeartpacketTimestamp =
        intAt packet' idxDeviceHeartpacketTimestamp :=
      intAt_congr h (by rw [hlen]; decide)
    have hinfo : deviceInfoText packet = deviceInfoText packet' := by
      rw [deviceInfoText, deviceInfoText, hpower, htime]
    rw [hid, hinfo, h 10 (by rw [hlen]; decide),
      slice_congr_of_le h (by rw [Nat.zero_add] : 0 + nbytes ≤ nbytes)]

theorem phoneIdText_congr (h : ∀ i, i < nbytes → packet.peek i = packet'.peek i)
    (hle : 5 ≤ nbytes) : phoneIdText packet = phoneIdText packet' :=
  congrArg hextostring (slice_congr_of_le h hle)

theorem phoneHeaderPacket_congr (h : ∀ i, i < nbytes → packet.peek i = packet'.peek i) :
    phoneHeaderPacket packet nbytes = phoneHeaderPacket packet' nbytes := by
  unfold phoneHeaderPacket
  by_cases hlength : nbytes ≠ lenHeartPacketPhone
  · rw [if_pos hlength, if_pos hlength]
  · have hlen : nbytes = 8 := not_ne_iff.mp hlength
    rw [if_neg hlength, if_neg hlength, phoneIdText_congr h (by rw [hlen]; decide)]

theorem phoneCommandPacket_congr (h : ∀ i, i < nbytes → packet.peek i = packet'.peek i) :
    phoneCommandPacket packet nbytes = phoneCommandPacket packet' nbytes := by
  unfold phoneCommandPacket
  by_cases hlength : nbytes ≠ lenCommandPacket
  · rw [if_pos hlength, if_pos hlength]
  · have hlen : nbytes = 16 := not_ne_iff.mp hlength
    have hcommand : packet.peek idxPhoneCommand = packet'.peek idxPhoneCommand :=
      h 5 (by rw [hlen]; decide)
    have hvalue : contractValue packet = contractValue packet' := by
      unfold contractValue
      rw [hcommand, h idxPhoneCmdIndex (by rw [hlen]; decide),
        slice_congr_of_le h (by rw [hlen]; decide)]
    rw [if_neg hlength, if_neg hlength, phoneIdText_congr h (by rw [hlen]; decide), hcommand,
      hvalue]

theorem deviceLocationPacket_congr (h : ∀ i, i < nbytes → packet.peek i = packet'.peek i) :
    deviceLocationPacket packet nbytes = deviceLocationPacket packet' nbytes := by
  unfold deviceLocationPacket
  by_cases hlength : nbytes ≠ lenGpsLocationData ∧ nbytes ≠ lenLabLocationData
  · rw [if_pos hlength, if_pos hlength]
  · have hlen : 32 ≤ nbytes := by
      change ¬ (nbytes ≠ 32 ∧ nbytes ≠ 48) at hlength
      omega
    have hsame : ∀ {off len : Nat}, off + len ≤ 32 →
        packet.slice off len = packet'.slice off len := fun hle =>
      slice_congr_of_le h (hle.trans hlen)
    have hid : deviceIdText packet = deviceIdText packet' :=
      congrArg hextostring (hsame (by decide))
    have hhigh : intAt packet idxDeviceGpsHigh = intAt packet' idxDeviceGpsHigh :=
      intAt_congr h (Nat.le_trans (by decide) hlen)
    have htime : longAt packet idxDeviceGpsTimestamp = longAt packet' idxDeviceGpsTimestamp :=
      longAt_congr h (Nat.le_trans (by decide) hlen)
    have htype : packet.peek idxDeviceLocationtype = packet'.peek idxDeviceLocationtype :=
      h 9 (by omega)
    have hlong : packet.slice idxDeviceGpsLongitude lenLongitudeData =
        packet'.slice idxDeviceGpsLongitude lenLongitudeData := hsame (by decide)
    have hlat : packet.slice idxDeviceGpsLatitude lenLatitudeData =
        packet'.slice idxDeviceGpsLatitude lenLatitudeData := hsame (by decide)
    rw [if_neg hlength, if_neg hlength]
    dsimp only
    rw [hid, hhigh, htime, htype, hlong, hlat,
      slice_congr_of_le h (by rw [Nat.zero_add] : 0 + nbytes ≤ nbytes)]

theorem download_congr (h : ∀ i, i < nbytes → packet.peek i = packet'.peek i) :
    download packet nbytes = download packet' nbytes := by
  unfold download
  by_cases hlength : nbytes ≠ lenDeviceDownload
  · rw [if_pos hlength, if_pos hlength]
  · have hlen : nbytes = 16 := not_ne_iff.mp hlength
    have hid : deviceIdText packet = deviceIdText packet' :=
      congrArg hextostring (slice_congr_of_le h (by rw [hlen]; decide))
    have hpath : downloadPath packet = downloadPath packet' := by
      rw [downloadPath, downloadPath, hid, h 13 (by rw [hlen]; decide)]
    have hdevice : deviceIdAt packet = deviceIdAt packet' := by
      refine congrArg Vector.ofFn (funext fun i => h _ ?_)
      have hi := i.isLt
      change i.val < 8 at hi
      change 1 + i.val < nbytes
      omega
    rw [if_neg hlength, if_neg hlength, hpath, hdevice]

/-- A handler that checks the length of the read sees the message only. -/
theorem procAction_congr (h : ∀ i, i < nbytes → packet.peek i = packet'.peek i) {proc : Proc}
    (hproc : proc ≠ .phoneOperatorUserInfo) :
    procAction proc packet nbytes = procAction proc packet' nbytes := by
  cases proc with
  | deviceHeartPacket => simp only [procAction, deviceHeartPacket_congr h]
  | phoneHeaderPacket => simp only [procAction, phoneHeaderPacket_congr h]
  | phoneCommandPacket => simp only [procAction, phoneCommandPacket_congr h]
  | deviceLocationPacket => simp only [procAction, deviceLocationPacket_congr h]
  | phoneAddDevice => rfl
  | phoneOperatorUserInfo => exact absurd rfl hproc
  | deviceBaseStation => rfl
  | deviceBlockDataSendPacket => exact download_congr h

end Congr

/-! ## Requests about an account -/

/-- The request that stands in a message about an account is complete: its command byte is there,
and where it is one of the three commands the password ends inside the message. -/
def SelfContained (message : List Byte) : Prop :=
  message.headD 0 = hdrOperatorUserInfo →
    6 ≤ message.length ∧
      (checkPhoneCommand (message.getD 5 0) = 7 →
        31 ≤ message.length ∨ (0 : Byte) ∈ message.drop idxPhonePassword)

theorem checkPhoneCommand_eq_seven_iff (command : Byte) : checkPhoneCommand command = 7 ↔
    command = cmdPhoneRegisterUser ∨ command = cmdPhoneSigninUser ∨
      command = cmdPhoneUpdatePwd := by
  revert command
  exact forall_byte (by decide +kernel)

theorem handlerOf_eq_operator (header : Byte) :
    handlerOf header = some .phoneOperatorUserInfo ↔ header = hdrOperatorUserInfo := by
  revert header
  exact forall_byte (by decide +kernel)

/-- Another command of an account request does nothing. -/
theorem phoneOperatorUserInfo_ignored {packet : PacketBuffer}
    (h : checkPhoneCommand (packet.peek idxPhoneCommand) ≠ 7) :
    phoneOperatorUserInfo packet = .ret () := by
  have hcommand := mt (checkPhoneCommand_eq_seven_iff _).mpr h
  rcases not_or.mp hcommand with ⟨h1, h23⟩
  rcases not_or.mp h23 with ⟨h2, h3⟩
  unfold phoneOperatorUserInfo
  dsimp only
  rw [if_neg h1, if_neg h2, if_neg h3]
  rfl

theorem phoneOperatorUserInfo_congr {packet packet' : PacketBuffer}
    (hcommand : packet.peek idxPhoneCommand = packet'.peek idxPhoneCommand)
    (hname : packet.slice idxPhoneUsername lenPhoneUsername =
      packet'.slice idxPhoneUsername lenPhoneUsername)
    (hpassword : cstr (packet.slice idxPhonePassword lenPhonePassword) =
      cstr (packet'.slice idxPhonePassword lenPhonePassword)) :
    phoneOperatorUserInfo packet = phoneOperatorUserInfo packet' := by
  unfold phoneOperatorUserInfo
  rw [hcommand, hname, hpassword]

section Message

variable (packet packet' : PacketBuffer) {message : List Byte}

theorem peek_place_message (hlen : message.length ≤ lenBlockPacket) {i : Nat}
    (hi : i < message.length) : (packet.place 0 message).peek i = message.getD i 0 := by
  have hpeek := Cells.peek_place_add packet 0 message (by rw [Nat.zero_add]; exact hi.trans_le hlen)
    hi
  rw [Nat.zero_add] at hpeek
  exact hpeek

theorem peek_place_message_congr (hlen : message.length ≤ lenBlockPacket) (i : Nat)
    (hi : i < message.length) : (packet.place 0 message).peek i = (packet'.place 0 message).peek i :=
  (peek_place_message packet hlen hi).trans (peek_place_message packet' hlen hi).symm

/-- The password as the handler reads it ends in what stood behind the message. -/
theorem password_slice (hlen : message.length < 31) :
    (packet.place 0 message).slice idxPhonePassword lenPhonePassword =
      message.drop idxPhonePassword ++
        packet.slice (max idxPhonePassword message.length)
          (31 - max idxPhonePassword message.length) :=
  Cells.slice_place_over packet hlen.le (by decide)

/-- A password that ends inside the message is the same whatever stands behind it. -/
theorem cstr_password_congr (hlen : message.length ≤ lenBlockPacket)
    (h : 31 ≤ message.length ∨ (0 : Byte) ∈ message.drop idxPhonePassword) :
    cstr ((packet.place 0 message).slice idxPhonePassword lenPhonePassword) =
      cstr ((packet'.place 0 message).slice idxPhonePassword lenPhonePassword) := by
  rcases Nat.lt_or_ge message.length 31 with hshort | hlong
  · have hzero := h.resolve_left (Nat.not_le.mpr hshort)
    rw [password_slice packet hshort, password_slice packet' hshort, cstr_append_of_mem hzero,
      cstr_append_of_mem hzero]
  · exact congrArg cstr (slice_congr_of_le (peek_place_message_congr packet packet' hlen) hlong)

theorem operator_congr (hlen : message.length ≤ lenBlockPacket) (hcommand : 6 ≤ message.length)
    (hpassword : checkPhoneCommand (message.getD 5 0) = 7 →
      31 ≤ message.length ∨ (0 : Byte) ∈ message.drop idxPhonePassword) :
    phoneOperatorUserInfo (packet.place 0 message) =
      phoneOperatorUserInfo (packet'.place 0 message) := by
  have hsame := peek_place_message_congr packet packet' hlen
  have hpeek := peek_place_message packet hlen hcommand
  have hpeek' := peek_place_message packet' hlen hcommand
  by_cases hseven : checkPhoneCommand (message.getD 5 0) = 7
  · have hend := hpassword hseven
    have hname : 22 ≤ message.length := by
      rcases hend with hlong | hzero
      · omega
      · have hpos := List.length_pos_of_mem hzero
        rw [List.length_drop] at hpos
        change 0 < message.length - 23 at hpos
        omega
    exact phoneOperatorUserInfo_congr (hsame 5 hcommand) (slice_congr_of_le hsame hname)
      (cstr_password_congr packet packet' hlen hend)
  · rw [phoneOperatorUserInfo_ignored (by rw [hpeek]; exact hseven),
      phoneOperatorUserInfo_ignored (by rw [hpeek']; exact hseven)]

/-- A message that is self-contained is served the same way whatever stands behind it. -/
theorem served_congr (hne : message ≠ []) (hlen : message.length ≤ lenBlockPacket)
    (hself : SelfContained message) :
    served (packet.place 0 message) message.length =
      served (packet'.place 0 message) message.length := by
  have hsame := peek_place_message_congr packet packet' hlen
  have hhead : (packet.place 0 message).peek 0 = (packet'.place 0 message).peek 0 :=
    hsame 0 (List.length_pos_of_ne_nil hne)
  have hmessage : (packet.place 0 message).slice 0 message.length =
      (packet'.place 0 message).slice 0 message.length :=
    slice_congr_of_le hsame (by rw [Nat.zero_add])
  unfold served
  rw [hhead, hmessage]
  cases hhandler : handlerOf ((packet'.place 0 message).peek 0) with
  | none => rfl
  | some proc =>
      dsimp only
      congr 1
      funext _
      by_cases hproc : proc = .phoneOperatorUserInfo
      · subst hproc
        rw [← hhead, handlerOf_eq_operator, peek_place_zero hne] at hhandler
        rcases hself hhandler with ⟨hcommand, hpassword⟩
        rw [procAction, procAction, operator_congr packet packet' hlen hcommand hpassword]
      · exact procAction_congr hsame hproc

end Message

/-! ## Effects -/

/-- The operations a client, redis or the database sees. -/
def Op.isEffect : Op → Bool
  | .redisGet _ => true
  | .redisSet _ _ => true
  | .redisDel _ => true
  | .execute _ _ => true
  | .executeQuery _ _ => true
  | .writeBuffer _ => true
  | _ => false

def effectsOf (trace : List Op) : List Op :=
  trace.filter Op.isEffect

/-- The statement that an account request starts with. -/
def accountOp (command : Byte) (userName password : Text) : Op :=
  if command = cmdPhoneRegisterUser then .execute .insertUser [userName, password]
  else if command = cmdPhoneSigninUser then .executeQuery .selectUserid [userName, password]
  else .execute .selectUpdatePassword [userName, password]

theorem accountOp_injective (command : Byte) {userName userName' password password' : Text}
    (h : accountOp command userName password = accountOp command userName' password') :
    password = password' := by
  unfold accountOp at h
  split at h
  · injection h with _ hargs
    injection hargs with _ hrest
    injection hrest
  split at h
  · injection h with _ hargs
    injection hargs with _ hrest
    injection hrest
  · injection h with _ hargs
    injection hargs with _ hrest
    injection hrest

/-- What an account request does where nothing is stored. -/
theorem served_account_effects {packet : PacketBuffer}
    (hhead : packet.peek 0 = hdrOperatorUserInfo)
    (h : checkPhoneCommand (packet.peek idxPhoneCommand) = 7) (nbytes : Nat) :
    ∃ later, effectsOf ((served packet nbytes).run quiet ()).trace =
      accountOp (packet.peek idxPhoneCommand)
        (cstr (packet.slice idxPhoneUsername lenPhoneUsername))
        (cstr (packet.slice idxPhonePassword lenPhonePassword)) :: later := by
  rw [served_eq ((handlerOf_eq_operator _).mpr hhead)]
  rcases (checkPhoneCommand_eq_seven_iff _).mp h with hcommand | hcommand | hcommand
  · simp only [procAction, phoneOperatorUserInfo, hcommand]
    exact ⟨_, rfl⟩
  · simp only [procAction, phoneOperatorUserInfo, hcommand]
    exact ⟨_, rfl⟩
  · simp only [procAction, phoneOperatorUserInfo, hcommand]
    exact ⟨_, rfl⟩

theorem served_ignored_effects {packet : PacketBuffer}
    (hhead : packet.peek 0 = hdrOperatorUserInfo)
    (h : checkPhoneCommand (packet.peek idxPhoneCommand) ≠ 7) (nbytes : Nat) :
    effectsOf ((served packet nbytes).run quiet ()).trace = [] := by
  rw [served_eq ((handlerOf_eq_operator _).mpr hhead), procAction, phoneOperatorUserInfo_ignored h]
  rfl

/-! ## Histories -/

/-- A connection that some history leaves between two messages. -/
structure LeftBetween (client : BlockBuffer) : Prop where
  index_eq : client.index = 0
  history : ∃ calls, (connection BlockBuffer.zero [] calls).CanReturn (client, [])

/-- A message that no handler looks into. -/
def filler (b : Byte) : List Byte :=
  hdrAddDevice :: List.replicate 1023 b

theorem filler_length (b : Byte) : (filler b).length = lenBlockPacket := by
  rw [filler, List.length_cons, List.length_replicate]

/-- The packet buffer after a message that fills it with one byte. -/
def filledWith (b : Byte) : PacketBuffer :=
  BlockBuffer.zero.packet.place 0 (filler b)

theorem leftBetween_filledWith (b : Byte) :
    LeftBetween ⟨BlockBuffer.zero.buffer, filledWith b, 0⟩ where
  index_eq := rfl
  history := by
    have hne : filler b ≠ [] := List.cons_ne_nil _ _
    have hblock : (filler b).headD 0 ≠ hdrBlockDataRecv := by
      change hdrAddDevice ≠ hdrBlockDataRecv
      decide
    have hhandler : handlerOf ((filledWith b).peek 0) = some .phoneAddDevice := by
      rw [filledWith, peek_place_zero hne]
      rfl
    refine ⟨[[filler b]], ?_⟩
    rw [connection_single rfl hne (filler_length b).le hblock]
    change (served (filledWith b) _ >>= _).CanReturn _
    rw [served_eq hhandler]
    refine .call _ _ () _ ?_
    change (Program.ret ((⟨BlockBuffer.zero.buffer.place 0 [], filledWith b, 0⟩, []) :
      BlockBuffer × Evbuffer)).CanReturn _
    rw [Cells.place_nil]
    exact .ret _

theorem filledWith_peek (b : Byte) {i : Nat} (hpos : 1 ≤ i) (h : i < lenBlockPacket) :
    (filledWith b).peek i = b := by
  have hpeek := peek_place_message BlockBuffer.zero.packet (filler_length b).le
    (by rw [filler_length]; exact h)
  rw [filledWith, hpeek]
  obtain ⟨j, rfl⟩ : ∃ j, i = j + 1 := ⟨i - 1, by omega⟩
  change j + 1 < 1024 at h
  change (List.replicate 1023 b).getD j 0 = b
  rw [List.getD_eq_getElem?_getD, List.getElem?_replicate_of_lt (by omega)]
  rfl

theorem filledWith_slice (b : Byte) {off len : Nat} (hpos : 1 ≤ off)
    (h : off + len ≤ lenBlockPacket) : (filledWith b).slice off len = List.replicate len b := by
  refine List.eq_replicate_iff.mpr ⟨Cells.slice_length _ _ _, ?_⟩
  intro c hc
  rcases List.mem_map.mp hc with ⟨i, hi, rfl⟩
  exact filledWith_peek b (by omega) ((Nat.add_lt_add_left (List.mem_range.mp hi) _).trans_le h)

/-! ## Two histories -/

/-- **A message has the same effects behind every history exactly when it is self-contained.** -/
theorem serve_selfContained_iff {message : List Byte} (hne : message ≠ [])
    (hlen : message.length ≤ lenBlockPacket) (hblock : message.headD 0 ≠ hdrBlockDataRecv) :
    (∀ client client', LeftBetween client → LeftBetween client' →
        ∀ (σ : Type) (E : Environment serverInterface σ) (s : σ),
          effectsOf (((Arrival.mk client message).serve).run E s).trace =
            effectsOf (((Arrival.mk client' message).serve).run E s).trace) ↔
      SelfContained message := by
  constructor
  · intro h
    -- Two histories that fill the packet buffer with one byte each tell what is read of it.
    have hfilled : ∀ b b',
        effectsOf ((served ((filledWith b).place 0 message) message.length).run quiet ()).trace =
          effectsOf ((served ((filledWith b').place 0 message) message.length).run quiet ()).trace := by
      intro b b'
      have hsame := h _ _ (leftBetween_filledWith b) (leftBetween_filledWith b') Unit quiet ()
      rw [Arrival.serve_trace rfl hne hlen hblock, Arrival.serve_trace rfl hne hlen hblock] at hsame
      exact hsame
    intro hhead
    have hpeek : ∀ b, ((filledWith b).place 0 message).peek 0 = hdrOperatorUserInfo := by
      intro b
      rw [peek_place_zero hne, hhead]
    have hcomplete : 6 ≤ message.length := by
      -- A message without its command byte takes the one behind it.
      by_contra hshort
      have hcommand : ∀ b, ((filledWith b).place 0 message).peek idxPhoneCommand = b := by
        intro b
        rw [Cells.peek_place_of_le (by decide) (by change 0 + message.length ≤ 5; omega),
          filledWith_peek b (by decide) (by decide)]
      have hsignin := hfilled cmdPhoneSigninUser 0
      rw [served_ignored_effects (hpeek 0) (by rw [hcommand]; decide)] at hsignin
      rcases served_account_effects (hpeek cmdPhoneSigninUser) (by rw [hcommand]; decide)
        message.length with ⟨later, heffects⟩
      rw [heffects] at hsignin
      cases hsignin
    refine ⟨hcomplete, ?_⟩
    intro hseven
    by_contra hopen
    rcases not_or.mp hopen with ⟨hshort, hzero⟩
    have hroom : max idxPhonePassword message.length +
        (31 - max idxPhonePassword message.length) ≤ lenBlockPacket := by
      change max 23 message.length + (31 - max 23 message.length) ≤ 1024
      omega
    -- The password goes on with the bytes behind the message.
    have hpassword : ∀ b, b ≠ 0 →
        cstr (((filledWith b).place 0 message).slice idxPhonePassword lenPhonePassword) =
          message.drop idxPhonePassword ++
            List.replicate (31 - max idxPhonePassword message.length) b := by
      intro b hb
      rw [password_slice (filledWith b) (Nat.lt_of_not_le hshort),
        filledWith_slice b (Nat.le_trans (by decide) (Nat.le_max_left _ _)) hroom, cstr_eq_self]
      rw [List.mem_append, not_or]
      exact ⟨hzero, fun hmem => hb (List.eq_of_mem_replicate hmem).symm⟩
    have hcommand : ∀ b, ((filledWith b).place 0 message).peek idxPhoneCommand =
        message.getD 5 0 := fun b => peek_place_message _ hlen hcomplete
    rcases served_account_effects (hpeek 1) (by rw [hcommand]; exact hseven) message.length with
      ⟨later, heffects⟩
    rcases served_account_effects (hpeek 2) (by rw [hcommand]; exact hseven) message.length with
      ⟨later', heffects'⟩
    have hsame := hfilled 1 2
    rw [heffects, heffects', hcommand, hcommand, hpassword 1 (by decide),
      hpassword 2 (by decide)] at hsame
    injection hsame with hop
    have htail := List.append_cancel_left (accountOp_injective _ hop)
    have hmem : (1 : Byte) ∈
        List.replicate (31 - max idxPhonePassword message.length) (1 : Byte) := by
      refine List.mem_replicate.mpr ⟨?_, rfl⟩
      change 31 - max 23 message.length ≠ 0
      omega
    rw [htail] at hmem
    exact absurd (List.eq_of_mem_replicate hmem) (by decide)
  · intro hself client client' hclient hclient' σ E s
    have hserved := served_congr client.packet client'.packet hne hlen hself
    rw [Arrival.serve_trace hclient.index_eq hne hlen hblock,
      Arrival.serve_trace hclient'.index_eq hne hlen hblock]
    change effectsOf ((served (client.packet.place 0 message) _).run E s).trace = _
    rw [hserved]
    rfl

/-- A sign-in of 31 bytes. -/
theorem serve_selfContained_iff_signin :
    let signin : List Byte := [0x55, 0, 0, 0, 1, 0x72] ++ List.replicate 25 0x61
    ∀ client client', LeftBetween client → LeftBetween client' →
      ∀ (σ : Type) (E : Environment serverInterface σ) (s : σ),
        effectsOf (((Arrival.mk client signin).serve).run E s).trace =
          effectsOf (((Arrival.mk client' signin).serve).run E s).trace :=
  (serve_selfContained_iff (by decide) (by decide) (by decide)).mpr fun _ =>
    ⟨by decide, fun _ => .inl (by decide)⟩

/-- A sign-in without a password takes the one that an earlier message left behind. -/
theorem serve_leftover_password :
    let signin : List Byte := [0x55, 0, 0, 0, 1, 0x72] ++ List.replicate 17 0x61
    let client : BlockBuffer := ⟨BlockBuffer.zero.buffer, filledWith 0x62, 0⟩
    let client' : BlockBuffer := ⟨BlockBuffer.zero.buffer, filledWith 0x63, 0⟩
    LeftBetween client ∧ LeftBetween client' ∧
      effectsOf (((Arrival.mk client signin).serve).run world World.empty).trace ≠
        effectsOf (((Arrival.mk client' signin).serve).run world World.empty).trace := by
  refine ⟨leftBetween_filledWith _, leftBetween_filledWith _, ?_⟩
  decide +kernel

end RobotServer
