import RobotServer.Relay.Shows
import RobotServer.Serving.Messages
import RobotServer.Transfer.Packetising

/-!
# Messages — what a message does to the board

`messageEvent` is the event of the board in a message, `Renders` how the server writes an answer of
the board.  A message that arrives between messages takes the step of its event and is answered as
the board answers it (`message_follows`).
-/

namespace RobotServer

open CText Memory Interaction

/-! ## Runs in the world -/

/-- The program queues these replies and returns this value in a world that it leaves as `w'`. -/
def Yields {α : Type} (p : Action α) (w : World) (replies : List (List Byte)) (a : α)
    (w' : World) : Prop :=
  Program.Ensures world p w fun trace a' w'' => repliesOf trace = replies ∧ a' = a ∧ w'' = w'

namespace Yields

variable {α β : Type} {p : Action α} {f : α → Action β} {w w' w'' : World}
  {replies replies' : List (List Byte)} {a : α} {b : β}

theorem ret (a : α) (w : World) : Yields (.ret a) w [] a w :=
  Program.Ensures.ret ⟨rfl, rfl, rfl⟩

theorem bind (hp : Yields p w replies a w') (hf : Yields (f a) w' replies' b w'') :
    Yields (p >>= f) w (replies ++ replies') b w'' := by
  refine Program.Ensures.bind hp ?_
  rintro trace _ _ ⟨hreplies, rfl, rfl⟩
  refine hf.mono ?_
  rintro trace' _ _ ⟨hreplies', hb, hw⟩
  exact ⟨by rw [repliesOf_append, hreplies, hreplies'], hb, hw⟩

/-- A program behind one that does not reply. -/
theorem silent (hp : Yields p w [] a w') (hf : Yields (f a) w' replies' b w'') :
    Yields (p >>= f) w replies' b w'' :=
  hp.bind hf

/-- A program that replies, and a silent rest. -/
theorem done (hp : Yields p w replies a w') (hf : f a = .ret b) :
    Yields (p >>= f) w replies b w' := by
  have hbind := hp.bind (f := f) (hf ▸ ret b w')
  rwa [List.append_nil] at hbind

theorem effects (hp : Yields p w replies a w') : Yields p.effects w replies () w' :=
  hp.done rfl

theorem perform {o : Op} (ho : repliesOf [o] = []) (w : World) :
    Yields (perform o) w [] (World.answer o w).1 (World.answer o w).2 :=
  .call (.ret ⟨ho, rfl, rfl⟩)

theorem onlyIf {c : Bool} {p : Action Unit} (hp : c = true → Yields p w [] () w')
    (hno : c = false → w' = w) : Yields (Program.onlyIf c p) w [] () w' := by
  cases c with
  | false =>
      rw [hno rfl]
      exact ret () w
  | true => exact hp rfl

end Yields

section Wrappers

variable {b : ServerBoard} {w : World}

theorem yields_set (key value : Text) (w : World) :
    Yields (setKeyToredis key value) w [] 0 (w.setRedis key (some value)) :=
  .call (.ret ⟨rfl, rfl, rfl⟩)

theorem yields_del (key : Text) (w : World) :
    Yields (delRedisKey key) w [] () (w.setRedis key none) :=
  .call (.ret ⟨rfl, rfl, rfl⟩)

theorem yields_reply (buffer : List Byte) (w : World) :
    Yields (apolloReturnPacket buffer) w [buffer] () w :=
  .call (.ret ⟨rfl, rfl, rfl⟩)

theorem yields_replies (buffers : List (List Byte)) (w : World) :
    Yields (buffers.forM apolloReturnPacket : Action Unit) w buffers () w := by
  induction buffers with
  | nil => exact .ret () w
  | cons buffer rest ih => exact (yields_reply buffer w).bind ih

theorem yields_insertDeviceGps (longitude latitude high deviceId : Text) (w : World) :
    Yields (insertDeviceGps longitude latitude high deviceId) w [] .ok
      (w.execute .insertDeviceGps [longitude, latitude, high, deviceId]) :=
  .call (.ret ⟨rfl, rfl, rfl⟩)

theorem read_deviceKey (d : DeviceId) :
    (cstr (deviceKey d)).take (redisCommandLength - 2) = deviceKey d := by
  rw [cstr_deviceKey]
  exact List.take_of_length_le ((deviceKey_length d).le.trans (by decide))

/-- Every text of the board is read whole. -/
theorem read_shownRedis (b : ServerBoard) (key : Key) :
    ((shownRedis b key).map fun str => (cstr str).take (redisCommandLength - 2)) =
      shownRedis b key := by
  have hread : ∀ {α : Type} {t : α → Text},
      (∀ a, (cstr (t a)).take (redisCommandLength - 2) = t a) → ∀ o : Option α,
        ((o.map t).map fun str => (cstr str).take (redisCommandLength - 2)) = o.map t := by
    intro α t ht o
    rw [Option.map_map]
    exact congrArg (fun g => Option.map g o) (funext ht)
  cases key with
  | device u => exact hread read_deviceKey _
  | owner d => exact hread UserId.read_text _
  | command d => exact hread DeviceCommand.read_text _
  | report u => exact hread Report.read_text _

/-- A read of redis is a look at the board. -/
theorem Shows.yields_get (h : Shows b w) (key : Key) :
    Yields (getValueFromredis key.text) w [] (shownRedis b key) w := by
  have hget : (world.answer (.redisGet key.text) w).1 = shownRedis b key := h.redis key
  have hread := read_shownRedis b key
  apply Program.Ensures.call
  rw [hget]
  cases hshown : shownRedis b key with
  | none => exact .ret ⟨rfl, rfl, rfl⟩
  | some text =>
      rw [hshown] at hread
      exact .ret ⟨rfl, hread, rfl⟩

end Wrappers

/-! ## Answers -/

/-- The device that a file is for. -/
def FileName.deviceId : FileName → DeviceId
  | .block d | .agps d => d

/-- The replies that tell a client an answer of the board. -/
def Renders : ServerAnswer → List (List Byte) → Prop
  | .silence, replies => replies = []
  | .command none, replies => ∃ reply, replies = [reply] ∧ IsTimePacket reply
  | .command (some c), replies => replies = [c.reply]
  | .report r, replies => replies = [ascii "RET:" ++ (r.map Report.text).getD []]
  | .received, replies => replies = [ascii "RETOK%"]
  | .saved, replies => replies = [ascii "SETOK%"]
  | .file name content, replies => replies = packetsOf content name.deviceId
  | .anything, _ => True

/-- Where the board takes the step of an event, the program returns, leaves a world that shows it,
and answers as the board does. -/
def Follows {α : Type} (E : Environment serverInterface World) (p : Action α) (b : ServerBoard)
    (w : World) (e : ServerEvent) : Prop :=
  ∀ b', b.step e = some b' → Program.Ensures E p w fun trace _ w' =>
    Shows b' w' ∧ Renders (b.answer e) (repliesOf trace)

/-- What the value becomes does not matter. -/
theorem Follows.bind_ret {α β : Type} {E : Environment serverInterface World} {p : Action α}
    {b : ServerBoard} {w : World} {e : ServerEvent} (h : Follows E p b w e) (f : α → β) :
    Follows E (p >>= fun a => .ret (f a)) b w e := by
  intro b' hstep
  refine (h b' hstep).bind ?_
  intro trace a w' hpost
  apply Program.Ensures.ret
  rw [List.append_nil]
  exact hpost

theorem Yields.follows {α : Type} {p : Action α} {a : α} {b b' : ServerBoard} {w w' : World}
    {e : ServerEvent} {replies : List (List Byte)} (hp : Yields p w replies a w')
    (hstep : b.step e = some b') (hshows : Shows b' w') (hrenders : Renders (b.answer e) replies) :
    Follows world p b w e := by
  intro b'' hstep'
  obtain rfl : b' = b'' := Option.some.inj (hstep.symm.trans hstep')
  refine hp.mono ?_
  rintro trace _ _ ⟨hreplies, -, rfl⟩
  exact ⟨hshows, hreplies ▸ hrenders⟩

/-! ## Heartbeats -/

section Heartbeat

variable {b : ServerBoard} {w : World}

/-- The result of a heartbeat is answered as the command is. -/
def Tells (r : Int × HeartInfo) (c : Option DeviceCommand) : Prop :=
  ∀ w : World, ∃ replies w', Yields (heartReply r.1 r.2) w replies () w' ∧
    (∀ b, Shows b w → Shows b w') ∧ Renders (.command c) replies

/-- Without a command the time is told. -/
theorem tells_none {result : Int} (h : result = 0 ∨ result = -1) (info : HeartInfo) :
    Tells (result, info) none := by
  intro w
  have hpos : ¬ 0 < result := by omega
  have hnone : result = 0 ∨ result = -1 ∨ result = -2 := by omega
  have hsend : Yields (heartReply result info) w
      [ascii "RETOK" ++ [0] ++ writeTimeHeader (w.clock w.ticks) ++ [0]] ()
        { w with ticks := w.ticks + 1 } := by
    rw [heartReply, if_neg hpos, if_pos hnone]
    exact (@Yields.perform .localtime rfl w).silent (yields_reply _ _)
  exact ⟨_, _, hsend, fun b hb => hb.congr rfl rfl rfl, _, rfl, _, rfl⟩

/-- A command is taken off the board. -/
theorem Shows.takeDeviceCommand (h : Shows b w) (d : DeviceId) :
    ∃ r w', Yields (takeDeviceCommand (deviceKey d) (Cells.fill 0)) w [] r w' ∧
      Shows { b with command := Function.update b.command d none } w' ∧ Tells r (b.command d) := by
  have hget : Yields (getValueFromredis (deviceKey d)) w []
      ((b.command d).map DeviceCommand.text) w := h.yields_get (.command d)
  unfold RobotServer.takeDeviceCommand
  cases hcommand : b.command d with
  | none =>
      rw [hcommand, Option.map_none] at hget
      refine ⟨_, _, hget.silent (.ret _ w), ?_, tells_none (.inl rfl) _⟩
      -- There was nothing to take.
      have hsame : Function.update b.command d none = b.command :=
        Function.update_eq_self_iff.mpr hcommand.symm
      rw [hsame]
      exact h
  | some c =>
      rw [hcommand, Option.map_some] at hget
      obtain ⟨result, info, hdecode, hreply⟩ := c.heartReply_text
      refine ⟨(result, info), _, ?_, h.take d, ?_⟩
      · refine hget.silent ?_
        dsimp only
        unfold decodeCommand at hdecode
        split at hdecode
        · next hshort =>
            injection hdecode with hdecode
            rw [if_pos hshort, ← hdecode]
            exact (yields_del _ w).done rfl
        · next hlong =>
            obtain ⟨⟨cmd, info'⟩, hstored, hresult⟩ := Option.map_eq_some_iff.mp hdecode
            rw [if_neg hlong, hstored, ← hresult]
            exact (yields_del _ w).done rfl
      · intro w
        rw [hreply]
        exact ⟨_, w, yields_reply _ w, fun _ hb => hb, rfl⟩

/-- A heartbeat of the length of one. -/
theorem heartbeat_follows (h : Shows b w) (packet : PacketBuffer) :
    Follows world (procAction .deviceHeartPacket packet lenHeartPacketDevice) b w
      (.heartbeat (deviceIdAt packet) (.ofHeartbeat packet)) := by
  have hget : Yields (getValueFromredis (ascii "R_" ++ deviceIdText packet)) w []
      ((b.owner (deviceIdAt packet)).map UserId.text) w := by
    rw [deviceIdText_eq]
    exact h.yields_get (.owner (deviceIdAt packet))
  -- What the handler finds, and the board behind it.
  obtain ⟨r, w', b', hhandler, hstep, hshows, htells⟩ : ∃ r w' b',
      Yields (deviceHeartPacket packet lenHeartPacketDevice (Cells.fill 0)) w [] r w' ∧
        b.beat (deviceIdAt packet) (.ofHeartbeat packet) = b' ∧ Shows b' w' ∧
          Tells r ((b.owner (deviceIdAt packet)).bind fun _ => b.command (deviceIdAt packet)) := by
    rw [deviceHeartPacket, if_neg (not_not.mpr rfl)]
    unfold Relay.Board.beat
    cases howner : b.owner (deviceIdAt packet) with
    | none =>
        rw [howner, Option.map_none] at hget
        exact ⟨_, _, _, hget.silent (.ret _ w), rfl, h, tells_none (.inr rfl) _⟩
    | some u =>
        rw [howner, Option.map_some] at hget
        have hpost := h.post u (.ofHeartbeat packet)
        obtain ⟨r, w', htake, hshows, htells⟩ := hpost.takeDeviceCommand (deviceIdAt packet)
        refine ⟨r, w', _, hget.silent ?_, rfl, hshows, htells⟩
        refine Yields.silent (.onlyIf (fun _ => .perform rfl w) fun _ => rfl) ?_
        refine (yields_set u.text (deviceInfoText packet) w).silent ?_
        rw [if_neg (by decide), deviceIdText_eq, ← Report.text_ofHeartbeat]
        exact htake
  obtain ⟨replies, w'', hsend, hkeep, hrenders⟩ := htells w'
  refine Yields.follows (hhandler.silent (hsend.done rfl)) (congrArg some hstep) (hkeep b' hshows) ?_
  exact hrenders

end Heartbeat

/-! ## Phones -/

section Phone

variable {b : ServerBoard} {w : World}

theorem poll_follows (h : Shows b w) (packet : PacketBuffer) :
    Follows world (procAction .phoneHeaderPacket packet lenHeartPacketPhone) b w
      (.poll (.ofPacket packet)) := by
  have hget : Yields (getValueFromredis (intText (atoi (phoneIdText packet)))) w []
      ((b.report (.ofPacket packet)).map Report.text) w := by
    have hkey : intText (atoi (phoneIdText packet)) = (UserId.ofPacket packet).text :=
      (UserId.text_ofPacket packet).symm
    rw [hkey]
    exact h.yields_get (.report (.ofPacket packet))
  have hhandler : Yields (phoneHeaderPacket packet lenHeartPacketPhone) w []
      (((((b.report (.ofPacket packet)).map Report.text).getD []).length : Int),
        ((b.report (.ofPacket packet)).map Report.text).getD []) w := by
    rw [phoneHeaderPacket, if_neg (not_not.mpr rfl)]
    exact hget.silent (.ret _ w)
  have hserve : Yields (procAction .phoneHeaderPacket packet lenHeartPacketPhone) w
      [ascii "RET:" ++ ((b.report (.ofPacket packet)).map Report.text).getD []] [] w := by
    refine hhandler.silent ?_
    -- The length of a text is not negative, so a poll is always answered.
    dsimp only
    rw [decide_eq_true (Int.natCast_nonneg _)]
    exact (yields_reply _ w).done rfl
  exact hserve.follows rfl h rfl

/-- The report of the last place that is known. -/
theorem Shows.yields_selectLocationNewItem (h : Shows b w) (d : DeviceId) (u : UserId) :
    Yields (selectLocationNewItem (deviceKey d) u.number) w [] ()
      ((b.place d).elim w fun p => w.setRedis u.text (some (Report.known p).text)) := by
  have hplace := h.place d
  have hkey : intText (u.number : Int) = u.text := (UserId.text_eq_userKey u).symm
  have hquery : Yields (perform (.executeQuery .selectLocationNewinfo [deviceKey d])) w []
      (some ((w.locations (deviceKey d)).map fun r => [r.longitude, r.latitude, r.high])) w :=
    .perform rfl w
  refine Yields.silent hquery ?_
  cases hrows : w.locations (deviceKey d) with
  | nil =>
      rw [hrows, List.head?_nil] at hplace
      rw [Option.map_eq_none_iff.mp hplace.symm]
      exact .ret () w
  | cons row rows =>
      rw [hrows, List.head?_cons] at hplace
      obtain ⟨p, hp, hrow⟩ := Option.map_eq_some_iff.mp hplace.symm
      rw [hp, ← hrow, ← hkey]
      exact (yields_set _ _ w).done rfl

/-- What a command calls for is in redis before the command is. -/
theorem Shows.asked (h : Shows b w) (d : DeviceId) (c : DeviceCommand) (u : UserId) :
    Shows ((b.asked d c).elim b (b.post u))
      ((b.asked d c).elim w fun r => w.setRedis u.text (some r.text)) := by
  cases b.asked d c with
  | none => exact h
  | some r => exact h.post u r

theorem Shows.yields_asked (h : Shows b w) (d : DeviceId) (c : DeviceCommand) (u : UserId) :
    Yields (Program.onlyIf (c.code == cmdPhoneDeviceRealtimeLocation)
      (selectLocationNewItem (deviceKey d) u.number)) w [] ()
        ((b.asked d c).elim w fun r => w.setRedis u.text (some r.text)) := by
  refine .onlyIf (fun hasks => ?_) fun hasks => ?_
  · have hasked : b.asked d c = (b.place d).map Report.known := if_pos hasks
    have hselect := h.yields_selectLocationNewItem d u
    rw [hasked]
    cases hplace : b.place d with
    | none =>
        rw [hplace] at hselect
        exact hselect
    | some p =>
        rw [hplace] at hselect
        exact hselect
  · have hasked : b.asked d c = none := if_neg (Bool.not_eq_true _ ▸ hasks)
    rw [hasked]
    rfl

/-- Commands with an index ask for nothing. -/
theorem asked_contract (b : ServerBoard) (d : DeviceId) {c : DeviceCommand}
    (hclass : checkPhoneCommand c.code = 4) : b.asked d c = none := by
  refine if_neg fun hasks => ?_
  rw [eq_of_beq hasks] at hclass
  exact absurd hclass (by decide)

/-- A command of the length of one, for the device of its user. -/
theorem command_follows (h : Shows b w) {packet : PacketBuffer} {c : DeviceCommand}
    (hc : DeviceCommand.ofPacket packet = some c) :
    Follows world (procAction .phoneCommandPacket packet lenCommandPacket) b w
      (.command (.ofPacket packet) c) := by
  have hstands := DeviceCommand.standsIn_of_ofPacket hc
  obtain ⟨hnonneg, hthree, hseven⟩ := DeviceCommand.isPhoneCommand_of_ofPacket hc
  have huser : (atoi (phoneIdText packet)) = ((UserId.ofPacket packet).number : Int) :=
    phoneUser_eq packet
  have hget : Yields (getValueFromredis (ascii "RP_" ++ intText (atoi (phoneIdText packet)))) w []
      ((b.device (.ofPacket packet)).map deviceKey) w := by
    have hkey : intText (atoi (phoneIdText packet)) = (UserId.ofPacket packet).text :=
      (UserId.text_ofPacket packet).symm
    rw [hkey]
    exact h.yields_get (.device (.ofPacket packet))
  obtain ⟨w', result, hhandler, hshows⟩ : ∃ w' result,
      Yields (phoneCommandPacket packet lenCommandPacket) w [] result w' ∧
        Shows (b.tell (.ofPacket packet) c) w' := by
    rw [phoneCommandPacket, if_neg (not_not.mpr rfl)]
    unfold Relay.Board.tell
    cases hdevice : b.device (.ofPacket packet) with
    | none =>
        rw [hdevice, Option.map_none] at hget
        exact ⟨_, _, hget.silent (.ret _ w), h⟩
    | some d =>
        rw [hdevice, Option.map_some] at hget
        have hvalue := hstands.commandValue
        rw [commandValue, hstands.code] at hvalue
        refine ⟨_, 0, hget.silent ?_, (h.asked d c (.ofPacket packet)).leave d c⟩
        dsimp only
        rw [hstands.code]
        by_cases hclass : checkPhoneCommand c.code = 4
        · rw [if_pos hclass] at hvalue ⊢
          rw [hvalue, asked_contract b d hclass]
          exact (yields_set _ _ w).done rfl
        · rw [if_neg hclass] at hvalue ⊢
          rw [if_neg hseven, if_neg hthree, if_pos hnonneg, hvalue, huser]
          exact (h.yields_asked d c _).silent ((yields_set _ _ _).done rfl)
  exact Yields.follows (hhandler.done rfl) rfl hshows rfl

end Phone

/-! ## Positions -/

section Position

variable {b : ServerBoard} {w : World}

/-- A place goes to the table and its report to the user. -/
theorem Shows.locate (h : Shows b w) {d : DeviceId} {u : UserId} (howner : b.owner d = some u)
    (p : DevicePlace) (r : Report) :
    Shows (b.locate d p r)
      ((w.execute .insertDeviceGps [p.longitude, p.latitude, p.highText, deviceKey d]).setRedis
        u.text (some r.text)) := by
  unfold Relay.Board.locate
  rw [howner]
  exact (h.insert d p).post u r

/-- A position of the length of one that a device sends. -/
theorem position_follows (h : Shows b w) (packet : PacketBuffer) :
    Follows world (procAction .deviceLocationPacket packet lenGpsLocationData) b w
      (.position (deviceIdAt packet) (.ofPacket packet) (.ofPosition packet)) := by
  have hget : Yields (getValueFromredis (ascii "R_" ++ deviceIdText packet)) w []
      ((b.owner (deviceIdAt packet)).map UserId.text) w := by
    rw [deviceIdText_eq]
    exact h.yields_get (.owner (deviceIdAt packet))
  obtain ⟨w', result, hhandler, hshows⟩ : ∃ w' result,
      Yields (deviceLocationPacket packet lenGpsLocationData) w [] result w' ∧
        Shows (b.locate (deviceIdAt packet) (.ofPacket packet) (.ofPosition packet)) w' := by
    rw [deviceLocationPacket, if_neg fun hlength => hlength.1 rfl]
    cases howner : b.owner (deviceIdAt packet) with
    | none =>
        rw [howner, Option.map_none] at hget
        refine ⟨w, _, hget.silent (.ret _ w), ?_⟩
        unfold Relay.Board.locate
        rw [howner]
        exact h
    | some u =>
        rw [howner, Option.map_some] at hget
        refine ⟨_, 0, hget.silent ?_, h.locate howner _ _⟩
        dsimp only
        rw [if_pos rfl]
        refine Yields.silent (.onlyIf (fun _ => .perform rfl w) fun _ => rfl) ?_
        rw [Report.text_ofPosition, DevicePlace.highText_ofPacket, deviceIdText_eq]
        refine (yields_insertDeviceGps _ _ _ _ w).silent ?_
        exact (yields_set _ _ _).done rfl
  have hserve : Yields (procAction .deviceLocationPacket packet lenGpsLocationData) w
      [ascii "RETOK%"] [] w' := hhandler.silent ((yields_reply _ w').done rfl)
  exact hserve.follows rfl hshows rfl

end Position

/-! ## Downloads -/

section Download

variable {b : ServerBoard} {w : World}

/-- The file in a request. -/
def downloadName (packet : PacketBuffer) : FileName :=
  if packet.peek 13 = 0x61 then .agps (deviceIdAt packet) else .block (deviceIdAt packet)

theorem path_downloadName (packet : PacketBuffer) :
    (downloadName packet).path = downloadPath packet := by
  unfold downloadName downloadPath
  rw [deviceIdText_eq]
  by_cases hagps : packet.peek 13 = 0x61
  · rw [if_pos hagps, hagps, if_neg (by decide), if_pos rfl]
    rfl
  · rw [if_neg hagps, if_neg hagps, ite_self]
    rfl

theorem deviceId_downloadName (packet : PacketBuffer) :
    (downloadName packet).deviceId = deviceIdAt packet := by
  unfold downloadName
  split
  · rfl
  · rfl

/-- A file is read as far as the block buffer has room. -/
theorem readDat_yields {filename : Text} {content : List Byte}
    (hfile : w.files filename = some content) :
    Yields (readDat filename) w [] (content.take lenBlockBuffer) w := by
  have hperform : Yields (perform (.readDat filename)) w [] (w.files filename) w :=
    .perform rfl w
  rw [hfile] at hperform
  exact (hperform.done rfl : Yields (readDat _) _ _ _ _)

theorem readDat_faults {filename : Text} (hfile : w.files filename = none) :
    ((readDat filename).run world w).result = none := by
  have hanswer : (world.answer (.readDat filename) w).1 = (none : Option (List Byte)) := hfile
  rw [readDat, perform_bind, Program.run_call, hanswer]
  rfl

/-- A file that can be sent is sent in its packets. -/
theorem download_follows (h : Shows b w) (packet : PacketBuffer) :
    Follows world (procAction .deviceBlockDataSendPacket packet lenDeviceDownload) b w
      (.download (downloadName packet)) := by
  intro b' hstep
  obtain rfl := Relay.Board.eq_of_download hstep
  obtain ⟨content, hfile, hsend⟩ := Relay.Board.exists_of_download hstep
  have hshort : content.length ≤ 31744 := of_decide_eq_true hsend
  have hread : Yields (readDat (downloadPath packet)) w [] content w := by
    have hcontent : w.files (downloadPath packet) = some content := by
      rw [← path_downloadName, h.file, hfile]
    rw [← content.take_of_length_le (hshort.trans (by decide) : _ ≤ lenBlockBuffer)]
    exact readDat_yields hcontent
  have hfits : (packetBytes content (deviceIdAt packet)).length ≤ lenBlockBuffer :=
    (packetBytes_length_le_iff content (deviceIdAt packet)).mpr hshort
  have hserve : Yields (procAction .deviceBlockDataSendPacket packet lenDeviceDownload) w
      (packetsOf content (deviceIdAt packet)) (packetBytes content (deviceIdAt packet)) w := by
    change Yields (download packet lenDeviceDownload) _ _ _ _
    rw [download, if_neg (not_not.mpr rfl)]
    refine hread.silent ?_
    dsimp only
    rw [if_pos hfits, slices_packetBytes]
    exact (yields_replies _ w).done rfl
  refine hserve.follows hstep h ?_ b' hstep
  change Renders ((b'.file (downloadName packet)).elim _ _) _
  rw [hfile]
  exact congrArg (packetsOf content) (deviceId_downloadName packet).symm

end Download

/-! ## Messages without an event -/

section Others

variable {b : ServerBoard} {w : World}

/-- A program that answers anything and leaves the board alone. -/
def Spares {α : Type} (p : Action α) (w : World) : Prop :=
  ∃ replies a w', Yields p w replies a w' ∧ ∀ b, Shows b w → Shows b w'

theorem Yields.spares {α : Type} {p : Action α} {replies : List (List Byte)} {a : α}
    (hp : Yields p w replies a w) : Spares p w :=
  ⟨replies, a, w, hp, fun _ h => h⟩

theorem Spares.follows {α : Type} {p : Action α} (hp : Spares p w) (h : Shows b w) :
    Follows world p b w .other := by
  obtain ⟨replies, a, w', hyields, hkeep⟩ := hp
  exact hyields.follows rfl (hkeep b h) trivial

/-- A request about an account changes the table of users alone. -/
theorem phoneOperatorUserInfo_spares (packet : PacketBuffer) (w : World) :
    Spares (phoneOperatorUserInfo packet) w := by
  have hselect : ∀ userName password w, Yields (selectUserId userName password 0) w [] (.ok, 0) w :=
    fun userName password w =>
      (@Yields.perform (.executeQuery .selectUserid [userName, password]) rfl w).done rfl
  have hinsert : ∀ userName password, Yields (insertUser userName password) w [] .ok
      (w.execute .insertUser [userName, password]) := fun userName password =>
    (@Yields.perform (.execute .insertUser [userName, password]) rfl w).done rfl
  have hupdate : ∀ userName password, Yields (updatePassword userName password) w [] .ok
      (w.execute .selectUpdatePassword [password, userName]) := fun userName password =>
    (@Yields.perform (.execute .selectUpdatePassword [password, userName]) rfl w).done rfl
  unfold phoneOperatorUserInfo
  dsimp only
  split
  · exact ⟨_, _, _, (hinsert _ _).silent ((hselect _ _ _).silent (yields_reply _ _)),
      fun b h => h.congr rfl rfl rfl⟩
  split
  · exact ((hselect _ _ w).silent (yields_reply _ w)).spares
  split
  · exact ⟨_, _, _, (hupdate _ _).silent (yields_reply _ _), fun b h => h.congr rfl rfl rfl⟩
  · exact (Yields.ret () w).spares

/-- A message of another length than its own is not looked at. -/
theorem length_spares {proc : Proc} {length : Nat}
    (h : proc = .deviceHeartPacket ∧ length ≠ lenHeartPacketDevice ∨
      proc = .phoneHeaderPacket ∧ length ≠ lenHeartPacketPhone ∨
        proc = .phoneCommandPacket ∧ length ≠ lenCommandPacket ∨
          proc = .deviceBlockDataSendPacket ∧ length ≠ lenDeviceDownload)
    (packet : PacketBuffer) (w : World) : Spares (procAction proc packet length) w := by
  have hquiet : Yields (procAction proc packet length) w [] [] w := by
    rcases h with ⟨rfl, hlength⟩ | ⟨rfl, hlength⟩ | ⟨rfl, hlength⟩ | ⟨rfl, hlength⟩
    · rw [procAction, deviceHeartPacket, if_pos hlength]
      exact .ret [] w
    · rw [procAction, phoneHeaderPacket, if_pos hlength]
      exact .ret [] w
    · rw [procAction, phoneCommandPacket, if_pos hlength]
      exact .ret [] w
    · rw [procAction, download, if_pos hlength]
      exact .ret [] w
  exact hquiet.spares

/-- A command that is none, or is not for a device, changes nothing. -/
theorem command_spares (h : Shows b w) {packet : PacketBuffer}
    (hc : DeviceCommand.ofPacket packet = none) :
    Spares (procAction .phoneCommandPacket packet lenCommandPacket) w := by
  have hnot : ¬ IsPhoneCommand (packet.peek idxPhoneCommand) := by
    intro hphone
    rw [DeviceCommand.ofPacket, dif_pos hphone] at hc
    cases hc
  have hget : Yields (getValueFromredis (ascii "RP_" ++ intText (atoi (phoneIdText packet)))) w []
      ((b.device (.ofPacket packet)).map deviceKey) w := by
    have hkey : intText (atoi (phoneIdText packet)) = (UserId.ofPacket packet).text :=
      (UserId.text_ofPacket packet).symm
    rw [hkey]
    exact h.yields_get (.device (.ofPacket packet))
  obtain ⟨result, hhandler⟩ : ∃ result,
      Yields (phoneCommandPacket packet lenCommandPacket) w [] result w := by
    rw [phoneCommandPacket, if_neg (not_not.mpr rfl)]
    cases hdevice : b.device (.ofPacket packet) with
    | none =>
        rw [hdevice, Option.map_none] at hget
        exact ⟨_, hget.silent (.ret _ w)⟩
    | some d =>
        rw [hdevice, Option.map_some] at hget
        refine ⟨0, hget.silent ?_⟩
        dsimp only
        -- Every class of commands that would be stored is one of a phone.
        have hfour : checkPhoneCommand (packet.peek idxPhoneCommand) ≠ 4 := fun hclass =>
          hnot ⟨by rw [hclass]; decide, by rw [hclass]; decide, by rw [hclass]; decide⟩
        rw [if_neg hfour]
        by_cases hseven : checkPhoneCommand (packet.peek idxPhoneCommand) = 7
        · rw [if_pos hseven]
          exact .ret 0 w
        by_cases hthree : checkPhoneCommand (packet.peek idxPhoneCommand) = 3
        · rw [if_neg hseven, if_pos hthree]
          exact .ret 0 w
        · rw [if_neg hseven, if_neg hthree, if_neg fun hnonneg => hnot ⟨hnonneg, hthree, hseven⟩]
          exact .ret 0 w
  have hserve : Yields (procAction .phoneCommandPacket packet lenCommandPacket) w [] [] w :=
    hhandler.done rfl
  exact hserve.spares

/-- A position of another length starts the search for a place at most. -/
theorem position_spares (h : Shows b w) (packet : PacketBuffer) {length : Nat}
    (hlength : length ≠ lenGpsLocationData) :
    Spares (procAction .deviceLocationPacket packet length) w := by
  have hget : Yields (getValueFromredis (ascii "R_" ++ deviceIdText packet)) w []
      ((b.owner (deviceIdAt packet)).map UserId.text) w := by
    rw [deviceIdText_eq]
    exact h.yields_get (.owner (deviceIdAt packet))
  obtain ⟨result, hhandler⟩ : ∃ result, Yields (deviceLocationPacket packet length) w [] result w := by
    unfold deviceLocationPacket
    split
    · exact ⟨_, .ret _ w⟩
    · cases howner : b.owner (deviceIdAt packet) with
      | none =>
          rw [howner, Option.map_none] at hget
          exact ⟨_, hget.silent (.ret _ w)⟩
      | some u =>
          rw [howner, Option.map_some] at hget
          refine ⟨0, hget.silent ?_⟩
          dsimp only
          exact (@Yields.perform (.createThread (.httpPost (packet.slice 0 length))) rfl w).done rfl
  have hserve : Yields (procAction .deviceLocationPacket packet length) w [ascii "RETOK%"] [] w :=
    hhandler.silent ((yields_reply _ w).done rfl)
  exact hserve.spares

end Others

/-! ## Messages -/

/-- What a message does to the board. -/
def messageEvent (packet : PacketBuffer) (length : Nat) : ServerEvent :=
  match handlerOf (packet.peek 0) with
  | some .deviceHeartPacket =>
      if length = lenHeartPacketDevice then .heartbeat (deviceIdAt packet) (.ofHeartbeat packet)
      else .other
  | some .phoneHeaderPacket =>
      if length = lenHeartPacketPhone then .poll (.ofPacket packet) else .other
  | some .phoneCommandPacket =>
      if length = lenCommandPacket then
        match DeviceCommand.ofPacket packet with
        | some c => .command (.ofPacket packet) c
        | none => .other
      else .other
  | some .deviceLocationPacket =>
      if length = lenGpsLocationData then
        .position (deviceIdAt packet) (.ofPacket packet) (.ofPosition packet)
      else .other
  | some .deviceBlockDataSendPacket =>
      if length = lenDeviceDownload then .download (downloadName packet) else .other
  | _ => .other

section Message

variable {b : ServerBoard} {w : World}

/-- A handler takes the step of its message. -/
theorem served_follows (h : Shows b w) (packet : PacketBuffer) (nbytes : Nat) :
    Follows world (served packet nbytes) b w (messageEvent packet nbytes) := by
  cases hhandler : handlerOf (packet.peek 0) with
  | none =>
      rw [messageEvent, served, hhandler]
      exact (Yields.ret [] w).spares.follows h
  | some proc =>
      rw [messageEvent, served_eq hhandler, hhandler]
      -- The call of the handler changes nothing and sends nothing.
      have hcall : ∀ {e}, Follows world (procAction proc packet nbytes) b w e →
          Follows world (perform (.handler proc (packet.slice 0 nbytes)) >>= fun _ =>
            procAction proc packet nbytes) b w e := fun hproc b' hstep => hproc b' hstep
      apply hcall
      cases proc with
      | deviceHeartPacket =>
          dsimp only
          split
          · next hlength => exact hlength ▸ heartbeat_follows h packet
          · next hlength => exact (length_spares (.inl ⟨rfl, hlength⟩) packet w).follows h
      | phoneHeaderPacket =>
          dsimp only
          split
          · next hlength => exact hlength ▸ poll_follows h packet
          · next hlength => exact (length_spares (.inr (.inl ⟨rfl, hlength⟩)) packet w).follows h
      | phoneCommandPacket =>
          dsimp only
          split
          · next hlength =>
              subst hlength
              cases hc : DeviceCommand.ofPacket packet with
              | none => exact (command_spares h hc).follows h
              | some c => exact command_follows h hc
          · next hlength =>
              exact (length_spares (.inr (.inr (.inl ⟨rfl, hlength⟩))) packet w).follows h
      | deviceLocationPacket =>
          dsimp only
          split
          · next hlength => exact hlength ▸ position_follows h packet
          · next hlength => exact (position_spares h packet hlength).follows h
      | phoneAddDevice => exact (Yields.ret [] w).spares.follows h
      | phoneOperatorUserInfo =>
          obtain ⟨replies, u, w', hyields, hkeep⟩ := phoneOperatorUserInfo_spares packet w
          have hserve : Yields (procAction .phoneOperatorUserInfo packet nbytes) w replies [] w' :=
            hyields.done rfl
          exact hserve.follows rfl (hkeep b h) trivial
      | deviceBaseStation => exact (Yields.ret [] w).spares.follows h
      | deviceBlockDataSendPacket =>
          dsimp only
          split
          · next hlength => exact hlength ▸ download_follows h packet
          · next hlength =>
              exact (length_spares (.inr (.inr (.inr ⟨rfl, hlength⟩))) packet w).follows h

/-- **A message takes the step of its event**: the server is left with the board of the step, and
its replies are the answer of the board. -/
theorem message_follows (h : Shows b w) {a : Arrival} (hindex : a.client.index = 0)
    (hne : a.message ≠ []) (hlen : a.message.length ≤ lenBlockPacket)
    (hheader : a.message.headD 0 ≠ hdrBlockDataRecv) :
    Follows world a.serve b w (messageEvent a.packet a.message.length) := by
  have hpeek : a.packet.peek 0 ≠ hdrBlockDataRecv := by
    rw [Arrival.packet, peek_place_zero hne]
    exact hheader
  rw [Arrival.serve_eq hindex hne hlen, dispatch_served hpeek]
  exact ((served_follows h a.packet a.message.length).bind_ret _).bind_ret _

/-! ## Downloads that fail -/

theorem exists_of_messageEvent_download {packet : PacketBuffer} {length : Nat} {name : FileName}
    (h : messageEvent packet length = .download name) :
    handlerOf (packet.peek 0) = some .deviceBlockDataSendPacket ∧ length = lenDeviceDownload ∧
      name = downloadName packet := by
  unfold messageEvent at h
  split at h
  · split at h
    · cases h
    · cases h
  · split at h
    · cases h
    · cases h
  · split at h
    · split at h
      · cases h
      · cases h
    · cases h
  · split at h
    · cases h
    · cases h
  · next hhandler =>
      split at h
      · next hlength =>
          cases h
          exact ⟨hhandler, hlength, rfl⟩
      · cases h
  · cases h

/-- A file that is missing, or whose packets do not fit the block buffer, is undefined behaviour. -/
theorem download_faults (h : Shows b w) (packet : PacketBuffer)
    (hcannot : ∀ content, b.file (downloadName packet) = some content → ¬ content.length ≤ 31744) :
    ((download packet lenDeviceDownload).run world w).result = none := by
  have hfile : w.files (downloadPath packet) = b.file (downloadName packet) := by
    rw [← path_downloadName, h.file]
  rw [download, if_neg (not_not.mpr rfl)]
  cases hcontent : b.file (downloadName packet) with
  | none => exact Program.result_bind_of_none world (readDat_faults (hfile.trans hcontent))
  | some content =>
      have hlong : ¬ (packetBytes (content.take lenBlockBuffer) (deviceIdAt packet)).length ≤
          lenBlockBuffer := by
        have hcontent' := hcannot content hcontent
        rw [packetBytes_length_le_iff, List.length_take]
        change ¬ min 32768 _ ≤ 31744
        omega
      obtain ⟨_, hresult, -, rfl, -⟩ := readDat_yields (hfile.trans hcontent)
      rw [Program.run_bind_of_result world hresult]
      dsimp only
      rw [if_neg hlong]
      rfl

/-- A message that the board cannot take does not return. -/
theorem message_faults (h : Shows b w) {a : Arrival} (hindex : a.client.index = 0)
    (hne : a.message ≠ []) (hlen : a.message.length ≤ lenBlockPacket)
    (hheader : a.message.headD 0 ≠ hdrBlockDataRecv)
    (hstuck : b.step (messageEvent a.packet a.message.length) = none) :
    (a.serve.run world w).result = none := by
  have hpeek : a.packet.peek 0 ≠ hdrBlockDataRecv := by
    rw [Arrival.packet, peek_place_zero hne]
    exact hheader
  obtain ⟨name, hevent, hcannot⟩ := Relay.Board.exists_download_of_stuck hstuck
  obtain ⟨hhandler, hlength, rfl⟩ := exists_of_messageEvent_download hevent
  have hdownload := download_faults h a.packet fun content hcontent =>
    of_decide_eq_false (hcannot content hcontent)
  rw [Arrival.serve_eq hindex hne hlen, dispatch_served hpeek, served_eq hhandler, hlength]
  exact Program.result_bind_of_none world (Program.result_bind_of_none world hdownload)

end Message

end RobotServer
