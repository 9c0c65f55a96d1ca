import RobotServer.Interaction.Slots
import RobotServer.Mailbox.Commands
import RobotServer.Mailbox.Redis

/-!
# Delivery — the command mailbox of a device

Phones leave commands in redis under the id of a device, heartbeats of the device take them.  A
run of such messages is followed by `Slots` with one slot for each device: `Mailboxes` relates the
store to the slots, every message preserves it (`command_ensures`, `heartbeat_ensures`), and
`mailbox_exact` reads off what every heartbeat is answered.
-/

namespace RobotServer

open CText Memory Interaction

/-! ## Keys -/

/-- The key of the commands of a device. -/
def deviceKey (d : DeviceId) : Text :=
  hextostring d.toList

/-- The key under which the bindings of a user are stored, and the key of its information. -/
def userKey (userId : Int) : Text :=
  intText userId

/-- A key of the relations `R_` and `RP_`. -/
def IsRelation (key : Text) : Prop :=
  key.headD 0 = 0x52

theorem isRelation_phone (key : Text) : IsRelation (ascii "RP_" ++ key) := rfl

theorem isRelation_device (key : Text) : IsRelation (ascii "R_" ++ key) := rfl

/-- The value of an `int`. -/
def IsInt (n : Int) : Prop :=
  -2 ^ 31 ≤ n ∧ n < 2 ^ 31

theorem bmod_isInt (n : Int) : IsInt (n.bmod (2 ^ 32)) :=
  ⟨Int.le_bmod (by decide), Int.bmod_lt (by decide)⟩

theorem atoi_isInt (t : Text) : IsInt (atoi t) :=
  bmod_isInt _

theorem deviceIdText_eq (packet : PacketBuffer) :
    deviceIdText packet = deviceKey (deviceIdAt packet) := by
  refine congrArg hextostring ?_
  refine List.ext_getElem (by simp) ?_
  intro i h1 h2
  simp [Cells.slice, deviceIdAt]

theorem deviceKey_length (d : DeviceId) : (deviceKey d).length = 16 := by
  rw [deviceKey, hextostring_length, Vector.length_toList]
  rfl

theorem userKey_length_le {n : Int} (h : IsInt n) : (userKey n).length ≤ 11 := by
  rcases h with ⟨hlo, hhi⟩
  have hlen : (natText n.natAbs).length ≤ 10 := natText_length_le (by decide) (by omega)
  unfold userKey intText
  split
  · exact Nat.succ_le_succ hlen
  · exact hlen.trans (by decide)

theorem deviceKey_ne_userKey (d : DeviceId) {n : Int} (h : IsInt n) : deviceKey d ≠ userKey n := by
  intro heq
  have hlen := congrArg List.length heq
  have hle := userKey_length_le h
  rw [deviceKey_length] at hlen
  omega

theorem deviceKey_not_relation (d : DeviceId) : ¬ IsRelation (deviceKey d) := by
  intro h
  have hlen := deviceKey_length d
  cases hkey : deviceKey d with
  | nil =>
      rw [hkey] at hlen
      cases hlen
  | cons c rest =>
      have hc := hextostring_chars d.toList c (by
        change c ∈ deviceKey d
        rw [hkey]
        exact List.mem_cons_self)
      rw [IsRelation, hkey] at h
      have hle : (0x52 : Byte) ≤ 0x46 := by
        rw [← h]
        exact hc.2
      exact absurd hle (by decide)

theorem userKey_not_relation (n : Int) : ¬ IsRelation (userKey n) := by
  intro h
  unfold IsRelation userKey intText at h
  split at h
  · exact absurd (show (0x2D : Byte) = 0x52 from h) (by decide)
  · cases htext : natText n.natAbs with
    | nil => exact natText_ne_nil _ htext
    | cons c rest =>
        have hc := isDigit_natText n.natAbs c (by rw [htext]; exact List.mem_cons_self)
        rw [htext] at h
        rw [show c = 0x52 from h] at hc
        exact absurd hc (by decide)

theorem cstr_deviceKey (d : DeviceId) : cstr (deviceKey d) = deviceKey d :=
  cstr_eq_self_of_plain (plain_hextostring d.toList)

theorem cstr_userKey (n : Int) : cstr (userKey n) = userKey n :=
  cstr_eq_self_of_plain (plain_intText n)

/-! ## The handlers -/

/-- A location query is answered with rows of the three columns it names. -/
def LocationsAnswer {σ : Type} (E : Environment serverInterface σ) : Prop :=
  ∀ s u8DeviceId, ∃ rows : List (List Text),
    (E.answer (.executeQuery .selectLocationNewinfo [u8DeviceId]) s).1 = some rows ∧
      ∀ row ∈ rows, 3 ≤ row.length

theorem world_locationsAnswer : LocationsAnswer world := by
  intro w u8DeviceId
  refine ⟨_, rfl, ?_⟩
  intro row hrow
  rcases List.mem_map.mp hrow with ⟨r, -, rfl⟩
  exact le_rfl

section Handlers

variable {σ : Type} {E : Environment serverInterface σ} {store : σ → Text → Option Text}

theorem selectLocationNewItem_ensures (hredis : LawfulRedis E store) (hrows : LocationsAnswer E)
    (u8DeviceId : Text) (userId : Int) (s : σ) :
    Program.Ensures E (selectLocationNewItem u8DeviceId userId) s fun trace _ s' =>
      repliesOf trace = [] ∧ ∀ key, key ≠ userKey userId → store s' key = store s key := by
  rcases hrows s u8DeviceId with ⟨rows, hanswer, hcolumns⟩
  have hstore := hredis.store_other s (.executeQuery .selectLocationNewinfo [u8DeviceId]) rfl
  apply Program.Ensures.call
  rw [hanswer]
  cases rows with
  | nil => exact .ret ⟨rfl, fun key _ => congrFun hstore key⟩
  | cons row rows =>
      match row, hcolumns row List.mem_cons_self with
      | lng :: lat :: high :: rest, _ =>
          refine (setKeyToredis_ensures hredis (intText userId) (locationNewItemText lng lat high)
            _).bind ?_
          rintro trace result s' ⟨htrace, -, hset⟩
          refine .ret ⟨?_, ?_⟩
          · rw [List.append_nil]
            exact htrace
          · intro key hkey
            rw [hset, hstore]
            exact Function.update_of_ne hkey _ _

/-- A command is left for the device, whatever the mailbox held before. -/
theorem phoneCommandPacket_ensures (hredis : LawfulRedis E store) (hrows : LocationsAnswer E)
    {packet : PacketBuffer} (hcommand : IsCommand packet) {s : σ} {d : DeviceId}
    (hbound : store s (ascii "RP_" ++ userKey (atoi (phoneIdText packet))) =
      some (deviceKey d)) :
    Program.Ensures E (phoneCommandPacket packet lenCommandPacket) s fun trace _ s' =>
      repliesOf trace = [] ∧ store s' (deviceKey d) = some (commandValue packet) ∧
        ∀ key, key ≠ deviceKey d → key ≠ userKey (atoi (phoneIdText packet)) →
          store s' key = store s key := by
  have hlen : (deviceKey d).take (redisCommandLength - 2) = deviceKey d :=
    List.take_of_length_le ((deviceKey_length d).le.trans (by decide))
  have hlength : ¬ lenCommandPacket ≠ lenCommandPacket := not_not.mpr rfl
  rw [phoneCommandPacket, if_neg hlength]
  refine (getValueFromredis_ensures hredis _ s).bind ?_
  rintro trace value s₁ ⟨htrace, hstore, hvalue⟩
  have hdevice : value = some (deviceKey d) := by
    rw [hvalue]
    refine (congrArg _ hbound).trans ?_
    rw [Option.map_some, cstr_deviceKey, hlen]
  subst hdevice
  dsimp only
  rcases hcommand.stored with ⟨hnonneg, hthree, hseven⟩
  by_cases hclass : checkPhoneCommand (packet.peek idxPhoneCommand) = 4
  · rw [if_pos hclass]
    refine (setKeyToredis_ensures hredis _ _ s₁).bind ?_
    rintro trace' result s₂ ⟨htrace', rfl, hset⟩
    refine .ret ⟨?_, ?_, ?_⟩
    · simp [htrace, htrace']
    · rw [hset, Function.update_self, commandValue, if_pos hclass]
    · intro key hkey _
      rw [hset, Function.update_of_ne hkey, hstore]
  · rw [if_neg hclass, if_neg hseven, if_neg hthree, if_pos hnonneg]
    -- A location request stores what is known of the position under the key of the user.
    have hlocation : Program.Ensures E (Program.onlyIf
        (packet.peek idxPhoneCommand == cmdPhoneDeviceRealtimeLocation)
        (selectLocationNewItem (deviceKey d) (atoi (phoneIdText packet)))) s₁ fun trace' _ s' =>
          repliesOf trace' = [] ∧ ∀ key, key ≠ userKey (atoi (phoneIdText packet)) →
            store s' key = store s₁ key := by
      cases packet.peek idxPhoneCommand == cmdPhoneDeviceRealtimeLocation with
      | false => exact .ret ⟨rfl, fun key _ => rfl⟩
      | true => exact selectLocationNewItem_ensures hredis hrows _ _ s₁
    refine hlocation.bind ?_
    rintro trace' _ s₂ ⟨htrace', hother⟩
    refine (setKeyToredis_ensures hredis _ _ s₂).bind ?_
    rintro trace'' result s₃ ⟨htrace'', rfl, hset⟩
    refine .ret ⟨?_, ?_, ?_⟩
    · simp [htrace, htrace', htrace'']
    · rw [hset, Function.update_self, commandValue, if_neg hclass]
    · intro key hkey huser
      rw [hset, Function.update_of_ne hkey, hother key huser, hstore]

/-- What the heartbeat handler makes of the text stored for a device. -/
def decodeMailbox (stored : Option Text) (info : HeartInfo) : Option (Int × HeartInfo) :=
  (stored.map fun str => (cstr str).take (redisCommandLength - 2)).elim (some (0, info)) fun value =>
    decodeCommand value info

/-- What a heartbeat takes out of the mailbox of a device. -/
theorem takeDeviceCommand_ensures (hredis : LawfulRedis E store) (d : DeviceId) {s : σ}
    {info : HeartInfo} {r : Int × HeartInfo}
    (hr : decodeMailbox (store s (deviceKey d)) info = some r) :
    Program.Ensures E (takeDeviceCommand (deviceKey d) info) s fun trace result s' =>
      repliesOf trace = [] ∧ result = r ∧
        store s' = Function.update (store s) (deviceKey d) none := by
  rw [takeDeviceCommand]
  refine (getValueFromredis_ensures hredis _ s).bind ?_
  rintro trace value s₁ ⟨htrace, hstore, hvalue⟩
  rw [decodeMailbox, ← hvalue] at hr
  cases value with
  | none =>
      injection hr with hr
      refine .ret ⟨by simpa using htrace, hr, ?_⟩
      rw [hstore]
      -- There was nothing to remove, so the removal changes nothing.
      exact (Function.update_eq_self_iff.mpr (Option.map_eq_none_iff.mp hvalue.symm).symm).symm
  | some value =>
      dsimp only [Option.elim] at hr ⊢
      -- A value too short to be a command is removed without being read.
      by_cases hshort : value.length < 4
      · rw [decodeCommand, if_pos hshort] at hr
        injection hr with hr
        rw [if_pos hshort]
        refine (delRedisKey_ensures hredis (deviceKey d) s₁).bind ?_
        rintro trace' _ s₂ ⟨htrace', hdel⟩
        refine .ret ⟨by simp [htrace, htrace'], hr, ?_⟩
        rw [hdel, hstore]
      · rw [decodeCommand, if_neg hshort] at hr
        rcases Option.map_eq_some_iff.mp hr with ⟨⟨cmd, info'⟩, hstored, hr⟩
        rw [if_neg hshort, hstored]
        refine (delRedisKey_ensures hredis (deviceKey d) s₁).bind ?_
        rintro trace' _ s₂ ⟨htrace', hdel⟩
        refine .ret ⟨by simp [htrace, htrace'], hr, ?_⟩
        rw [hdel, hstore]

/-- A heartbeat stores the state of the device for its user and empties its mailbox. -/
theorem deviceHeartPacket_ensures (hredis : LawfulRedis E store) {packet : PacketBuffer} {s : σ}
    {userId : Int} (huser : IsInt userId)
    (hbound : store s (ascii "R_" ++ deviceIdText packet) = some (userKey userId))
    {info : HeartInfo} {r : Int × HeartInfo}
    (hr : decodeMailbox (store s (deviceKey (deviceIdAt packet))) info = some r) :
    Program.Ensures E (deviceHeartPacket packet lenHeartPacketDevice info) s fun trace result s' =>
      repliesOf trace = [] ∧ result = r ∧ store s' (deviceKey (deviceIdAt packet)) = none ∧
        store s' (userKey userId) = some (deviceInfoText packet) ∧
          ∀ key, key ≠ deviceKey (deviceIdAt packet) → key ≠ userKey userId →
            store s' key = store s key := by
  have hlen : (userKey userId).take (redisCommandLength - 2) = userKey userId :=
    List.take_of_length_le ((userKey_length_le huser).trans (by decide))
  have hlength : ¬ lenHeartPacketDevice ≠ lenHeartPacketDevice := not_not.mpr rfl
  have hne : deviceKey (deviceIdAt packet) ≠ userKey userId := deviceKey_ne_userKey _ huser
  rw [deviceHeartPacket, if_neg hlength]
  refine (getValueFromredis_ensures hredis _ s).bind ?_
  rintro trace value s₁ ⟨htrace, hstore, hvalue⟩
  have hvalue' : value = some (userKey userId) := by
    rw [hvalue, hbound, Option.map_some, cstr_userKey, hlen]
  subst hvalue'
  dsimp only
  have hfall : Program.Ensures E (Program.onlyIf (packet.peek 10 &&& 0x0F != 0)
      (perform (.createThread (.httpDeviceFalldown (packet.slice 0 lenHeartPacketDevice))))) s₁
        fun trace' _ s' => repliesOf trace' = [] ∧ store s' = store s₁ := by
    cases packet.peek 10 &&& 0x0F != 0 with
    | false => exact .ret ⟨rfl, rfl⟩
    | true =>
        refine (perform_ensures hredis rfl s₁).mono ?_
        rintro trace' _ s' ⟨rfl, hsame⟩
        exact ⟨rfl, hsame⟩
  refine hfall.bind ?_
  rintro trace' _ s₂ ⟨htrace', hstore'⟩
  refine (setKeyToredis_ensures hredis _ _ s₂).bind ?_
  rintro trace'' result s₃ ⟨htrace'', rfl, hset⟩
  -- The state of the device is stored under another key than its commands.
  have hmailbox : decodeMailbox (store s₃ (deviceKey (deviceIdAt packet))) info = some r := by
    rw [hset, Function.update_of_ne hne, hstore', hstore, hr]
  rw [if_neg (by decide), deviceIdText_eq]
  refine (takeDeviceCommand_ensures hredis _ hmailbox).mono ?_
  rintro trace₄ result s₄ ⟨htrace₄, hresult, htake⟩
  refine ⟨by simp [htrace, htrace', htrace'', htrace₄], hresult, ?_, ?_, ?_⟩
  · rw [htake, Function.update_self]
  · rw [htake, Function.update_of_ne hne.symm, hset, Function.update_self]
  · intro key hkey hkey'
    rw [htake, Function.update_of_ne hkey, hset, Function.update_of_ne hkey', hstore', hstore]

end Handlers

/-! ## Messages -/

/-- The messages of a run. -/
inductive Request where
  | command (a : Arrival)
  | heartbeat (a : Arrival)

namespace Request

def arrival : Request → Arrival
  | command a => a
  | heartbeat a => a

/-- A command packet or a heartbeat of the right length, between other messages. -/
def WellFormed : Request → Prop
  | command a => a.client.index = 0 ∧ a.message.length = lenCommandPacket ∧
      a.packet.peek 0 = hdrCommandPacket ∧ IsCommand a.packet
  | heartbeat a => a.client.index = 0 ∧ a.message.length = lenHeartPacketDevice ∧
      a.packet.peek 0 = hdrHeartPacketDevice

end Request

/-- The user id in a packet of a phone. -/
def phoneUser (packet : PacketBuffer) : Int :=
  atoi (phoneIdText packet)

/-- The device a user commands and the user a device reports to. -/
structure Bindings where
  device : Int → DeviceId
  user : DeviceId → Int
  user_isInt : ∀ d, IsInt (user d)

namespace Bindings

variable (b : Bindings)

/-- Redis holds the binding of the sender of a message. -/
def Present (store : Text → Option Text) : Request → Prop
  | .command a => store (ascii "RP_" ++ userKey (phoneUser a.packet)) =
      some (deviceKey (b.device (phoneUser a.packet)))
  | .heartbeat a => store (ascii "R_" ++ deviceIdText a.packet) =
      some (userKey (b.user (deviceIdAt a.packet)))

/-- A command is put into the slot of its device, a heartbeat takes it. -/
def event : Request → Slots.Event DeviceId PacketBuffer
  | .command a => .put (b.device (phoneUser a.packet)) a.packet
  | .heartbeat a => .take (deviceIdAt a.packet)

end Bindings

/-- The store holds the commands of the slots. -/
structure Mailboxes (store : Text → Option Text) (slots : DeviceId → Option PacketBuffer) :
    Prop where
  holds : ∀ d, store (deviceKey d) = (slots d).map commandValue
  isCommand : ∀ d packet, slots d = some packet → IsCommand packet

/-- A message changes the slot of one device and the information of one user. -/
theorem Mailboxes.update {store store' : Text → Option Text}
    {slots : DeviceId → Option PacketBuffer} (hmail : Mailboxes store slots) {d : DeviceId}
    {userId : Int} (huser : IsInt userId) (pending : Option PacketBuffer)
    (hcommand : ∀ packet, pending = some packet → IsCommand packet)
    (hset : store' (deviceKey d) = pending.map commandValue)
    (hother : ∀ key, key ≠ deviceKey d → key ≠ userKey userId → store' key = store key) :
    Mailboxes store' (Function.update slots d pending) ∧
      ∀ key, IsRelation key → store' key = store key := by
  refine ⟨⟨?_, ?_⟩, ?_⟩
  · intro d'
    by_cases hd : d' = d
    · subst hd
      rw [hset, Function.update_self]
    · have hkey : deviceKey d' ≠ deviceKey d := fun h => hd (deviceId_text_injective h)
      rw [hother _ hkey (deviceKey_ne_userKey d' huser), hmail.holds, Function.update_of_ne hd]
  · intro d' packet hpacket
    by_cases hd : d' = d
    · rw [hd, Function.update_self] at hpacket
      exact hcommand packet hpacket
    · rw [Function.update_of_ne hd] at hpacket
      exact hmail.isCommand d' packet hpacket
  · intro key hkey
    refine hother key ?_ ?_
    · rintro rfl
      exact deviceKey_not_relation _ hkey
    · rintro rfl
      exact userKey_not_relation _ hkey

/-- The reply that carries the time. -/
def IsTimePacket (reply : List Byte) : Prop :=
  ∃ tblock, reply = ascii "RETOK" ++ [0] ++ writeTimeHeader tblock ++ [0]

/-- What a heartbeat is answered when `pending` is the command in the mailbox. -/
def Answers (pending : Option PacketBuffer) (reply : List Byte) : Prop :=
  match pending with
  | some packet => Carries reply packet
  | none => IsTimePacket reply

/-- A command packet goes to `phoneCommandPacket`. -/
theorem dispatch_command (client : BlockBuffer) (h : client.packet.peek 0 = hdrCommandPacket)
    (blockIndex nbytes : Nat) :
    dispatch client blockIndex nbytes =
      perform (.handler .phoneCommandPacket (client.packet.slice 0 nbytes)) >>= fun _ =>
        phoneCommandPacket client.packet nbytes >>= fun _ => pure (client, blockIndex) := by
  have hheart : ¬ client.packet.peek 0 = hdrHeartPacketDevice := by simp [h]
  have hphone : ¬ client.packet.peek 0 = hdrHeartPacketPhone := by simp [h]
  unfold dispatch
  dsimp only
  rw [if_neg hheart, if_neg hphone, if_pos h]

/-- A heartbeat goes to `deviceHeartPacket` and is answered. -/
theorem dispatch_heartbeat (client : BlockBuffer)
    (h : client.packet.peek 0 = hdrHeartPacketDevice) (blockIndex nbytes : Nat) :
    dispatch client blockIndex nbytes =
      perform (.handler .deviceHeartPacket (client.packet.slice 0 nbytes)) >>= fun _ =>
        deviceHeartPacket client.packet nbytes (Cells.fill 0) >>= fun r =>
          heartReply r.1 r.2 >>= fun _ => pure (client, blockIndex) := by
  unfold dispatch
  dsimp only
  rw [if_pos h]

/-- Without a command the time is sent. -/
theorem heartReply_time_ensures {σ : Type} {E : Environment serverInterface σ}
    {store : σ → Text → Option Text} (hredis : LawfulRedis E store) (info : HeartInfo) (s : σ) :
    Program.Ensures E (heartReply 0 info) s fun trace _ s' =>
      (∃ reply, repliesOf trace = [reply] ∧ IsTimePacket reply) ∧ store s' = store s := by
  have hstore := hredis.store_other s .localtime rfl
  apply Program.Ensures.call
  refine (sendReply_ensures hredis _ _).mono ?_
  rintro trace _ s' ⟨htrace, hsame⟩
  exact ⟨⟨_, htrace, _, rfl⟩, hsame.trans hstore⟩

/-- A heartbeat leaves the state of its device for the user, empties the mailbox and is answered
by what the mailbox held. -/
theorem heartbeat_serve_ensures {σ : Type} {E : Environment serverInterface σ}
    {store : σ → Text → Option Text} (hredis : LawfulRedis E store) {s : σ} {a : Arrival}
    (hwf : (Request.heartbeat a).WellFormed) {userId : Int} (huser : IsInt userId)
    (hbound : store s (ascii "R_" ++ deviceIdText a.packet) = some (userKey userId))
    {r : Int × HeartInfo}
    (hr : decodeMailbox (store s (deviceKey (deviceIdAt a.packet))) (Cells.fill 0) = some r)
    {R : List (List Byte) → Prop} (hreply : ∀ s, Program.Ensures E (heartReply r.1 r.2) s
      fun trace _ s' => R (repliesOf trace) ∧ store s' = store s) :
    Program.Ensures E a.serve s fun trace _ s' => R (repliesOf trace) ∧
      store s' (deviceKey (deviceIdAt a.packet)) = none ∧
        store s' (userKey userId) = some (deviceInfoText a.packet) ∧
          ∀ key, key ≠ deviceKey (deviceIdAt a.packet) → key ≠ userKey userId →
            store s' key = store s key := by
  rcases hwf with ⟨hindex, hlength, hheader⟩
  have hne : a.message ≠ [] := fun h => by simp [h] at hlength
  rw [Arrival.serve_eq hindex hne (by rw [hlength]; decide), hlength,
    dispatch_heartbeat { a.client with packet := a.packet } hheader]
  apply Program.Ensures.effects
  refine (perform_ensures hredis rfl s).bind ?_
  rintro trace _ s₁ ⟨rfl, hstore⟩
  rw [← hstore] at hbound hr
  refine (deviceHeartPacket_ensures hredis huser hbound hr).bind ?_
  rintro trace' _ s₂ ⟨htrace', rfl, htaken, hinfo, hother⟩
  refine (hreply s₂).bind ?_
  rintro trace'' _ s₃ ⟨hR, hsame⟩
  rw [← hsame] at htaken hinfo hother
  rw [hstore] at hother
  refine .ret ⟨?_, htaken, hinfo, hother⟩
  -- Only the last of the three parts replies.
  rw [repliesOf_append, repliesOf_append, repliesOf_append, htrace']
  exact (List.append_nil (repliesOf trace'')).symm ▸ hR

section Steps

variable {σ : Type} {E : Environment serverInterface σ} {store : σ → Text → Option Text}
  {b : Bindings} {slots : DeviceId → Option PacketBuffer}

/-- A command packet puts its command into the slot of its device and is not answered. -/
theorem command_ensures (hredis : LawfulRedis E store) (hrows : LocationsAnswer E) {s : σ}
    {a : Arrival} (hwf : (Request.command a).WellFormed)
    (hbound : b.Present (store s) (.command a)) (hmail : Mailboxes (store s) slots) :
    Program.Ensures E a.serve s fun trace _ s' => repliesOf trace = [] ∧
      Mailboxes (store s') (Slots.step slots (b.event (.command a))) ∧
        ∀ key, IsRelation key → store s' key = store s key := by
  rcases hwf with ⟨hindex, hlength, hheader, hcommand⟩
  have hne : a.message ≠ [] := fun h => by simp [h] at hlength
  have huser : IsInt (phoneUser a.packet) := atoi_isInt _
  rw [Arrival.serve_eq hindex hne (by rw [hlength]; decide), hlength,
    dispatch_command { a.client with packet := a.packet } hheader]
  apply Program.Ensures.effects
  refine (perform_ensures hredis rfl s).bind ?_
  rintro trace _ s₁ ⟨rfl, hstore⟩
  rw [← hstore] at hbound
  refine (phoneCommandPacket_ensures hredis hrows hcommand hbound).bind ?_
  rintro trace' _ s₂ ⟨htrace', hset, hother⟩
  rw [hstore] at hother
  have hupdate := hmail.update huser (some a.packet) (fun packet h => by
    injection h with h
    exact h ▸ hcommand) hset hother
  refine .ret ⟨?_, hupdate⟩
  rw [repliesOf_append, repliesOf_append, htrace']
  rfl

/-- A heartbeat takes the command out of the slot of its device and is answered by it. -/
theorem heartbeat_ensures (hredis : LawfulRedis E store) {s : σ} {a : Arrival}
    (hwf : (Request.heartbeat a).WellFormed) (hbound : b.Present (store s) (.heartbeat a))
    (hmail : Mailboxes (store s) slots) :
    Program.Ensures E a.serve s fun trace _ s' =>
      (∃ reply, repliesOf trace = [reply] ∧ Answers (slots (deviceIdAt a.packet)) reply) ∧
        Mailboxes (store s') (Slots.step slots (b.event (.heartbeat a))) ∧
          ∀ key, IsRelation key → store s' key = store s key := by
  have huser := b.user_isInt (deviceIdAt a.packet)
  -- What the mailbox decodes to decides the reply, the time or the command.
  obtain ⟨r, hr, hreply⟩ : ∃ r,
      decodeMailbox (store s (deviceKey (deviceIdAt a.packet))) (Cells.fill 0) = some r ∧
        ∀ s, Program.Ensures E (heartReply r.1 r.2) s fun trace _ s' =>
          (∃ reply, repliesOf trace = [reply] ∧ Answers (slots (deviceIdAt a.packet)) reply) ∧
            store s' = store s := by
    rw [hmail.holds]
    cases hslot : slots (deviceIdAt a.packet) with
    | none => exact ⟨_, rfl, heartReply_time_ensures hredis _⟩
    | some packet =>
        rcases heartReply_commandValue (hmail.isCommand _ packet hslot) with
          ⟨result, info, reply, hdecode, hsend, hcarries⟩
        refine ⟨(result, info), ?_, ?_⟩
        · rw [decodeMailbox, Option.map_some, Option.map_some, cstr_commandValue,
            List.take_of_length_le ((commandValue_length_le packet).trans (by decide))]
          exact hdecode
        · intro s
          rw [hsend]
          refine (sendReply_ensures hredis reply s).mono ?_
          rintro trace _ s' ⟨htrace, hsame⟩
          exact ⟨⟨reply, htrace, hcarries⟩, hsame⟩
  refine (heartbeat_serve_ensures hredis hwf huser hbound hr (R := fun replies =>
    ∃ reply, replies = [reply] ∧ Answers (slots (deviceIdAt a.packet)) reply) hreply).mono ?_
  rintro trace _ s' ⟨hanswer, htaken, -, hother⟩
  exact ⟨hanswer, hmail.update huser none (fun packet h => by cases h) htaken hother⟩

end Steps

/-! ## Runs -/

/-- The bindings of a message are relations. -/
theorem Bindings.Present.congr {b : Bindings} {store store' : Text → Option Text} {r : Request}
    (h : b.Present store r) (hsame : ∀ key, IsRelation key → store' key = store key) :
    b.Present store' r := by
  cases r with
  | command a => exact (hsame _ (isRelation_phone _)).trans h
  | heartbeat a => exact (hsame _ (isRelation_device _)).trans h

section Run

variable {σ : Type} (E : Environment serverInterface σ)

/-- The state after the messages of a run, one after another. -/
def stateAfter (s : σ) (requests : List Request) : σ :=
  serveAll E s (requests.map Request.arrival)

/-- The operations performed for message number `i` of a run. -/
def traceAt (s : σ) (requests : List Request) (i : Nat) : List Op :=
  match requests[i]? with
  | some r => (r.arrival.serve.run E (stateAfter E s (requests.take i))).trace
  | none => []

theorem stateAfter_concat (s : σ) (requests : List Request) (r : Request) :
    stateAfter E s (requests ++ [r]) = (r.arrival.serve.run E (stateAfter E s requests)).final := by
  rw [stateAfter, List.map_append]
  exact serveAll_concat E s _ r.arrival

variable {E} {store : σ → Text → Option Text} {b : Bindings}

/-- The slots follow the mailboxes through every run. -/
theorem stateAfter_mailboxes (hredis : LawfulRedis E store) (hrows : LocationsAnswer E) (s : σ)
    (hempty : ∀ d, store s (deviceKey d) = none) (requests : List Request) :
    (∀ r ∈ requests, r.WellFormed) → (∀ r ∈ requests, b.Present (store s) r) →
      Mailboxes (store (stateAfter E s requests))
          (Slots.after (fun _ => none) (requests.map b.event)) ∧
        ∀ key, IsRelation key → store (stateAfter E s requests) key = store s key := by
  induction requests using List.reverseRecOn with
  | nil =>
      intro _ _
      exact ⟨⟨hempty, fun _ _ h => by cases h⟩, fun _ _ => rfl⟩
  | append_singleton requests r ih =>
      intro hwf hbound
      have hmem : r ∈ requests ++ [r] := by simp
      rcases ih (fun r' h => hwf r' (by simp [h])) (fun r' h => hbound r' (by simp [h])) with
        ⟨hmail, hsame⟩
      have hpresent := (hbound r hmem).congr hsame
      rw [stateAfter_concat, List.map_append, List.map_singleton, Slots.after_concat]
      cases r with
      | command a =>
          rcases command_ensures hredis hrows (hwf _ hmem) hpresent hmail with
            ⟨_, _, _, hmail', hsame'⟩
          exact ⟨hmail', fun key hkey => (hsame' key hkey).trans (hsame key hkey)⟩
      | heartbeat a =>
          rcases heartbeat_ensures hredis (hwf _ hmem) hpresent hmail with
            ⟨_, _, _, hmail', hsame'⟩
          exact ⟨hmail', fun key hkey => (hsame' key hkey).trans (hsame key hkey)⟩

/-- **Every command is delivered exactly**: a heartbeat is answered by the last command stored for
its device since its previous heartbeat, or by the time; a command answers one heartbeat, and a
heartbeat leaves the commands of other devices alone. -/
theorem mailbox_exact (hredis : LawfulRedis E store) (hrows : LocationsAnswer E) (s : σ)
    (hempty : ∀ d, store s (deviceKey d) = none) (requests : List Request)
    (hwf : ∀ r ∈ requests, r.WellFormed) (hbound : ∀ r ∈ requests, b.Present (store s) r) :
    let delivered := Slots.Delivered (requests.map b.event)
    (∀ (i : Nat) a, requests[i]? = some (.heartbeat a) →
        (∃ reply, repliesOf (traceAt E s requests i) = [reply] ∧
          (∀ (j : Nat) c, delivered j i → requests[j]? = some (.command c) →
            Carries reply c.packet) ∧
          ((¬ ∃ j, delivered j i) → IsTimePacket reply)) ∧
        ∀ d, d ≠ deviceIdAt a.packet →
          store (stateAfter E s (requests.take (i + 1))) (deviceKey d) =
            store (stateAfter E s (requests.take i)) (deviceKey d)) ∧
      ∀ j i i', delivered j i → delivered j i' → i = i' := by
  intro delivered
  refine ⟨?_, fun j i i' => Slots.Delivered.take_unique⟩
  intro i a hi
  have hmem : ∀ r ∈ requests.take i, r ∈ requests := fun r hr => List.mem_of_mem_take hr
  have hheart : Request.heartbeat a ∈ requests := List.mem_of_getElem? hi
  rcases stateAfter_mailboxes hredis hrows s hempty (requests.take i)
    (fun r hr => hwf r (hmem r hr)) (fun r hr => hbound r (hmem r hr)) with ⟨hmail, hsame⟩
  rcases heartbeat_ensures hredis (hwf _ hheart) ((hbound _ hheart).congr hsame) hmail with
    ⟨_, _, ⟨reply, hreply, hanswers⟩, hmail', -⟩
  have hevent : (requests.map b.event)[i]? = some (.take (deviceIdAt a.packet)) := by
    rw [List.getElem?_map, hi]
    rfl
  have hslot := Slots.after_take_iff hevent
  rw [← List.map_take] at hslot
  refine ⟨⟨reply, ?_, ?_, ?_⟩, ?_⟩
  · rw [traceAt, hi]
    exact hreply
  · intro j c hj hc
    have hput : (requests.map b.event)[j]? =
        some (.put (b.device (phoneUser c.packet)) c.packet) := by
      rw [List.getElem?_map, hc]
      rfl
    -- The command stands in the slot of the device of the heartbeat.
    have hkey : b.device (phoneUser c.packet) = deviceIdAt a.packet := by
      rcases hj.put_take with ⟨key, value, hj', hi', -⟩
      have hsame := Option.some.inj (hj'.symm.trans hput)
      have hsame' := Option.some.inj (hi'.symm.trans hevent)
      injection hsame with hkey
      injection hsame' with hkey'
      rw [← hkey, hkey']
    rw [hkey] at hput
    rw [(hslot c.packet).mpr ⟨j, hj, hput⟩] at hanswers
    exact hanswers
  · intro hnone
    cases hpending : Slots.after (fun _ => none) ((requests.take i).map b.event)
        (deviceIdAt a.packet) with
    | some packet =>
        rcases (hslot packet).mp hpending with ⟨j, hj, -⟩
        exact absurd ⟨j, hj⟩ hnone
    | none =>
        rw [hpending] at hanswers
        exact hanswers
  · intro d hd
    have hnext : requests.take (i + 1) = requests.take i ++ [.heartbeat a] := by
      rw [List.take_add_one, hi]
      rfl
    rw [hnext, stateAfter_concat, hmail.holds d]
    refine (hmail'.holds d).trans ?_
    rw [Bindings.event, Slots.step, Function.update_of_ne hd]

/-- User 7 sets a phone number of its device, and the next heartbeat brings it. -/
theorem mailbox_exact_number :
    let d : DeviceId := Vector.replicate 8 0x11
    let w := (World.empty.setRedis (ascii "RP_7") (some (deviceKey d))).setRedis
      (ascii "R_1111111111111111") (some (ascii "7"))
    let command : Arrival := ⟨BlockBuffer.zero, [0x43, 0x00, 0x00, 0x00, 0x07, 0x41, 0x01, 0x00,
      0x86, 0x18, 0x87, 0x41, 0x87, 0x42, 0x90, 0x43]⟩
    let heartbeat : Arrival := ⟨BlockBuffer.zero, 0x48 :: List.replicate 8 0x11 ++
      List.replicate 23 0⟩
    ∃ reply, repliesOf (traceAt world w [.command command, .heartbeat heartbeat] 1) = [reply] ∧
      Carries reply command.packet := by
  intro d w command heartbeat
  let b : Bindings := ⟨fun _ => d, fun _ => 7, fun _ => ⟨by decide, by decide⟩⟩
  have hempty : ∀ d', w.redis (deviceKey d') = none := by
    intro d'
    have hne : ∀ key, IsRelation key → deviceKey d' ≠ key := by
      rintro key hkey rfl
      exact deviceKey_not_relation _ hkey
    have hphone := hne (ascii "RP_7") rfl
    have hdevice := hne (ascii "R_1111111111111111") rfl
    simp only [w, World.redis_setRedis, if_neg hphone, if_neg hdevice]
    rfl
  have hwf : ∀ r ∈ [Request.command command, .heartbeat heartbeat], r.WellFormed := by
    intro r hr
    rcases List.mem_pair.mp hr with rfl | rfl
    · exact ⟨rfl, by decide, by decide, ⟨by decide, fun _ _ => by decide +kernel⟩⟩
    · exact ⟨rfl, by decide, by decide⟩
  have hbound : ∀ r ∈ [Request.command command, .heartbeat heartbeat],
      b.Present (World.redis w) r := by
    intro r hr
    rcases List.mem_pair.mp hr with rfl | rfl
    · change w.redis _ = _
      decide
    · change w.redis _ = _
      decide
  -- The heartbeat is the first after the command.
  have hdelivered : Slots.Delivered ([Request.command command, .heartbeat heartbeat].map b.event)
      0 1 := by
    have hdevice : deviceIdAt heartbeat.packet = d := by decide
    refine ⟨Nat.one_pos, d, command.packet, rfl, ?_, ?_⟩
    · exact congrArg (fun d => some (Slots.Event.take d)) hdevice
    · intro m hm hm'
      omega
  rcases (mailbox_exact world_lawfulRedis world_locationsAnswer w hempty _ hwf hbound).1 1
    heartbeat rfl with ⟨⟨reply, hreply, hcarries, -⟩, -⟩
  exact ⟨reply, hreply, hcarries 0 command hdelivered rfl⟩

end Run

end RobotServer
