import RobotServer.Model.Copies
import RobotServer.Status.PhoneId
import RobotServer.Sync.BadWorkload
import RobotServer.Transfer.Bounds

/-!
# Destinations — room for the texts of a handler

Every text that the handlers of heartbeats, phone commands and uploaded blocks copy has an array of
its own.  `textCopies_fit_iff` says for which messages and which stored values all of them fit and
the handler returns: what a run does behind an access outside its arrays is nobody's guess, so that
such a run does not count as one that fits.
-/

namespace RobotServer

open CText Memory Interaction

/-! ## Stored bindings -/

/-- What is stored under the keys of bindings is as long as `sync_UserAndDeviceRelationShip` makes
it (`SyncData.writes_relationship`). -/
structure BindingsWritten {σ : Type} (E : Environment serverInterface σ) (s : σ) : Prop where
  user : ∀ deviceId value,
    (E.answer (.redisGet (ascii "R_" ++ deviceId)) s).1 = some value → value.length ≤ 16
  device : ∀ userId value,
    (E.answer (.redisGet (ascii "RP_" ++ userId)) s).1 = some value → value.length ≤ 17

namespace SyncData

/-- The command sets a device of at most 17 characters for a user, or a user of at most 16 for a
device. -/
def WritesBinding (formatCommand : Text → Option (List Text)) (op : SyncOp) : Prop :=
  ∃ key value argv, op = .redisCommand argv ∧
    formatCommand (ascii "set " ++ key ++ ascii " " ++ value) = some argv ∧
      ((∃ userId, key = ascii "RP_" ++ userId ∧ value.length ≤ 17) ∨
        ∃ deviceId, key = ascii "R_" ++ deviceId ∧ value.length ≤ 16)

variable {formatCommand : Text → Option (List Text)} {json : JsonC}

theorem name_length_le_of_parsed (hprints : json.PrintsText) {text : Text} {type : RecordType}
    {id name : Text} (h : parserJsonTokener json text type = some (id, name)) :
    name.length ≤ 17 := by
  cases hparse : json.parse text with
  | none =>
      rw [parserJsonTokener_error hparse] at h
      cases h
      exact Nat.zero_le _
  | some object =>
      by_cases hheard : ∃ body,
          Heard (json.print (json.objectGet object (nameField type))) body
      · rcases hheard with ⟨body, hheard⟩
        have hle := hheard.name_length_le
        rcases hheard with ⟨-, hquote, first, rest, hprinted⟩
        have hzero : (0 : Byte) ∉ body := by
          intro hmem
          refine hprints.notMem (json.objectGet object (nameField type)) ?_
          rw [hprinted]
          exact List.mem_cons_of_mem _ (List.mem_append_left _ hmem)
        rw [parserJsonTokener_printed hparse hprinted rfl hquote hzero (hprints.notMem _)] at h
        split at h
        · cases h
          exact hle
        · cases h
      · rw [parserJsonTokener_unheard hparse hheard] at h
        cases h

theorem setKeyToredis_performs {P : SyncOp → Prop} {key value : Text}
    (h : ∀ argv, formatCommand (ascii "set " ++ key ++ ascii " " ++ value) = some argv →
      P (.redisCommand argv)) : (setKeyToredis formatCommand key value).Performs P := by
  rw [setKeyToredis]
  split
  · cases hargv : formatCommand (ascii "set " ++ key ++ ascii " " ++ value) with
    | none => trivial
    | some argv =>
        refine ⟨h argv hargv, fun ok => ?_⟩
        cases ok with
        | false => trivial
        | true => trivial
  · trivial

theorem setRelationship_writes {userId deviceId : Text} (hdevice : deviceId.length ≤ 17) :
    (setRelationship formatCommand userId deviceId).Performs (WritesBinding formatCommand) := by
  have hprefix : (ascii "RP_").length = 3 := by decide
  unfold setRelationship sprintf
  split
  · next huser =>
      rw [List.length_append, hprefix] at huser
      refine (setKeyToredis_performs fun argv hargv =>
        ⟨_, _, argv, rfl, hargv, .inl ⟨userId, rfl, hdevice⟩⟩).bind fun result => ?_
      split
      · trivial
      · split
        · refine (setKeyToredis_performs fun argv hargv =>
            ⟨_, _, argv, rfl, hargv, .inr ⟨deviceId, rfl, by omega⟩⟩).bind fun result => ?_
          split
          · trivial
          · trivial
        · trivial
  · trivial

/-- A job for a binding writes nothing longer. -/
theorem writes_relationship (hprints : json.PrintsText) (workload : List Byte) :
    (syncUserAndDeviceRelationShip formatCommand json workload).Performs
      (WritesBinding formatCommand) := by
  refine (Program.performs_ofOption _).bind fun text => ?_
  cases hparsed : parserJsonTokener json text .userAndDeviceRelationship with
  | none => trivial
  | some fields =>
      have hdevice := name_length_le_of_parsed hprints hparsed
      refine (setRelationship_writes hdevice).bind fun result => ?_
      split
      · trivial
      · trivial

end SyncData

/-! ## Rules -/

section Rules

variable {σ : Type} {E : Environment serverInterface σ} {s : σ}

/-- Every copy of the run fits, and the run returns. -/
abbrev Fit {α : Type} (E : Environment serverInterface σ) (p : Noted α) (s : σ) : Prop :=
  p.Sound E TextCopy.Fits s

theorem fit_copied_bind {α : Type} {room : Nat} {text : Text} {f : Unit → Noted α} :
    Fit E (Copies.copied room text >>= f) s ↔ text.length < room ∧ Fit E (f ()) s :=
  Program.sound_note_bind _ _

theorem fit_copied {room : Nat} {text : Text} :
    Fit E (Copies.copied room text) s ↔ text.length < room :=
  Program.sound_note _

theorem fit_ret {α : Type} {a : α} : Fit E (pure a : Noted α) s :=
  Program.sound_ret a

/-- A program whose continuations copy nothing. -/
theorem fit_bind_of_forall {α β : Type} {p : Noted α} {f : α → Noted β}
    (h : ∀ a s', Fit E (f a) s') : Fit E (p >>= f) s ↔ Fit E p s :=
  (Program.sound_bind p f).trans (and_iff_left fun a _ => h a _)

/-- Without a copy it is left to return. -/
theorem fit_silent_of_total {α : Type} {p : Action α} (h : p.Total) : Fit E p.silent s :=
  (Program.sound_silent p).mpr (h.isSome_result E s)

theorem fit_setKeyToredis {key value : Text} :
    Fit E (Copies.setKeyToredis key value) s ↔ key.length + value.length < 251 := by
  have hlength : (ascii "set " ++ key ++ ascii " " ++ value).length =
      key.length + value.length + 5 := by
    have hset : (ascii "set ").length = 4 := by decide
    have hspace : (ascii " ").length = 1 := by decide
    simp only [List.length_append, hset, hspace]
    omega
  refine (fit_copied_bind.trans
    (and_iff_left (fit_silent_of_total (setKeyToredis_total key value)))).trans ?_
  rw [hlength]
  change _ < 256 ↔ _
  omega

theorem fit_delRedisKey {key : Text} :
    Fit E (Copies.delRedisKey key) s ↔ key.length < 252 := by
  have hdel : (ascii "del ").length = 4 := by decide
  refine (fit_copied_bind.trans
    (and_iff_left (fit_silent_of_total (Program.total_perform _)))).trans ?_
  rw [List.length_append, hdel]
  change _ < 256 ↔ _
  omega

theorem fit_getValueFromredis {room : Nat} {key : Text} :
    Fit E (Copies.getValueFromredis room key) s ↔ key.length < 252 ∧
      ∀ stored, (E.answer (.redisGet key) s).1 = some stored → (readText stored).length < room := by
  have hget : (ascii "get ").length = 4 := by decide
  refine fit_copied_bind.trans (and_congr ?_ ?_)
  · rw [List.length_append, hget]
    change _ < 256 ↔ _
    omega
  · refine (Program.sound_silent_bind _ _).trans ?_
    rw [run_getValueFromredis]
    simp only [Option.some.injEq, exists_eq_left']
    cases (E.answer (.redisGet key) s).1 with
    | none => exact iff_of_true fit_ret fun stored h => nomatch h
    | some stored =>
        simp only [Option.map_some, Option.some.injEq, forall_eq']
        exact fit_copied_bind.trans (and_iff_left fit_ret)

/-- A read and what is done with its value. -/
theorem fit_getValueFromredis_bind {α : Type} {room : Nat} {key : Text}
    {f : Option Text → Noted α} :
    Fit E (Copies.getValueFromredis room key >>= f) s ↔
      (key.length < 252 ∧ ∀ stored, (E.answer (.redisGet key) s).1 = some stored →
        (readText stored).length < room) ∧
      Fit E (f ((E.answer (.redisGet key) s).1.map readText)) (E.answer (.redisGet key) s).2 := by
  refine (Program.sound_bind _ _).trans (and_congr fit_getValueFromredis ?_)
  rw [Copies.erase_getValueFromredis, run_getValueFromredis]
  constructor
  · intro h
    exact h _ rfl
  · rintro h value ⟨⟩
    exact h

end Rules

/-! ## Heartbeats -/

section Heartbeats

variable {σ : Type} {E : Environment serverInterface σ} {s : σ}

theorem deviceInfoText_length_le (packet : PacketBuffer) : (deviceInfoText packet).length ≤ 38 := by
  have htime : (intText (intAt packet idxDeviceHeartpacketTimestamp)).length ≤ 11 :=
    userKey_length_le (bmod_isInt _)
  have hprefix : (ascii "I_").length = 2 := by decide
  have hsep : (ascii "_").length = 1 := by decide
  simp only [deviceInfoText, List.length_append, hextostring_length, Cells.slice_length, hprefix,
    hsep, lenDeviceInfo]
  omega

theorem fit_takeDeviceCommand {u8DeviceId : Text} (h : u8DeviceId.length = 16) (info : HeartInfo) :
    Fit E (Copies.takeDeviceCommand u8DeviceId info) s ↔ CommandDecodes E u8DeviceId info s := by
  have hdel : ∀ s', Fit E (Copies.delRedisKey u8DeviceId) s' := fun s' =>
    fit_delRedisKey.mpr (by omega)
  refine fit_getValueFromredis_bind.trans ((and_iff_right ?_).trans ?_)
  · exact ⟨by omega, fun stored _ => readText_length_lt stored⟩
  · unfold CommandDecodes
    cases (E.answer (.redisGet u8DeviceId) s).1 with
    | none => exact iff_of_true fit_ret fun command hcommand => nomatch hcommand
    | some command =>
        simp only [Option.map_some, Option.some.injEq, forall_eq']
        split
        · next hshort =>
            refine iff_of_true ?_ fun hlong => absurd hshort (not_lt.mpr hlong)
            exact (fit_bind_of_forall fun _ _ => fit_ret).mpr (hdel _)
        · next hlong =>
            refine (Program.sound_ofOption_bind _ _).trans ?_
            rw [Option.isSome_iff_exists]
            constructor
            · rintro ⟨decoded, hdecoded, -⟩ _
              exact ⟨decoded, hdecoded⟩
            · intro hsome
              rcases hsome (not_lt.mp hlong) with ⟨decoded, hdecoded⟩
              exact ⟨decoded, hdecoded, (fit_bind_of_forall fun _ _ => fit_ret).mpr (hdel _)⟩

/-- The part of a heartbeat behind the read of its user. -/
theorem fit_tellUser {packet : PacketBuffer} {user : Text} (huser : user.length ≤ 16)
    {f : Int → Noted (Int × HeartInfo)} :
    Fit E (do
      (Program.onlyIf (packet.peek 10 &&& 0x0F != 0)
        (perform (.createThread
          (.httpDeviceFalldown (packet.slice 0 lenHeartPacketDevice))))).silent
      Copies.copied redisCommandLength (hextostring (packet.slice idxDevicePower lenDeviceInfo))
      Copies.copied redisCommandLength (deviceInfoText packet)
      let result ← Copies.setKeyToredis user (deviceInfoText packet)
      f result) s ↔
    let told := E.answer (.redisSet user (deviceInfoText packet)) (fallReported E packet s)
    Fit E (f (if told.1 = true then 0 else -1)) told.2 := by
  have hinfo := deviceInfoText_length_le packet
  rcases run_reportFall E packet s with ⟨trace, hfall⟩
  refine (Program.sound_silent_bind _ _).trans ?_
  simp only [hfall, true_and, exists_const]
  refine fit_copied_bind.trans ((and_iff_right ?_).trans ?_)
  · rw [hextostring_length, Cells.slice_length]
    decide
  refine fit_copied_bind.trans ((and_iff_right (hinfo.trans_lt (by decide))).trans ?_)
  refine (Program.sound_bind _ _).trans
    ((and_iff_right (fit_setKeyToredis.mpr (by omega))).trans ?_)
  rw [Copies.erase_setKeyToredis, run_setKeyToredis]
  simp only [Option.some.injEq, forall_eq']

theorem fit_deviceHeartPacket (hbindings : BindingsWritten E s) (packet : PacketBuffer)
    (info : HeartInfo) :
    Fit E (Copies.deviceHeartPacket packet lenHeartPacketDevice info) s ↔
      HeartbeatDecodes E packet info s := by
  have hid := deviceIdText_length packet
  have hkey : (ascii "R_" ++ deviceIdText packet).length = 18 := by
    have hprefix : (ascii "R_").length = 2 := by decide
    rw [List.length_append, hprefix, hid]
  rw [Copies.deviceHeartPacket, if_neg (not_not.mpr rfl), fit_copied_bind,
    and_iff_right (by rw [hid]; decide), fit_copied_bind, and_iff_right (by rw [hkey]; decide),
    fit_getValueFromredis_bind,
    and_iff_right ⟨by omega, fun stored _ => readText_length_lt stored⟩]
  dsimp only [HeartbeatDecodes]
  cases hstored : (E.answer (.redisGet (ascii "R_" ++ deviceIdText packet)) s).1 with
  | none => exact iff_of_true fit_ret fun user h => nomatch h
  | some stored =>
      -- The value is the user that a job bound to the device.
      have hread : (readText stored).length ≤ 16 := by
        have hle := hbindings.user _ _ hstored
        have hcstr := cstr_length_le stored
        rw [readText_length]
        omega
      simp only [Option.map_some, Option.some.injEq, forall_eq']
      rw [fit_tellUser hread]
      dsimp only
      split
      · next htold =>
          rw [if_neg (by decide), fit_takeDeviceCommand hid]
          exact ⟨fun h _ => h, fun h => h htold⟩
      · next hfailed => exact iff_of_true fit_ret fun htold => absurd htold hfailed

end Heartbeats

/-! ## Commands of a phone -/

section Phones

variable {σ : Type} {E : Environment serverInterface σ} {s : σ}

/-- The query for the rows of a device has a result, and its first row, if there is one, fits the
arrays of `selectLocationNewItem`, for a user whose id has seven digits. -/
def LocationFits (E : Environment serverInterface σ) (u8DeviceId : Text) (userId : Nat) (s : σ) :
    Prop :=
  ∃ rows, (E.answer (.executeQuery .selectLocationNewinfo [u8DeviceId]) s).1 = some rows ∧
    ∀ row, rows.head? = some row → ∃ lng lat high more, row = lng :: lat :: high :: more ∧
      lng.length ≤ 11 ∧ lat.length ≤ 11 ∧ high.length ≤ 11 ∧ userId < 10 ^ 7

theorem locationNewItemText_length (lng lat high : Text) :
    (locationNewItemText lng lat high).length = lng.length + lat.length + high.length + 12 := by
  have hprefix : (ascii "G_").length = 2 := by decide
  have hsep : (ascii "_").length = 1 := by decide
  have hzero : (ascii "_1_12345").length = 8 := by decide
  have hother : (ascii "_0_12345").length = 8 := by decide
  have hend : (if high.headD 0 = 0x30 then ascii "_1_12345" else ascii "_0_12345").length = 8 := by
    split
    · exact hzero
    · exact hother
  simp only [locationNewItemText, List.length_append, hprefix, hsep, hend]
  omega

theorem fit_selectLocationNewItem {u8DeviceId : Text} {userId : Nat} :
    Fit E (Copies.selectLocationNewItem u8DeviceId userId) s ↔
      LocationFits E u8DeviceId userId s := by
  have hdigits := @natText_length_le_iff userId 7 (by decide)
  refine (Program.sound_silent_bind _ _).trans ?_
  rw [perform, Program.perform, Program.run_call, Program.run_ret, intText_natCast]
  unfold LocationFits
  simp only [Option.some.injEq, exists_eq_left']
  rcases (E.answer (.executeQuery .selectLocationNewinfo [u8DeviceId]) s).1 with
    _ | _ | ⟨_ | ⟨lng, _ | ⟨lat, _ | ⟨high, more⟩⟩⟩, rows⟩
  -- Without a result, or without three columns in the row, the handler reads a null pointer.
  · exact iff_of_false Program.not_sound_fault (by rintro ⟨_, ⟨⟩, -⟩)
  · exact iff_of_true fit_ret ⟨[], rfl, fun row h => nomatch h⟩
  · exact iff_of_false Program.not_sound_fault
      (by rintro ⟨_, ⟨⟩, h⟩; rcases h _ rfl with ⟨_, _, _, _, ⟨⟩, -⟩)
  · exact iff_of_false Program.not_sound_fault
      (by rintro ⟨_, ⟨⟩, h⟩; rcases h _ rfl with ⟨_, _, _, _, ⟨⟩, -⟩)
  · exact iff_of_false Program.not_sound_fault
      (by rintro ⟨_, ⟨⟩, h⟩; rcases h _ rfl with ⟨_, _, _, _, ⟨⟩, -⟩)
  · have htext := locationNewItemText_length lng lat high
    constructor
    · intro h
      rcases fit_copied_bind.mp h with ⟨hlng, hrest⟩
      rcases fit_copied_bind.mp hrest with ⟨hlat, hrest⟩
      rcases fit_copied_bind.mp hrest with ⟨hhigh, hrest⟩
      rcases fit_copied_bind.mp hrest with ⟨-, hrest⟩
      rcases fit_copied_bind.mp hrest with ⟨huser, -⟩
      refine ⟨_, rfl, ?_⟩
      rintro _ ⟨⟩
      exact ⟨lng, lat, high, more, rfl, Nat.le_of_lt_succ hlng, Nat.le_of_lt_succ hlat,
        Nat.le_of_lt_succ hhigh, hdigits.mp (Nat.le_of_lt_succ huser)⟩
    · rintro ⟨_, ⟨⟩, h⟩
      rcases h _ rfl with ⟨_, _, _, _, ⟨⟩, hlng, hlat, hhigh, huser⟩
      have hid := hdigits.mpr huser
      refine fit_copied_bind.mpr ⟨Nat.lt_succ_of_le hlng, ?_⟩
      refine fit_copied_bind.mpr ⟨Nat.lt_succ_of_le hlat, ?_⟩
      refine fit_copied_bind.mpr ⟨Nat.lt_succ_of_le hhigh, ?_⟩
      refine fit_copied_bind.mpr ⟨by change _ < 256; omega, ?_⟩
      refine fit_copied_bind.mpr ⟨Nat.lt_succ_of_le hid, ?_⟩
      exact (fit_bind_of_forall fun _ _ => fit_ret).mpr (fit_setKeyToredis.mpr (by omega))

theorem contractValue_length_le {packet : PacketBuffer}
    (h : checkPhoneCommand (packet.peek idxPhoneCommand) = 4) :
    (contractValue packet).length ≤ 26 := by
  have hle := commandValue_length_le packet
  rwa [commandValue, if_pos h] at hle

/-- The device of the user has an id of 16 characters at most, and for a location command its first
row fits as well. -/
def PhoneCommandFits (E : Environment serverInterface σ) (packet : PacketBuffer) (s : σ) : Prop :=
  let reply := E.answer (.redisGet (ascii "RP_" ++ intText (phoneUser packet))) s
  ∀ deviceId, reply.1 = some deviceId → (cstr deviceId).length ≤ 16 ∧
    (packet.peek idxPhoneCommand = cmdPhoneDeviceRealtimeLocation →
      LocationFits E (cstr deviceId) (idNumber (phoneIdAt packet)) reply.2)

theorem idNumber_phoneId_lt (packet : PacketBuffer) : idNumber (phoneIdAt packet) < 10 ^ 8 := by
  have hlt := idNumber_lt (phoneIdAt packet)
  rw [phoneIdAt, Cells.slice_length] at hlt
  exact hlt

/-- An id of four bytes has eight digits. -/
theorem phoneUser_text_length_le (packet : PacketBuffer) :
    (intText (phoneUser packet)).length ≤ 8 := by
  rw [phoneUser_eq, intText_natCast]
  exact natText_length_le (by decide) (idNumber_phoneId_lt packet)

theorem natText_byte_length_le (b : Byte) : (natText b.toNat).length ≤ 3 :=
  natText_length_le (by decide) (b.toNat_lt.trans (by decide))

theorem fit_onlyIf {c : Bool} {p : Noted Unit} :
    Fit E (Program.onlyIf c p) s ↔ (c = true → Fit E p s) := by
  cases c with
  | false => exact iff_of_true fit_ret fun h => nomatch h
  | true => exact ⟨fun h _ => h, fun h => h rfl⟩

/-- The command that is kept for a device. -/
theorem fit_keepCommand {u8DeviceId value : Text} (hid : u8DeviceId.length ≤ 16)
    (hvalue : value.length ≤ 26) :
    Fit E (Copies.setKeyToredis u8DeviceId value >>= fun result =>
      pure (if result = -1 then -2 else 0)) s :=
  (fit_bind_of_forall fun _ _ => fit_ret).mpr (fit_setKeyToredis.mpr (by omega))

/-- A command with a number is copied twice before it is kept. -/
theorem fit_contractCopies {packet : PacketBuffer} {c : Bool} {f : Noted Int}
    (hfour : checkPhoneCommand (packet.peek idxPhoneCommand) = 4) (hf : ∀ s', Fit E f s') :
    Fit E (do
      Program.onlyIf c (Copies.copied (lenPhoneNumber * 2 + 2)
        (hextostring (packet.slice idxPhoneCmdNumber lenPhoneNumber)))
      Copies.copied 48 (contractValue packet)
      f) s := by
  have hvalue := contractValue_length_le hfour
  refine (Program.sound_bind _ _).mpr ⟨fit_onlyIf.mpr fun _ => fit_copied.mpr ?_, fun _ _ => ?_⟩
  · rw [hextostring_length, Cells.slice_length]
    decide
  · exact fit_copied_bind.mpr ⟨by omega, hf _⟩

theorem phoneIdText_length (packet : PacketBuffer) : (phoneIdText packet).length = 8 := by
  rw [phoneIdText, hextostring_length, Cells.slice_length]
  rfl

theorem phoneKey_length_le (packet : PacketBuffer) :
    (ascii "RP_" ++ intText (idNumber (phoneIdAt packet))).length ≤ 11 := by
  have hprefix : (ascii "RP_").length = 3 := by decide
  have huser := phoneUser_text_length_le packet
  rw [phoneUser_eq] at huser
  rw [List.length_append, hprefix]
  omega

theorem fit_phoneCommandPacket (packet : PacketBuffer) :
    Fit E (Copies.phoneCommandPacket packet lenCommandPacket) s ↔ PhoneCommandFits E packet s := by
  have hphone := phoneIdText_length packet
  have hkey := phoneKey_length_le packet
  have huser : atoi (phoneIdText packet) = idNumber (phoneIdAt packet) := phoneUser_eq packet
  rw [PhoneCommandFits, phoneUser_eq]
  rw [Copies.phoneCommandPacket, if_neg (not_not.mpr rfl), huser, fit_copied_bind,
    and_iff_right (by rw [hphone]; decide), fit_copied_bind,
    and_iff_right (hkey.trans_lt (by decide)), fit_getValueFromredis_bind,
    and_iff_right (hkey.trans_lt (by decide))]
  dsimp only
  cases (E.answer (.redisGet (ascii "RP_" ++ intText (idNumber (phoneIdAt packet)))) s).1 with
  | none =>
      refine iff_of_true ⟨?_, fit_ret⟩ ?_
      · rintro _ ⟨⟩
      · rintro _ ⟨⟩
  | some deviceId =>
      have hlength : (readText deviceId).length < lenDeviceId * 2 + 1 ↔
          (cstr deviceId).length ≤ 16 := by
        rw [readText_length]
        change _ < 17 ↔ _
        omega
      simp only [Option.some.injEq, forall_eq', Option.map_some, hlength]
      refine and_congr_right fun hid => ?_
      rw [readText_of_le (hid.trans (by decide))]
      have hclass := @checkPhoneCommand_location (packet.peek idxPhoneCommand)
      -- Only the branch of the location command copies anything that need not fit.
      split
      · next hfour =>
          refine iff_of_true ?_ fun h => absurd ((hclass h).symm.trans hfour) (by decide)
          exact fit_contractCopies hfour fun _ =>
            fit_keepCommand hid (contractValue_length_le hfour)
      · split
        · next hseven =>
            exact iff_of_true fit_ret fun h => absurd ((hclass h).symm.trans hseven) (by decide)
        · split
          · next hthree =>
              exact iff_of_true fit_ret fun h => absurd ((hclass h).symm.trans hthree) (by decide)
          · split
            · have hcmd := natText_byte_length_le (packet.peek idxPhoneCommand)
              rw [fit_copied_bind, and_iff_right (by omega)]
              refine (Program.sound_bind _ _).trans ((and_iff_left fun _ _ => ?_).trans ?_)
              · exact fit_keepCommand hid (by omega)
              · refine fit_onlyIf.trans ?_
                rw [beq_iff_eq, fit_selectLocationNewItem]
            · next hnone =>
                exact iff_of_true fit_ret fun h => absurd ((hclass h).symm ▸ le_rfl) hnone

end Phones

/-! ## Uploaded blocks -/

section Blocks

variable {σ : Type} {E : Environment serverInterface σ} {s : σ}

/-- The packet completes its block: it is the last one, and its bytes are there. -/
def CompletesBlock (client : BlockBuffer) (received : Nat) : Prop :=
  let header := blockHeader client.packet
  header.pktIndex + 1 = header.pktTotal ∧
    toUnsigned (header.dataLength + lenHeaderLength) ≤ received

/-- The packet completes no block, and if it is stored its data stays inside the block. -/
def BlockUploadFits (client : BlockBuffer) (received : Nat) : Prop :=
  let header := blockHeader client.packet
  ¬ CompletesBlock client received ∧
    (received = lenBlockPacket → header.pktIndex + 1 ≠ header.pktTotal → header.StoreFits)

/-- The path of a block has 40 characters. -/
theorem genBlockFilePathName_length (packet : PacketBuffer) :
    (genBlockFilePathName (deviceIdText packet)).length = 40 := by
  have hprefix : (ascii "/usr/RServer/block_data/").length = 24 := by decide
  rw [genBlockFilePathName, List.length_append, hprefix, deviceIdText_length]

/-- Whatever is done with the data of the last packet, its path is too long. -/
theorem fit_saveBlock (client : BlockBuffer) (received : Nat) :
    Fit E (Copies.saveBlock client (blockHeader client.packet) received) s ↔
      ¬ CompletesBlock client received := by
  unfold Copies.saveBlock CompletesBlock
  dsimp only
  split
  · next hlast =>
      refine iff_of_false ?_ (not_not.mpr hlast)
      intro h
      rcases (Program.sound_ofOption_bind _ _).mp h with ⟨buffer, -, hrest⟩
      have hpath := (fit_copied_bind.mp (fit_copied_bind.mp hrest).2).1
      rw [genBlockFilePathName_length] at hpath
      exact absurd hpath (by decide)
  · next hlast => exact iff_of_true fit_ret hlast

theorem fit_blockDataRecv (client : BlockBuffer) (blockIndex nbytes : Nat) :
    Fit E (Copies.blockDataRecv client blockIndex nbytes) s ↔
      BlockUploadFits client (blockIndex + nbytes) := by
  unfold BlockUploadFits
  by_cases hlast : (blockHeader client.packet).pktIndex + 1 = (blockHeader client.packet).pktTotal
  · -- The last packet of a block is never stored by the first test.
    refine (Program.sound_silent_bind _ _).trans ?_
    rw [storePacket, if_neg fun h => h.2 hlast, Program.pure_eq_ret, Program.run_ret]
    simp only [Option.some.injEq, exists_eq_left', hlast, ne_eq, not_true_eq_false,
      false_imp_iff, imp_true_iff, and_true]
    exact fit_saveBlock { client with index := blockIndex + nbytes } (blockIndex + nbytes)
  · have hcompletes : ¬ CompletesBlock client (blockIndex + nbytes) := fun h => hlast h.1
    have hnotes : (Copies.blockDataRecv client blockIndex nbytes).AllNotes E TextCopy.Fits s := by
      refine (Program.allNotes_bind _ _).mpr ⟨Program.allNotes_silent _, fun stored _ => ?_⟩
      rcases stored with ⟨client', index⟩
      change (Copies.saveBlock client' (blockHeader client.packet) index).AllNotes _ _ _
      rw [Copies.saveBlock, if_neg fun h => hlast h.1]
      exact Program.allNotes_ret _
    -- Without a copy it is left to return, which a stored packet decides.
    rw [Fit, Program.Sound, and_iff_right hnotes, Copies.erase_blockDataRecv,
      and_iff_right hcompletes]
    by_cases hfull : blockIndex + nbytes = lenBlockPacket
    · rw [storePacket_isSome_iff E s hfull hlast, within_store_iff]
      exact ⟨fun h _ _ => h, fun h => h hfull hlast⟩
    · refine iff_of_true ?_ fun h => absurd h hfull
      simp only [blockDataRecv]
      rw [storePacket, if_neg fun h => hfull h.1, Program.pure_eq_ret, Program.ret_bind, saveBlock,
        if_neg fun h => hlast h.1]
      rfl

end Blocks

/-! ## All handlers -/

section Calls

variable {σ : Type}

/-- What a message and the stored values must satisfy for its texts to fit. -/
def HandlerCall.Within (E : Environment serverInterface σ) (s : σ) : HandlerCall → Prop
  | .heartbeat packet length info =>
      length = lenHeartPacketDevice → HeartbeatDecodes E packet info s
  | .phoneCommand packet length => length = lenCommandPacket → PhoneCommandFits E packet s
  | .blockUpload client blockIndex nbytes => BlockUploadFits client (blockIndex + nbytes)

/-- **Every copied text fits its array and the handler returns exactly when the call is within its
bounds**: a heartbeat finds a command that can be decoded, a phone command meets a short id, short
rows and, for a location, a user of seven digits, and no upload completes a block. -/
theorem textCopies_fit_iff (E : Environment serverInterface σ) (s : σ)
    (hbindings : BindingsWritten E s) (call : HandlerCall) :
    call.copies.AllNotes E TextCopy.Fits s ∧ (call.handle.run E s).result.isSome ↔
      call.Within E s := by
  rw [← HandlerCall.erase_copies]
  change Fit E call.copies s ↔ _
  cases call with
  | heartbeat packet length info =>
      refine (Program.sound_effects _).trans ?_
      change _ ↔ (length = lenHeartPacketDevice → _)
      by_cases hlength : length = lenHeartPacketDevice
      · rw [hlength]
        refine (fit_deviceHeartPacket hbindings packet info).trans ?_
        exact ⟨fun h _ => h, fun h => h rfl⟩
      · rw [Copies.deviceHeartPacket, if_pos hlength]
        exact iff_of_true fit_ret fun h => absurd h hlength
  | phoneCommand packet length =>
      refine (Program.sound_effects _).trans ?_
      change _ ↔ (length = lenCommandPacket → _)
      by_cases hlength : length = lenCommandPacket
      · rw [hlength]
        refine (fit_phoneCommandPacket packet).trans ?_
        exact ⟨fun h _ => h, fun h => h rfl⟩
      · rw [Copies.phoneCommandPacket, if_pos hlength]
        exact iff_of_true fit_ret fun h => absurd h hlength
  | blockUpload client blockIndex nbytes =>
      exact (Program.sound_effects _).trans (fit_blockDataRecv client blockIndex nbytes)

end Calls

/-- User 7 and its device, of 16 characters, with a position of the device. -/
def oneBinding : World :=
  { (World.empty.setRedis (ascii "RP_7") (some (ascii "2016010500000007"))).setRedis
      (ascii "R_2016010500000007") (some (ascii "7")) with
    locations := fun _ => [⟨ascii "E114.000000", ascii "N022.000000", ascii "120"⟩] }

theorem oneBinding_redis (key : Text) : oneBinding.redis key =
    if key = ascii "R_2016010500000007" then some (ascii "7")
    else if key = ascii "RP_7" then some (ascii "2016010500000007") else none := rfl

theorem oneBinding_written : BindingsWritten world oneBinding := by
  constructor
  · intro deviceId value h
    change oneBinding.redis (ascii "R_" ++ deviceId) = some value at h
    rw [oneBinding_redis] at h
    split at h
    · cases h
      decide
    · split at h
      · next heq => cases heq
      · cases h
  · intro userId value h
    change oneBinding.redis (ascii "RP_" ++ userId) = some value at h
    rw [oneBinding_redis] at h
    split at h
    · next heq => cases heq
    · split at h
      · cases h
        decide
      · cases h

/-- A command of user 7 for the location of its device. -/
def locationCommand : PacketBuffer :=
  BlockBuffer.zero.packet.place 0 [0x43, 0, 0, 0, 0x07, 0x01, 0, 0, 0, 0, 0, 0, 0, 0, 0, 0]

theorem textCopies_fit_iff_location :
    BindingsWritten world oneBinding ∧
      (HandlerCall.phoneCommand locationCommand 16).copies.AllNotes world TextCopy.Fits
        oneBinding ∧
      ((HandlerCall.phoneCommand locationCommand 16).handle.run world
        oneBinding).result.isSome := by
  refine ⟨oneBinding_written, (textCopies_fit_iff world oneBinding oneBinding_written _).mpr ?_⟩
  intro _ deviceId hdevice
  have huser : phoneUser locationCommand = 7 := by decide +kernel
  have hid : idNumber (phoneIdAt locationCommand) = 7 := by decide +kernel
  rw [huser] at hdevice
  have hstored : deviceId = ascii "2016010500000007" := (Option.some.inj hdevice).symm
  rw [hstored, hid]
  refine ⟨by decide, fun _ => ⟨_, rfl, ?_⟩⟩
  rintro row ⟨⟩
  exact ⟨_, _, _, _, rfl, by decide, by decide, by decide, by decide⟩

/-- A block of one packet with one byte of data. -/
def oneByteBlock : BlockBuffer :=
  { BlockBuffer.zero with
    packet := BlockBuffer.zero.packet.place 0
      ([0x56, 0x20, 0x16, 0x01, 0x05, 0, 0, 0, 0x07] ++ List.replicate 20 0 ++ [1, 0, 1, 0xFF]) }

/-- Its path is copied into the 32 characters of `u8FileName`. -/
theorem oneByteBlock_path_overruns :
    BindingsWritten world oneBinding ∧
      ¬ (HandlerCall.blockUpload oneByteBlock 0 33).copies.AllNotes world TextCopy.Fits
        oneBinding := by
  refine ⟨oneBinding_written, fun h => ?_⟩
  have hheader : blockHeader oneByteBlock.packet = ⟨1, 0, 1⟩ := by decide +kernel
  have hcopies : blockCopies oneByteBlock.packet (0 + 33) = [⟨⟨1, 0, 1⟩, 33, true⟩] := by
    decide +kernel
  have hreturns : ((HandlerCall.blockUpload oneByteBlock 0 33).handle.run world
      oneBinding).result.isSome := by
    rw [HandlerCall.handle, Program.run_effects, Option.isSome_map,
      blockDataRecv_isSome_iff world oneBinding (by decide), hcopies, List.forall_mem_singleton,
      Copy.within_iff]
    decide
  have hfits := (textCopies_fit_iff world oneBinding oneBinding_written _).mp ⟨h, hreturns⟩
  refine hfits.1 ⟨?_, ?_⟩
  · rw [hheader]
    rfl
  · rw [hheader]
    decide

end RobotServer
