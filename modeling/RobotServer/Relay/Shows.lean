import RobotServer.Interaction.Relay
import RobotServer.Model.World
import RobotServer.Relay.Commands
import RobotServer.Relay.Reports

/-!
# Shows — the board of the server

The server is a relay: its board stands in redis, in the table of places and in the files.  `Key`
names what redis holds of the board, and no two of them share a key (`Key.text_injective`), so a
write of the server changes one entry of the board (`Shows.setRedis`).
-/

namespace RobotServer

open CText Memory Interaction

/-! ## The relay -/

/-- The files of a device. -/
inductive FileName where
  | block (d : DeviceId)
  | agps (d : DeviceId)
  deriving DecidableEq

def FileName.path : FileName → Text
  | .block d => genBlockFilePathName (deviceKey d)
  | .agps d => genAgpsFilePathName (deviceKey d)

/-- A file whose packets fit the buffer of a connection can be sent. -/
abbrev serverVocabulary : Relay.Vocabulary where
  User := UserId
  Device := DeviceId
  Command := DeviceCommand
  Report := Report
  Place := DevicePlace
  Name := FileName
  File := List Byte
  asksPlace c := c.code == cmdPhoneDeviceRealtimeLocation
  known := .known
  canSend content := content.length ≤ 31744

abbrev ServerBoard := Relay.Board serverVocabulary

abbrev ServerEvent := Relay.Event serverVocabulary

abbrev ServerAnswer := Relay.Answer serverVocabulary

/-! ## Keys and paths -/

/-- What redis holds of a board. -/
inductive Key where
  | device (u : UserId)
  | owner (d : DeviceId)
  | command (d : DeviceId)
  | report (u : UserId)
  deriving DecidableEq

def Key.text : Key → Text
  | .device u => ascii "RP_" ++ u.text
  | .owner d => ascii "R_" ++ deviceKey d
  | .command d => deviceKey d
  | .report u => u.text

theorem UserId.text_eq_userKey (u : UserId) : u.text = userKey u.number := by
  rw [userKey, intText, if_neg (by omega), Int.natAbs_natCast]
  rfl

theorem UserId.not_isRelation (u : UserId) : ¬ IsRelation u.text := by
  rw [u.text_eq_userKey]
  exact userKey_not_relation _

theorem deviceKey_ne_userText (d : DeviceId) (u : UserId) : deviceKey d ≠ u.text := by
  rw [u.text_eq_userKey]
  have hlt := u.isInt
  exact deviceKey_ne_userKey d ⟨by omega, by omega⟩

theorem deviceKey_injective : Function.Injective deviceKey :=
  fun _ _ h => deviceId_text_injective h

/-- The two kinds of bindings differ in their second character. -/
theorem devicePrefix_ne (t t' : Text) : ascii "RP_" ++ t ≠ ascii "R_" ++ t' := by
  intro h
  have hsecond := congrArg (fun t : Text => t.getD 1 0) h
  exact absurd hsecond (by change (0x50 : Byte) ≠ 0x5F; decide)

theorem Key.text_injective : Function.Injective Key.text := by
  have hrelation : ∀ {key : Text}, IsRelation key → (∀ d, key ≠ deviceKey d) ∧
      ∀ u : UserId, key ≠ u.text := by
    rintro key hkey
    refine ⟨?_, ?_⟩
    · rintro d rfl
      exact deviceKey_not_relation d hkey
    · rintro u rfl
      exact u.not_isRelation hkey
  have hphone := fun u : UserId => hrelation (isRelation_phone u.text)
  have hdevice := fun d : DeviceId => hrelation (isRelation_device (deviceKey d))
  intro key key' h
  cases key with
  | device u =>
      cases key' with
      | device u' => exact congrArg _ (UserId.text_injective (List.append_cancel_left h))
      | owner d => exact absurd h (devicePrefix_ne _ _)
      | command d => exact absurd h ((hphone u).1 d)
      | report u' => exact absurd h ((hphone u).2 u')
  | owner d =>
      cases key' with
      | device u => exact absurd h.symm (devicePrefix_ne _ _)
      | owner d' => exact congrArg _ (deviceKey_injective (List.append_cancel_left h))
      | command d' => exact absurd h ((hdevice d).1 d')
      | report u => exact absurd h ((hdevice d).2 u)
  | command d =>
      cases key' with
      | device u => exact absurd h.symm ((hphone u).1 d)
      | owner d' => exact absurd h.symm ((hdevice d').1 d)
      | command d' => exact congrArg _ (deviceKey_injective h)
      | report u => exact absurd h (deviceKey_ne_userText d u)
  | report u =>
      cases key' with
      | device u' => exact absurd h.symm ((hphone u').2 u)
      | owner d => exact absurd h.symm ((hdevice d).2 u)
      | command d => exact absurd h.symm (deviceKey_ne_userText d u)
      | report u' => exact congrArg _ (UserId.text_injective h)

theorem FileName.path_injective : Function.Injective FileName.path := by
  intro name name' h
  cases name with
  | block d =>
      cases name' with
      | block d' => exact congrArg _ (deviceKey_injective (genBlockFilePathName_injective h))
      | agps d' => exact absurd h (genBlockFilePathName_ne_genAgpsFilePathName _ _)
  | agps d =>
      cases name' with
      | block d' => exact absurd h.symm (genBlockFilePathName_ne_genAgpsFilePathName _ _)
      | agps d' => exact congrArg _ (deviceKey_injective (genAgpsFilePathName_injective h))

/-! ## What the server shows -/

/-- The board in redis. -/
def shownRedis (b : ServerBoard) : Key → Option Text
  | .device u => (b.device u).map deviceKey
  | .owner d => (b.owner d).map UserId.text
  | .command d => (b.command d).map DeviceCommand.text
  | .report u => (b.report u).map Report.text

/-- The state of the server is that of a board. -/
structure Shows (b : ServerBoard) (w : World) : Prop where
  redis : ∀ key, w.redis key.text = shownRedis b key
  place : ∀ d, (w.locations (deviceKey d)).head? = (b.place d).map DevicePlace.row
  file : ∀ name, w.files name.path = b.file name

theorem shows_empty : Shows .empty .empty where
  redis := fun key => by cases key <;> rfl
  place := fun _ => rfl
  file := fun _ => rfl

section Shown

variable {b b' : ServerBoard} {w : World}

theorem Shows.congr {w' : World} (h : Shows b w) (hredis : w'.redis = w.redis)
    (hlocations : w'.locations = w.locations) (hfiles : w'.files = w.files) : Shows b w' where
  redis := fun key => hredis ▸ h.redis key
  place := fun d => hlocations ▸ h.place d
  file := fun name => hfiles ▸ h.file name

/-- A write to a key of the board changes one entry of it. -/
theorem Shows.setRedis (h : Shows b w) {key : Key} {value : Option Text}
    (hredis : shownRedis b' = Function.update (shownRedis b) key value)
    (hplace : b'.place = b.place) (hfile : b'.file = b.file) :
    Shows b' (w.setRedis key.text value) where
  redis := by
    intro key'
    rw [hredis, World.redis_setRedis]
    by_cases hkey : key' = key
    · rw [hkey, if_pos rfl, Function.update_self]
    · rw [if_neg fun htext => hkey (Key.text_injective htext), Function.update_of_ne hkey]
      exact h.redis key'
  place := fun d => hplace ▸ h.place d
  file := fun name => hfile ▸ h.file name

/-! ## Entries of the board -/

theorem shownRedis_post (b : ServerBoard) (u : UserId) (r : Report) :
    shownRedis (b.post u r) = Function.update (shownRedis b) (.report u) (some r.text) := by
  refine Function.eq_update_iff.mpr ⟨?_, ?_⟩
  · exact congrArg (Option.map Report.text) (Function.update_self u (some r) b.report)
  · intro key hkey
    cases key with
    | report u' =>
        have hne : u' ≠ u := fun heq => hkey (congrArg Key.report heq)
        change (Function.update b.report u (some r) u').map _ = _
        rw [Function.update_of_ne hne]
        rfl
    | _ => rfl

theorem shownRedis_command (b : ServerBoard) (d : DeviceId) (c : Option DeviceCommand) :
    shownRedis { b with command := Function.update b.command d c } =
      Function.update (shownRedis b) (.command d) (c.map DeviceCommand.text) := by
  refine Function.eq_update_iff.mpr ⟨?_, ?_⟩
  · exact congrArg (Option.map DeviceCommand.text) (Function.update_self d c b.command)
  · intro key hkey
    cases key with
    | command d' =>
        have hne : d' ≠ d := fun heq => hkey (congrArg Key.command heq)
        exact congrArg (Option.map DeviceCommand.text) (Function.update_of_ne hne c b.command)
    | _ => rfl

theorem shownRedis_device (b : ServerBoard) (u : UserId) (d : DeviceId) :
    shownRedis { b with device := Function.update b.device u (some d) } =
      Function.update (shownRedis b) (.device u) (some (deviceKey d)) := by
  refine Function.eq_update_iff.mpr ⟨?_, ?_⟩
  · exact congrArg (Option.map deviceKey) (Function.update_self u (some d) b.device)
  · intro key hkey
    cases key with
    | device u' =>
        have hne : u' ≠ u := fun heq => hkey (congrArg Key.device heq)
        exact congrArg (Option.map deviceKey) (Function.update_of_ne hne (some d) b.device)
    | _ => rfl

theorem shownRedis_owner (b : ServerBoard) (d : DeviceId) (u : UserId) :
    shownRedis { b with owner := Function.update b.owner d (some u) } =
      Function.update (shownRedis b) (.owner d) (some u.text) := by
  refine Function.eq_update_iff.mpr ⟨?_, ?_⟩
  · exact congrArg (Option.map UserId.text) (Function.update_self d (some u) b.owner)
  · intro key hkey
    cases key with
    | owner d' =>
        have hne : d' ≠ d := fun heq => hkey (congrArg Key.owner heq)
        exact congrArg (Option.map UserId.text) (Function.update_of_ne hne (some u) b.owner)
    | _ => rfl

namespace Shows

theorem post (h : Shows b w) (u : UserId) (r : Report) :
    Shows (b.post u r) (w.setRedis u.text (some r.text)) :=
  @setRedis _ _ _ h (.report u) _ (shownRedis_post b u r) rfl rfl

theorem leave (h : Shows b w) (d : DeviceId) (c : DeviceCommand) :
    Shows (b.leave d c) (w.setRedis (deviceKey d) (some c.text)) :=
  @setRedis _ _ _ h (.command d) _ (shownRedis_command b d (some c)) rfl rfl

theorem take (h : Shows b w) (d : DeviceId) :
    Shows { b with command := Function.update b.command d none }
      (w.setRedis (deviceKey d) none) :=
  @setRedis _ _ _ h (.command d) _ (shownRedis_command b d none) rfl rfl

/-- A binding is two writes. -/
theorem bindTo (h : Shows b w) (u : UserId) (d : DeviceId) :
    Shows (b.bindTo (u, d)) ((w.setRedis (ascii "RP_" ++ u.text) (some (deviceKey d))).setRedis
      (ascii "R_" ++ deviceKey d) (some u.text)) :=
  @setRedis _ _ _ (@setRedis _ _ _ h (.device u) _ (shownRedis_device b u d) rfl rfl) (.owner d) _
    (shownRedis_owner { b with device := Function.update b.device u (some d) } d u) rfl rfl

theorem save (h : Shows b w) (name : FileName) (content : List Byte) :
    Shows (b.save name content) (w.setFile name.path content) where
  redis := h.redis
  place := h.place
  file := by
    intro name'
    change _ = Function.update b.file name (some content) name'
    by_cases hname : name' = name
    · rw [hname, Function.update_self, World.files_setFile_self]
    · rw [Function.update_of_ne hname,
        World.files_setFile_of_ne w fun hpath => hname (FileName.path_injective hpath)]
      exact h.file name'

/-- The place of a device becomes the newest row for it. -/
theorem insert (h : Shows b w) (d : DeviceId) (p : DevicePlace) :
    Shows { b with place := Function.update b.place d (some p) }
      (w.execute .insertDeviceGps [p.longitude, p.latitude, p.highText, deviceKey d]) where
  redis := h.redis
  place := by
    intro d'
    change (if deviceKey d' = deviceKey d then p.row :: w.locations (deviceKey d')
      else w.locations (deviceKey d')).head? = (Function.update b.place d (some p) d').map _
    by_cases hd : d' = d
    · rw [hd, if_pos rfl, Function.update_self]
      rfl
    · rw [if_neg fun hkey => hd (deviceKey_injective hkey), Function.update_of_ne hd]
      exact h.place d'
  file := h.file

end Shows

end Shown

end RobotServer
