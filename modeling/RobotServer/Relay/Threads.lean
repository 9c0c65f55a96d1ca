import RobotServer.Relay.Messages
import RobotServer.Sync.Bindings
import RobotServer.Transfer.Replication

/-!
# Threads — the other ways to the board

Besides messages, the board changes by uploads, by responses of the location service, by the
download of AGPS data, by transfers from other servers, and by bindings.  Each comes as a structure
that carries what makes it one, and takes the step of its event.
-/

namespace RobotServer

open CText Memory Interaction

/-! ## Uploads -/

/-- The packets of a file on an idle connection, in any reads. -/
structure Upload where
  client : BlockBuffer
  packet : DeviceId
  content : List Byte
  calls : List Evbuffer
  idle : Idle client
  pos : 0 < content.length
  size : content.length ≤ lenBlockBuffer
  packets : calls.flatten.flatten = packetBytes content packet

namespace Upload

variable (u : Upload)

def receive : Action Unit :=
  (connection u.client [] u.calls).effects

def event : ServerEvent :=
  .upload (.block u.packet) u.content

variable {u} {b : ServerBoard} {w : World}

theorem follows (h : Shows b w) : Follows world u.receive b w u.event := by
  have hdone : Yields (uploadDone u.packet u.content) w [ascii "SETOK%"] ()
      (w.setFile (genBlockFilePathName (deviceKey u.packet)) u.content) :=
    (Yields.perform rfl w).silent ((yields_reply _ _).bind (.perform rfl _))
  have hfollows : Follows world (uploadDone u.packet u.content) b w u.event :=
    hdone.follows rfl (h.save (.block u.packet) u.content) rfl
  rw [receive, connection_upload u.idle u.pos u.size u.packets]
  exact (hfollows.bind_ret _).bind_ret _

end Upload

/-! ## Responses of the location service -/

/-- A response with two values that redis and the database take as they are, for a packet of
towers. -/
structure Reading where
  packet : PacketBuffer
  /-- The byte behind the structure of the packet. -/
  behind : Byte
  response : Response
  size : UInt64
  nmemb : UInt64
  log : Text
  lat : Text
  isLongitude : IsValue response Coordinate.longitude.key log
  isLatitude : IsValue response Coordinate.latitude.key lat
  literal : (∀ c ∈ log, IsLiteral c) ∧ ∀ c ∈ lat, IsLiteral c

namespace Reading

variable (r : Reading)

def handle : Action Unit :=
  (handleData r.response r.size r.nmemb (httpPostInfo r.packet r.behind)).effects

def place : DevicePlace :=
  .ofValues r.log r.lat r.literal.1 r.literal.2

def report : Report :=
  .station r.place
    (.ofNat 64 (leValue (0 :: (r.packet.slice 45 3 ++ [0, 0, ubloxFlag r.packet, r.behind]))))

def event : ServerEvent :=
  if FormatError r.log r.lat then .other else .located (deviceIdAt r.packet) r.place r.report

theorem text_report : r.report.text =
    ascii "G_" ++ (ascii "E" ++ r.log.take 10) ++ ascii "_" ++ (ascii "N0" ++ r.lat.take 10) ++
      ascii "_" ++ intText 0 ++ ascii "_1_" ++ intText (publishedTime r.packet r.behind) :=
  congrArg (fun n => r.place.text ++ ascii "_1_" ++ intText n) (BitVec.toInt_ofNat _)

variable {r} {b : ServerBoard} {w : World}

/-- A response with a position, as it is recorded. -/
theorem handleData_yields (h : Shows b w) (herror : ¬ FormatError r.log r.lat) :
    ∃ result w', Yields (handleData r.response r.size r.nmemb (httpPostInfo r.packet r.behind)) w []
      result w' ∧ Shows (b.locate (deviceIdAt r.packet) r.place r.report) w' := by
  have hget : Yields (getValueFromredis (ascii "R_" ++ deviceIdText r.packet)) w []
      ((b.owner (deviceIdAt r.packet)).map UserId.text) w := by
    rw [deviceIdText_eq]
    exact h.yields_get (.owner (deviceIdAt r.packet))
  rw [handleData, r.isLongitude.fieldValue_eq, r.isLatitude.fieldValue_eq,
    Program.ofOption_some, Program.ret_bind, Program.ofOption_some, Program.ret_bind,
    valueText_holdValue r.isLongitude, valueText_holdValue r.isLatitude, if_neg herror]
  dsimp only
  rw [fieldText_deviceId, timeStampLong_eq, fieldText_longitude r.isLongitude,
    fieldText_latitude r.isLatitude]
  cases howner : b.owner (deviceIdAt r.packet) with
  | none =>
      rw [howner, Option.map_none] at hget
      refine ⟨_, w, hget.silent (.ret _ w), ?_⟩
      unfold Relay.Board.locate
      rw [howner]
      exact h
  | some u =>
      rw [howner, Option.map_some] at hget
      refine ⟨(r.size * r.nmemb, storePosition (httpPostInfo r.packet r.behind) (holdValue r.log)
        (holdValue r.lat)), _, hget.silent ?_, h.locate howner r.place r.report⟩
      refine Yields.silent (.onlyIf (fun _ => .perform rfl w) fun _ => rfl) ?_
      rw [r.text_report, deviceIdText_eq]
      exact (yields_insertDeviceGps _ _ _ _ w).silent ((yields_set _ _ _).done rfl)

theorem follows (h : Shows b w) : Follows world r.handle b w r.event := by
  unfold handle event
  by_cases herror : FormatError r.log r.lat
  · have hnothing : Yields (Program.ret (I := serverInterface)
        (r.size * r.nmemb, httpPostInfo r.packet r.behind)) w [] _ w := .ret _ w
    rw [if_pos herror, handleData_rejected r.isLongitude r.isLatitude herror]
    exact hnothing.effects.spares.follows h
  · rw [if_neg herror]
    obtain ⟨result, w', hyields, hshows⟩ := handleData_yields h herror
    exact hyields.effects.follows rfl hshows rfl

end Reading

/-! ## Downloads of AGPS data -/

/-- What the thread that downloads AGPS data meets: the position it asks for, the time, and the data
if the download succeeds. -/
structure Assistance where
  device : DeviceId
  longitude : Text
  latitude : Text
  tblock : Tm
  payload : Option (List Byte)
  /-- The byte between the time and the data, which is not initialised. -/
  gap : Byte

/-- The AGPS command as it waits for a device. -/
def agpsCommand : DeviceCommand :=
  ⟨cmdPhoneDeviceAgpsDownload, 0, Vector.replicate lenPhoneNumber 0, .inr rfl⟩

theorem text_agpsCommand : agpsCommand.text = natText cmdPhoneDeviceAgpsDownload.toNat := by
  decide

namespace Assistance

variable (g : Assistance)

/-- The file behind a download: it is not cut, and a failed download only makes it. -/
def change (old : Option (List Byte)) : List Byte :=
  match g.payload with
  | some payload => World.writeOver (writeTimeHeader g.tblock ++ [g.gap] ++ payload) (old.getD [])
  | none => old.getD []

def event : ServerEvent :=
  .assist g.device (.agps g.device) g.change agpsCommand

/-- The service, the clock and the byte that is not initialised; everything else is the world. -/
def answer : (o : Op) → World → o.Reply × World
  | .assistNowOnlineData _ _, w => (g.payload, w)
  | .localtime, w => (g.tblock, w)
  | .writeAgps filename time payload, w => ((), w.writeAgps filename time g.gap payload)
  | o, w => World.answer o w

def surroundings : Environment serverInterface World where
  answer := g.answer

def download : Action Unit :=
  ubloxDownloadApgs ⟨deviceKey g.device, g.longitude, g.latitude⟩

variable {g} {b : ServerBoard} {w : World}

/-- The file is made first, and then written over. -/
theorem shows_change (h : Shows b w) {name : FileName} {made written : List Byte} :
    Shows (b.save name written) ((w.setFile name.path made).setFile name.path written) := by
  have hsaved := (h.save name made).save name written
  have hsame : (b.save name made).save name written = b.save name written :=
    congrArg (fun f => { b with file := f }) (Function.update_idem _ _ _)
  rw [← hsame]
  exact hsaved

/-- The file behind a download. -/
def downloaded (g : Assistance) (w : World) : World :=
  let filename := genAgpsFilePathName (deviceKey g.device)
  match g.payload with
  | none => w.openFile filename
  | some payload =>
      (w.openFile filename).writeAgps filename (writeTimeHeader g.tblock) g.gap payload

/-- The command follows the file, whatever becomes of the download. -/
theorem download_ensures (g : Assistance) (w : World) :
    Program.Ensures g.surroundings g.download w fun trace _ w' => repliesOf trace = [] ∧
      w' = (g.downloaded w).setRedis (deviceKey g.device) (some agpsCommand.text) := by
  rw [text_agpsCommand]
  obtain ⟨device, longitude, latitude, tblock, payload, gap⟩ := g
  cases payload with
  | none => exact ⟨(), rfl, rfl, rfl⟩
  | some payload => exact ⟨(), rfl, rfl, rfl⟩

theorem shows_downloaded (h : Shows b w) :
    Shows (b.save (.agps g.device) (g.change (b.file (.agps g.device)))) (g.downloaded w) := by
  have hfile : w.files (genAgpsFilePathName (deviceKey g.device)) = b.file (.agps g.device) :=
    h.file (.agps g.device)
  unfold downloaded change
  cases g.payload with
  | none =>
      dsimp only
      rw [World.openFile, hfile]
      exact h.save (.agps g.device) _
  | some payload =>
      dsimp only
      rw [World.writeAgps, World.openFile, hfile, World.files_setFile_self]
      exact shows_change h

theorem follows (h : Shows b w) : Follows g.surroundings g.download b w g.event := by
  intro b' hstep
  cases hstep
  refine (download_ensures g w).mono ?_
  rintro trace _ _ ⟨hreplies, rfl⟩
  exact ⟨(shows_downloaded h).leave g.device agpsCommand, hreplies⟩

end Assistance

/-! ## Transfers from other servers -/

/-- The name a receiver stores a transfer under. -/
def Transfer.fileName (t : Transfer) : FileName :=
  if t.flag = multicastTypeAgps then .agps t.packet else .block t.packet

theorem Transfer.path_fileName (t : Transfer) : t.fileName.path = t.path := by
  unfold fileName path synerPathName
  by_cases hagps : t.flag = multicastTypeAgps
  · rw [if_pos hagps, hagps]
    rfl
  · rw [if_neg hagps, if_neg hagps, ite_self]
    rfl

/-- The files that are stored while datagrams arrive. -/
def savedFiles : SynerState → List (Transfer × Nat) → List (FileName × List Byte)
  | _, [] => []
  | state, (t, i) :: rest =>
      ((t.arrive i state).1.map fun block => (t.fileName, block)).toList ++
        savedFiles (t.arrive i state).2 rest

theorem saves_eq (events : List (Transfer × Nat)) : ∀ state,
    saves state events = (savedFiles state events).map fun file => (file.1.path, file.2) := by
  induction events with
  | nil => exact fun _ => rfl
  | cons e rest ih =>
      rintro state
      obtain ⟨t, i⟩ := e
      rw [saves, savedFiles, ih, List.map_append]
      cases (t.arrive i state).1 with
      | none => rfl
      | some block => exact congrArg (fun path => (path, block) :: _) t.path_fileName.symm

/-- Datagrams of any transfers, some of them lost, repeated or mixed. -/
structure Reception where
  state : SynerState
  arrived : List (Transfer × Nat)
  sent : ∀ e ∈ arrived, e.2 < e.1.total

namespace Reception

variable (r : Reception)

def receive : Action Unit :=
  (synerRun r.state (r.arrived.map fun e => e.1.datagram e.2)).effects

def event : ServerEvent :=
  .store (savedFiles r.state r.arrived)

variable {r} {b : ServerBoard} {w : World}

theorem shows_saveAll (files : List (FileName × List Byte)) : ∀ {b : ServerBoard} {w : World},
    Shows b w → Shows (files.foldl (fun b file => b.save file.1 file.2) b)
      (files.foldl (fun w file => w.setFile file.1.path file.2) w) := by
  induction files with
  | nil => exact fun h => h
  | cons file rest ih => exact fun h => ih (h.save file.1 file.2)

theorem follows (h : Shows b w) : Follows world r.receive b w r.event := by
  obtain ⟨hresult, htrace⟩ := synerRun_run world r.arrived r.sent r.state w
  obtain ⟨state', hresult⟩ := Option.isSome_iff_exists.mp hresult
  have hfinal := Program.final_eq_foldl world
    (synerRun r.state (r.arrived.map fun e => e.1.datagram e.2)) w
  have hreplies : repliesOf ((saves r.state r.arrived).map fun w => .writeDat w.1 w.2) = [] := by
    rw [repliesOf, List.filterMap_map]
    exact List.filterMap_eq_nil_iff.mpr fun _ _ => rfl
  rw [← htrace] at hreplies
  rw [htrace, saves_eq, List.foldl_map, List.foldl_map] at hfinal
  have hyields : Yields (synerRun r.state (r.arrived.map fun e => e.1.datagram e.2)) w [] state'
      ((savedFiles r.state r.arrived).foldl (fun w file => w.setFile file.1.path file.2) w) :=
    ⟨state', hresult, hreplies, rfl, hfinal⟩
  exact hyields.effects.follows rfl (shows_saveAll (savedFiles r.state r.arrived) h) rfl

end Reception

/-! ## Bindings -/

/-- Redis and the relationship table of the world, as jobs and loaders reach them. -/
def syncWorld (rows : List (List Text)) : Environment SyncData.syncInterface World where
  answer
    | .redisCommand argv, w => (true, { w with redis := SyncData.commandMap w.redis argv })
    | .executeQuery _, w => (rows, w)

theorem syncWorld_redis (rows : List (List Text)) :
    SyncData.RedisServer (syncWorld rows) World.redis where
  set := fun _ _ _ => .inl ⟨rfl, rfl⟩
  other := fun w _ _ hkey => SyncData.commandMap_of_notMem w.redis hkey
  query := fun _ _ => rfl

theorem syncWorld_writes (rows : List (List Text)) : SyncData.WritesSucceed (syncWorld rows) :=
  fun _ _ _ => rfl

/-! ## The commands of redis -/

theorem isArgument_of_literal {t : Text} (hne : t ≠ []) (h : ∀ c ∈ t, IsLiteral c) :
    SyncData.IsArgument t where
  ne_nil := hne
  no_space := fun hmem => absurd (h _ hmem) (by decide)
  no_percent := fun hmem => absurd (h _ hmem) (by decide)

/-- A text of the board as redis takes it. -/
structure Settable (t : Text) : Prop where
  isArgument : SyncData.IsArgument t
  length_le : t.length ≤ 72

theorem settable_userText (u : UserId) : Settable u.text where
  isArgument := SyncData.isArgument_natText u.number
  length_le := u.length_text_le.trans (by decide)

theorem settable_deviceKey (d : DeviceId) : Settable (deviceKey d) where
  isArgument := isArgument_of_literal (List.ne_nil_of_length_eq_add_one (deviceKey_length d))
    (literal_hextostring _)
  length_le := (deviceKey_length d).le.trans (by decide)

theorem settable_commandText (c : DeviceCommand) : Settable c.text where
  isArgument := by
    have hsep : ∀ c ∈ ascii "_", IsLiteral c := literal_of_all (by decide)
    unfold DeviceCommand.text
    split
    · split
      · exact isArgument_of_literal (by simp [intText_ne_nil]) (literal_append (literal_append
          (literal_append (literal_append (literal_intText _) hsep) (literal_intText _)) hsep)
            (literal_hextostring _))
      · exact isArgument_of_literal (by simp [intText_ne_nil]) (literal_append (literal_append
          (literal_intText _) hsep) (literal_intText _))
    · exact SyncData.isArgument_natText _
  length_le := c.length_text_le.trans (by decide)

theorem settable_reportText (r : Report) : Settable r.text where
  isArgument := by
    refine isArgument_of_literal ?_ r.literal_text
    cases r with
    | known p => simp [Report.text, locationNewItemText, ascii]
    | _ => simp [Report.text, DevicePlace.text, ascii]
  length_le := r.length_text_le

theorem settable_shown {b : ServerBoard} {key : Key} {value : Text}
    (h : shownRedis b key = some value) : Settable value := by
  cases key with
  | device u =>
      obtain ⟨d, -, rfl⟩ := Option.map_eq_some_iff.mp h
      exact settable_deviceKey d
  | owner d =>
      obtain ⟨u, -, rfl⟩ := Option.map_eq_some_iff.mp h
      exact settable_userText u
  | command d =>
      obtain ⟨c, -, rfl⟩ := Option.map_eq_some_iff.mp h
      exact settable_commandText c
  | report u =>
      obtain ⟨r, -, rfl⟩ := Option.map_eq_some_iff.mp h
      exact settable_reportText r

theorem settable_key (key : Key) : Settable key.text := by
  have hphone : SyncData.IsArgument (ascii "RP_") := by decide
  have hdevice : SyncData.IsArgument (ascii "R_") := by decide
  cases key with
  | device u =>
      refine ⟨hphone.append (settable_userText u).isArgument, ?_⟩
      rw [Key.text, List.length_append]
      exact Nat.add_le_add (by decide : _ ≤ 3) (u.length_text_le.trans (by decide : _ ≤ 69))
  | owner d =>
      refine ⟨hdevice.append (settable_deviceKey d).isArgument, ?_⟩
      rw [Key.text, List.length_append, deviceKey_length]
      decide
  | command d => exact settable_deviceKey d
  | report u => exact settable_userText u

/-- Whatever the server shows of a board is set by the command of redis as it is set by the
operation of the handlers. -/
theorem shown_setKeyToredis {formatCommand : Text → Option (List Text)}
    (hformat : SyncData.HiredisFormats formatCommand) (rows : List (List Text))
    {b : ServerBoard} {key : Key} {value : Text} (h : shownRedis b key = some value) (w : World) :
    ((SyncData.setKeyToredis formatCommand key.text value).run (syncWorld rows) w).result =
        ((setKeyToredis key.text value).run world w).result ∧
      ((SyncData.setKeyToredis formatCommand key.text value).run (syncWorld rows) w).final =
        ((setKeyToredis key.text value).run world w).final := by
  have hkey := settable_key key
  have hvalue := settable_shown h
  have hlength := Nat.add_le_add hkey.length_le hvalue.length_le
  refine SyncData.setKeyToredis_agrees hformat hkey.isArgument hvalue.isArgument (by omega) ?_
  refine Prod.ext rfl ?_
  have hredis : SyncData.commandMap w.redis [ascii "set", key.text, value] =
      (w.setRedis key.text (some value)).redis := by
    rw [World.redis_setRedis_eq]
    rfl
  exact congrArg (fun redis => { w with redis := redis }) hredis

/-! ## Records of bindings -/

theorem isHexChar_hexPair (b : Byte) : ∀ c ∈ hexPair b, SyncData.isHexChar c = true := by
  have hall : ∀ b, (hexPair b).all SyncData.isHexChar = true := forall_byte (by decide +kernel)
  exact List.all_eq_true.mp (hall b)

/-- A binding as the table and the jobs write it. -/
def bindingRecord (binding : UserId × DeviceId) : SyncData.Binding where
  userId := binding.1.number
  deviceId := ⟨deviceKey binding.2, deviceKey_length binding.2, fun c hc => by
    obtain ⟨b, -, hcb⟩ := List.mem_flatMap.mp hc
    exact isHexChar_hexPair b c hcb⟩

theorem fits_bindingRecord (binding : UserId × DeviceId) : (bindingRecord binding).Fits :=
  SyncData.Binding.fits_of_lt (binding.1.isInt.trans (by decide))

section Bindings

variable {b : ServerBoard}

/-- Bindings are entered in redis as they are on the board. -/
theorem shows_enterAll (bindings : List (UserId × DeviceId)) :
    ∀ {b : ServerBoard} {w : World}, Shows b w → Shows (bindings.foldl Relay.Board.bindTo b)
      { w with redis := SyncData.enterAll (bindings.map bindingRecord) w.redis } := by
  induction bindings with
  | nil => exact fun h => h
  | cons binding rest ih =>
      intro b w h
      have hbound := h.bindTo binding.1 binding.2
      have hredis : ((w.setRedis (ascii "RP_" ++ binding.1.text)
          (some (deviceKey binding.2))).setRedis (ascii "R_" ++ deviceKey binding.2)
            (some binding.1.text)).redis = (bindingRecord binding).enter w.redis := by
        rw [World.redis_setRedis_eq, World.redis_setRedis_eq]
        rfl
      have hrest := ih hbound
      rw [hredis] at hrest
      rw [List.map_cons, SyncData.enterAll, if_pos (fits_bindingRecord binding)]
      exact hrest

/-- A program of jobs that enters bindings. -/
theorem entersAll_shows {w : World} (h : Shows b w) {rows : List (List Text)}
    {p : SyncData.Job Unit} (bindings : List (UserId × DeviceId))
    (hp : SyncData.EntersAll (syncWorld rows) World.redis p (bindings.map bindingRecord) w) :
    (p.run (syncWorld rows) w).result = some () ∧
      Shows (bindings.foldl Relay.Board.bindTo b) (p.run (syncWorld rows) w).final := by
  obtain ⟨hresult, hredis⟩ := hp
  have hfits : ∀ record ∈ bindings.map bindingRecord, record.Fits := by
    intro record hmem
    obtain ⟨binding, -, rfl⟩ := List.mem_map.mp hmem
    exact fits_bindingRecord binding
  rw [if_pos hfits] at hresult
  -- Only redis is written.
  have hlocations : (p.run (syncWorld rows) w).final.locations = w.locations :=
    Program.run_keeps (syncWorld rows) (fun o w => by cases o <;> rfl) p w
  have hfiles : (p.run (syncWorld rows) w).final.files = w.files :=
    Program.run_keeps (syncWorld rows) (fun o w => by cases o <;> rfl) p w
  exact ⟨hresult, (shows_enterAll bindings h).congr hredis hlocations hfiles⟩

end Bindings

end RobotServer
