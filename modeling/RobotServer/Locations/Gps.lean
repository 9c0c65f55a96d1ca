import RobotServer.Interaction.Ensures
import RobotServer.Mailbox.Commands
import RobotServer.Model.World
import RobotServer.Text.Words

/-!
# Gps — the record of a position packet

`gpsRecord` is the text that a packet of 32 bytes calls for, field by field.  What
`deviceLocationPacket` publishes differs from it in the time, which is read eight bytes wide: the
altitude behind it becomes the upper half (`longAt_eq_gpsTime_iff`).  A record is right exactly when
the altitude is zero, and packets that differ only in altitude are published with different times.
-/

namespace RobotServer

open CText Memory Interaction

/-! ## Little-endian values -/

theorem leValue_append (bytes rest : List Byte) :
    leValue (bytes ++ rest) = leValue bytes + 256 ^ bytes.length * leValue rest := by
  induction bytes with
  | nil => simp [leValue]
  | cons b bytes ih =>
      rw [List.cons_append, leValue, leValue, ih, List.length_cons, pow_succ]
      ring

theorem leValue_lt (bytes : List Byte) : leValue bytes < 256 ^ bytes.length := by
  induction bytes with
  | nil => decide
  | cons b bytes ih =>
      have hb := b.toNat_lt
      rw [leValue, List.length_cons, pow_succ]
      omega

theorem leValue_slice_lt {n : Nat} (m : Cells n Byte) (off len : Nat) :
    leValue (m.slice off len) < 256 ^ len := by
  have hlt := leValue_lt (m.slice off len)
  rw [Cells.slice_length] at hlt
  exact hlt

/-- Eight bytes are two values of four. -/
theorem leValue_slice_eight {n : Nat} (m : Cells n Byte) (off : Nat) :
    leValue (m.slice off 8) = leValue (m.slice off 4) + 2 ^ 32 * leValue (m.slice (off + 4) 4) := by
  rw [Cells.slice_add m off 4 4, leValue_append, Cells.slice_length]
  rfl

/-- A number is told by its signed reading. -/
theorem natCast_bmod_inj {m a b : Nat} (ha : a < m) (hb : b < m) :
    (a : Int).bmod m = (b : Int).bmod m ↔ a = b := by
  constructor
  · intro h
    -- Both readings leave the same remainder, and the numbers are their own remainders.
    have hmod : ((a % m : Nat) : Int) = ((b % m : Nat) : Int) := by
      have heq := congrArg (fun x : Int => x % (m : Int)) h
      simpa only [Int.bmod_emod, Int.natCast_emod] using heq
    rw [Nat.mod_eq_of_lt ha, Nat.mod_eq_of_lt hb] at hmod
    exact Int.ofNat_inj.mp hmod
  · rintro rfl
    rfl

/-! ## Fields of a position packet -/

section Fields

variable (packet : PacketBuffer)

/-- The unsigned time. -/
def gpsTime : Nat :=
  leValue (packet.slice idxDeviceGpsTimestamp 4)

def gpsHigh : Int :=
  intAt packet idxDeviceGpsHigh

/-- The digits of a coordinate, a dot in the place of the fourth one. -/
def dottedDigits (bytes : List Byte) : Text :=
  ((nibbles bytes).map hexChar).take 3 ++ 0x2E :: ((nibbles bytes).map hexChar).drop 4

/-- `G_E<lon>_N<lat>_<high>_0_`, the part of a record before its time. -/
def gpsPlace : Text :=
  ascii "G_E" ++ dottedDigits (packet.slice idxDeviceGpsLongitude lenLongitudeData) ++ ascii "_N" ++
    dottedDigits (packet.slice idxDeviceGpsLatitude lenLatitudeData) ++ ascii "_" ++
      intText (gpsHigh packet) ++ ascii "_0_"

/-- The record a packet calls for. -/
def gpsRecord : Text :=
  gpsPlace packet ++ natText (gpsTime packet)

theorem gpsHigh_eq : gpsHigh packet = (leValue (packet.slice 24 4) : Int).bmod (2 ^ 32) := rfl

/-- The wide read of the time takes the altitude in. -/
theorem longAt_eq : longAt packet idxDeviceGpsTimestamp =
    ((gpsTime packet + 2 ^ 32 * leValue (packet.slice 24 4) : Nat) : Int).bmod (2 ^ 64) :=
  congrArg (fun n : Nat => (n : Int).bmod (2 ^ 64)) (leValue_slice_eight packet 20)

theorem gpsTime_lt : gpsTime packet < 2 ^ 32 :=
  leValue_slice_lt packet 20 4

theorem gpsHighBytes_lt : leValue (packet.slice 24 4) < 2 ^ 32 :=
  leValue_slice_lt packet 24 4

variable {packet} {packet' : PacketBuffer}

/-- Packets of one time are read with one value when their altitudes are the same, and with two
values when they are not. -/
theorem longAt_eq_longAt_iff (htime : gpsTime packet = gpsTime packet') :
    longAt packet idxDeviceGpsTimestamp = longAt packet' idxDeviceGpsTimestamp ↔
      gpsHigh packet = gpsHigh packet' := by
  have hlow := gpsTime_lt packet'
  have hhigh := gpsHighBytes_lt packet
  have hhigh' := gpsHighBytes_lt packet'
  rw [longAt_eq, longAt_eq, gpsHigh_eq, gpsHigh_eq, htime, natCast_bmod_inj hhigh hhigh',
    natCast_bmod_inj (by omega) (by omega)]
  -- The lower halves are the same, so the sums agree when the upper halves do.
  omega

theorem longAt_eq_gpsTime_iff :
    longAt packet idxDeviceGpsTimestamp = gpsTime packet ↔ gpsHigh packet = 0 := by
  have hlow := gpsTime_lt packet
  have hhigh := gpsHighBytes_lt packet
  -- Time and zero as signed readings of themselves.
  have htime : (gpsTime packet : Int) = (gpsTime packet : Int).bmod (2 ^ 64) :=
    (Int.bmod_eq_of_le_mul_two (by omega) (by omega)).symm
  have hzero : (0 : Int) = ((0 : Nat) : Int).bmod (2 ^ 32) := rfl
  rw [longAt_eq, gpsHigh_eq, htime, hzero, natCast_bmod_inj hhigh (by omega),
    natCast_bmod_inj (by omega) (by omega)]
  omega

/-- The text of a coordinate is its letter and its digits with the dot. -/
theorem coordinateText_eq (letter : Byte) {coordinate : List Byte}
    (h : 4 ≤ (hextostring coordinate).length) :
    coordinateText letter coordinate = letter :: dottedDigits coordinate := by
  have hlen : 3 < (hextostring coordinate).length := h
  calc
    coordinateText letter coordinate = letter :: (hextostring coordinate).set 3 0x2E := rfl
    _ = letter :: ((hextostring coordinate).take 3 ++ 0x2E :: (hextostring coordinate).drop 4) := by
        rw [List.set_eq_take_append_cons_drop, if_pos hlen]
    _ = letter :: dottedDigits coordinate := by
        rw [dottedDigits, ← hextostring_eq_map]

/-- The letters as the code puts them in front of the digits. -/
theorem gpsPlace_eq (packet : PacketBuffer) : gpsPlace packet = ascii "G_" ++
    (0x45 :: dottedDigits (packet.slice idxDeviceGpsLongitude lenLongitudeData)) ++ ascii "_" ++
      (0x4E :: dottedDigits (packet.slice idxDeviceGpsLatitude lenLatitudeData)) ++ ascii "_" ++
        intText (gpsHigh packet) ++ ascii "_0_" := by
  -- The letters belong to the coordinates there, and to the frame of the record here.
  have hlon : ascii "G_E" = ascii "G_" ++ [0x45] := by decide
  have hlat : ascii "_N" = ascii "_" ++ [0x4E] := by decide
  rw [gpsPlace, hlon, hlat]
  simp only [List.append_assoc, List.cons_append, List.nil_append]

end Fields

/-! ## What is published -/

/-- The key and the value that an operation stores. -/
def Op.setting : Op → Option (Text × Text)
  | .redisSet key value => some (key, value)
  | _ => none

/-- The values that a run publishes. -/
def publishedValues (trace : List Op) : List Text :=
  (trace.filterMap Op.setting).map Prod.snd

theorem publishedValues_append (trace later : List Op) :
    publishedValues (trace ++ later) = publishedValues trace ++ publishedValues later := by
  rw [publishedValues, List.filterMap_append, List.map_append]
  rfl

section Published

variable {σ : Type} (E : Environment serverInterface σ) (s : σ)

/-- A device is bound to a user. -/
def DeviceBound (deviceId : Text) : Prop :=
  ((E.answer (.redisGet (ascii "R_" ++ deviceId)) s).1 : Option Text).isSome

/-- A position packet publishes one value. -/
def PublishesGps (packet : PacketBuffer) (value : Text) : Prop :=
  Program.Ensures E (deviceLocationPacket packet lenGpsLocationData) s fun trace _ _ =>
    publishedValues trace = [value]

variable {E s}

theorem getValue_publishes {deviceId : Text} (hbound : DeviceBound E s deviceId) :
    Program.Ensures E (getValueFromredis (ascii "R_" ++ deviceId)) s fun trace value _ =>
      publishedValues trace = [] ∧ value.isSome := by
  rcases Option.isSome_iff_exists.mp hbound with ⟨user, huser⟩
  apply Program.Ensures.call
  rw [huser]
  exact .ret ⟨rfl, rfl⟩

theorem insertDeviceGps_publishes (longitude latitude high deviceId : Text) (s : σ) :
    Program.Ensures E (insertDeviceGps longitude latitude high deviceId) s fun trace _ _ =>
      publishedValues trace = [] :=
  .call (.ret rfl)

/-- A thread is started, or it is not. -/
theorem createThread_publishes (c : Bool) (thread : Thread) (s : σ) :
    Program.Ensures E (Program.onlyIf c (perform (.createThread thread))) s fun trace _ _ =>
      publishedValues trace = [] := by
  cases c with
  | false => exact .ret rfl
  | true => exact .call (.ret rfl)

theorem setKey_publishes (key value : Text) (s : σ) :
    Program.Ensures E (setKeyToredis key value) s fun trace _ _ =>
      publishedValues trace = [value] := by
  rw [setKeyToredis, perform_bind]
  apply Program.Ensures.call
  cases (E.answer (.redisSet key value) s).1 with
  | false => exact .ret rfl
  | true => exact .ret rfl

/-- Of what is done for a position, only the last call stores a value. -/
theorem record_publishes {α : Type} (c : Bool) (thread : Thread)
    (longitude latitude high deviceId user value : Text) (f : Int → α) (s : σ) :
    Program.Ensures E (do
      Program.onlyIf c (perform (.createThread thread))
      let _ ← insertDeviceGps longitude latitude high deviceId
      let result ← setKeyToredis user value
      pure (f result)) s fun trace _ _ => publishedValues trace = [value] := by
  refine (createThread_publishes _ _ s).bind ?_
  intro trace₁ _ s₂ htrace₁
  refine (insertDeviceGps_publishes _ _ _ _ s₂).bind ?_
  intro trace₂ _ s₃ htrace₂
  refine (setKey_publishes _ _ s₃).bind ?_
  intro trace₃ _ s₄ htrace₃
  refine .ret ?_
  rw [List.append_nil, publishedValues_append, publishedValues_append, htrace₁, htrace₂, htrace₃]
  rfl

/-- The record of a bound device, with the value of the wide read for its time. -/
theorem deviceLocationPacket_publishes {packet : PacketBuffer}
    (hbound : DeviceBound E s (deviceIdText packet)) :
    PublishesGps E s packet (gpsPlace packet ++ intText (longAt packet idxDeviceGpsTimestamp)) := by
  have hlon : coordinateText 0x45 (packet.slice idxDeviceGpsLongitude lenLongitudeData) =
      0x45 :: dottedDigits (packet.slice idxDeviceGpsLongitude lenLongitudeData) :=
    coordinateText_eq _ (by rw [hextostring_length, Cells.slice_length]; decide)
  have hlat : coordinateText 0x4E (packet.slice idxDeviceGpsLatitude lenLatitudeData) =
      0x4E :: dottedDigits (packet.slice idxDeviceGpsLatitude lenLatitudeData) :=
    coordinateText_eq _ (by rw [hextostring_length, Cells.slice_length]; decide)
  unfold PublishesGps deviceLocationPacket
  rw [if_neg (by decide)]
  refine (getValue_publishes hbound).bind ?_
  rintro trace value s₁ ⟨htrace, hvalue⟩
  rcases Option.isSome_iff_exists.mp hvalue with ⟨user, rfl⟩
  dsimp only
  rw [if_pos rfl, hlon, hlat]
  refine (record_publishes _ _ _ _ _ _ _ _ _ s₁).mono ?_
  intro trace' _ _ htrace'
  rw [publishedValues_append, htrace, htrace', gpsPlace_eq]
  rfl

/-- A run publishes no second value. -/
theorem publishesGps_iff {packet : PacketBuffer} (hbound : DeviceBound E s (deviceIdText packet))
    (value : Text) : PublishesGps E s packet value ↔
      value = gpsPlace packet ++ intText (longAt packet idxDeviceGpsTimestamp) := by
  have hpublishes := deviceLocationPacket_publishes hbound
  constructor
  · intro h
    -- Both speak of the trace of the one run.
    rcases h with ⟨_, -, hvalue⟩
    rcases hpublishes with ⟨_, -, hrecord⟩
    exact List.singleton_inj.mp (hvalue.symm.trans hrecord)
  · rintro rfl
    exact hpublishes

/-- Packets that agree in everything but their altitudes. -/
def DifferInAltitude (packet packet' : PacketBuffer) : Prop :=
  ∀ i, i < lenGpsLocationData → ¬ (24 ≤ i ∧ i < 28) → packet.peek i = packet'.peek i

section Altitude

variable {packet packet' : PacketBuffer}

theorem DifferInAltitude.slice_eq (h : DifferInAltitude packet packet') {off len : Nat}
    (hle : off + len ≤ 24) : packet.slice off len = packet'.slice off len :=
  Cells.slice_congr fun i _ hi => h i (hi.trans_le (hle.trans (by decide))) (by omega)

theorem DifferInAltitude.deviceIdText_eq (h : DifferInAltitude packet packet') :
    deviceIdText packet = deviceIdText packet' :=
  congrArg hextostring (h.slice_eq (by decide))

theorem DifferInAltitude.gpsTime_eq (h : DifferInAltitude packet packet') :
    gpsTime packet = gpsTime packet' :=
  congrArg leValue (h.slice_eq (by decide))

/-- The time of a published record. -/
theorem lastPiece_gpsRecord (packet : PacketBuffer) (time : Int) :
    Words.lastPiece 0x5F (gpsPlace packet ++ intText time) = intText time := by
  have hplace : gpsPlace packet ++ intText time =
      (ascii "G_E" ++ dottedDigits (packet.slice idxDeviceGpsLongitude lenLongitudeData) ++
        ascii "_N" ++ dottedDigits (packet.slice idxDeviceGpsLatitude lenLatitudeData) ++
          ascii "_" ++ intText (gpsHigh packet) ++ ascii "_0") ++ 0x5F :: intText time := by
    have hlast : ascii "_0_" = ascii "_0" ++ [0x5F] := by decide
    rw [gpsPlace, hlast]
    simp only [List.append_assoc, List.cons_append, List.nil_append]
  rw [hplace, Words.lastPiece_append_cons]
  exact fun h => (plain_intText time 0x5F h).2 rfl

/-- **The published record is the one of the packet exactly when the altitude is zero, and packets
that differ in altitude only are published with one time exactly when they do not differ.** -/
theorem gpsRecord_published_iff (hbound : DeviceBound E s (deviceIdText packet)) :
    (PublishesGps E s packet (gpsRecord packet) ↔ gpsHigh packet = 0) ∧
      ∀ packet', DifferInAltitude packet packet' →
        ((∃ value value', PublishesGps E s packet value ∧ PublishesGps E s packet' value' ∧
            Words.lastPiece 0x5F value = Words.lastPiece 0x5F value') ↔
          gpsHigh packet = gpsHigh packet') := by
  constructor
  · rw [publishesGps_iff hbound, gpsRecord, List.append_cancel_left_eq, ← intText_natCast,
      intText_inj]
    exact eq_comm.trans longAt_eq_gpsTime_iff
  · intro packet' hdiffer
    -- The device ids are the same, so the other packet is published as well.
    have hbound' : DeviceBound E s (deviceIdText packet') := hdiffer.deviceIdText_eq ▸ hbound
    rw [← longAt_eq_longAt_iff hdiffer.gpsTime_eq, ← intText_inj]
    constructor
    · rintro ⟨value, value', hvalue, hvalue', hlast⟩
      rw [(publishesGps_iff hbound _).mp hvalue, (publishesGps_iff hbound' _).mp hvalue',
        lastPiece_gpsRecord, lastPiece_gpsRecord] at hlast
      exact hlast
    · intro htimes
      refine ⟨_, _, deviceLocationPacket_publishes hbound,
        deviceLocationPacket_publishes hbound', ?_⟩
      rw [lastPiece_gpsRecord, lastPiece_gpsRecord]
      exact htimes

end Altitude

end Published

/-- The first packet of the comment in front of `deviceLocationPacket`. -/
def samplePacket : PacketBuffer :=
  (Cells.fill 0).place 0 [0x47, 0x20, 0x16, 0x01, 0x05, 0x00, 0x00, 0x00, 0x07, 0x01, 0x11, 0x30,
    0x91, 0x27, 0x16, 0x02, 0x20, 0x64, 0x64, 0x26, 0x03, 0x45, 0x65, 0x23, 0x00, 0x34, 0x32, 0x25,
    0x25, 0x25, 0x25, 0x25]

/-- Redis with the device of the packet bound to user 7. -/
def sampleWorld : World :=
  World.empty.setRedis (ascii "R_" ++ deviceIdText samplePacket) (some (ascii "7"))

theorem sampleWorld_bound : DeviceBound world sampleWorld (deviceIdText samplePacket) := by
  change ((sampleWorld.redis (ascii "R_" ++ deviceIdText samplePacket) : Option Text)).isSome
  rw [sampleWorld, World.redis_setRedis, if_pos rfl]
  rfl

theorem gpsRecord_published_iff_sample :
    (PublishesGps world sampleWorld samplePacket (gpsRecord samplePacket) ↔
        gpsHigh samplePacket = 0) ∧
      ∀ packet', DifferInAltitude samplePacket packet' →
        ((∃ value value', PublishesGps world sampleWorld samplePacket value ∧
            PublishesGps world sampleWorld packet' value' ∧
              Words.lastPiece 0x5F value = Words.lastPiece 0x5F value') ↔
          gpsHigh samplePacket = gpsHigh packet') :=
  gpsRecord_published_iff sampleWorld_bound

/-- Its altitude is published as the upper half of its time. -/
theorem samplePacket_published :
    DeviceBound world sampleWorld (deviceIdText samplePacket) ∧
      gpsTime samplePacket = 593839363 ∧
      PublishesGps world sampleWorld samplePacket
        (gpsPlace samplePacket ++ natText 2680261903437350147) ∧
      ¬ PublishesGps world sampleWorld samplePacket (gpsRecord samplePacket) := by
  have htime : gpsTime samplePacket = 593839363 := by decide +kernel
  have hlong : longAt samplePacket idxDeviceGpsTimestamp = (2680261903437350147 : Nat) := by
    decide +kernel
  have hpublishes := deviceLocationPacket_publishes sampleWorld_bound
  rw [hlong, intText_natCast] at hpublishes
  refine ⟨sampleWorld_bound, htime, hpublishes, ?_⟩
  intro h
  rw [publishesGps_iff sampleWorld_bound, gpsRecord, List.append_cancel_left_eq, htime, hlong,
    intText_natCast] at h
  exact absurd (natText_inj h) (by decide)

end RobotServer
