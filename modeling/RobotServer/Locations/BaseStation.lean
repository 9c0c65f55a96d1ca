import RobotServer.Locations.Extraction
import RobotServer.Locations.Gps

/-!
# BaseStation — the record of a base station packet

`handle_data` writes the coordinates into the structure that `http_post` set up.  Its writes stay in
the fields they name but for the last one, the terminator of the latitude, which takes the lowest
byte of the time (`positionWrites_inside`).  The time is published eight bytes wide, with the flag
behind the time field and the byte behind the structure in it (`publishedTime`).
-/

namespace RobotServer

open CText Memory Interaction Search

/-! ## Writes -/

/-- The write stays in the field it names. -/
def LocationWrite.Inside (w : LocationWrite) : Prop :=
  w.index < w.field.size

/-- The terminator of the latitude. -/
def latitudeEnd : LocationWrite :=
  ⟨.u8Latitude, 12, 0⟩

theorem latitudeEnd_not_inside : ¬ latitudeEnd.Inside :=
  Nat.lt_irrefl 12

section Writes

variable (log lat : ValueBuffer)

theorem positionWrites_inside {w : LocationWrite} (h : w ∈ positionWrites log lat) :
    (w.field = .u8Longitude ∨ w.field = .u8Latitude) ∧ (w.Inside ∨ w = latitudeEnd) := by
  unfold LocationWrite.Inside latitudeEnd
  -- The two fills, the letters, the two assignments of a round, and the two terminators.
  simp only [positionWrites, List.mem_append, List.mem_map, List.mem_range, List.mem_cons,
    List.not_mem_nil, or_false, List.mem_flatMap, List.mem_range'_1] at h
  rcases h with (((⟨i, hi, rfl⟩ | ⟨i, hi, rfl⟩) | rfl | rfl | rfl) | ⟨i, hi, rfl | rfl⟩) | rfl | rfl
  · exact ⟨.inl rfl, .inl hi⟩
  · exact ⟨.inr rfl, .inl hi⟩
  · exact ⟨.inl rfl, .inl (by decide)⟩
  · exact ⟨.inr rfl, .inl (by decide)⟩
  · exact ⟨.inr rfl, .inl (by decide)⟩
  · exact ⟨.inl rfl, .inl (hi.2.trans_le (by decide : 1 + 10 ≤ 12))⟩
  · exact ⟨.inr rfl, .inl (Nat.succ_lt_succ hi.2)⟩
  · exact ⟨.inl rfl, .inl (by decide)⟩
  · exact ⟨.inr rfl, .inr rfl⟩

/-- The writes reach from the longitude to the first byte of the time. -/
theorem positionWrites_address {w : LocationWrite} (h : w ∈ positionWrites log lat) :
    18 ≤ w.address ∧ w.address ≤ 42 := by
  rcases positionWrites_inside log lat h with ⟨hfield, hinside | rfl⟩
  · unfold LocationWrite.Inside at hinside
    unfold LocationWrite.address
    rcases hfield with hlon | hlat
    · rw [hlon] at hinside ⊢
      exact ⟨Nat.le_add_right 18 _, (Nat.add_lt_add_left hinside 18).le.trans (by decide)⟩
    · rw [hlat] at hinside ⊢
      exact ⟨(by decide : 18 ≤ 30).trans (Nat.le_add_right 30 _),
        (Nat.add_lt_add_left hinside 30).le⟩
  · decide

theorem latitudeEnd_mem : latitudeEnd ∈ positionWrites log lat :=
  List.mem_append_right _ (List.mem_cons_of_mem _ (List.mem_singleton.mpr rfl))

end Writes

/-! ## The structure -/

section Structure

variable (locationInfo : LocationMemory) (log lat : ValueBuffer)

/-- Only the coordinates and the byte behind them are written. -/
theorem peek_storePosition_of_ne {j : Nat} (hj : j < 50) (houtside : j < 18 ∨ 42 < j) :
    (storePosition locationInfo log lat).peek j = locationInfo.peek j := by
  refine Cells.peek_writeAll_of_ne _ hj ?_
  intro w hw
  rcases List.mem_map.mp hw with ⟨w, hmem, rfl⟩
  have haddress := positionWrites_address log lat hmem
  dsimp only
  omega

/-- The terminator of the latitude is the last write. -/
theorem peek_storePosition_time : (storePosition locationInfo log lat).peek 42 = 0 := rfl

/-- The bytes of the wide read. -/
theorem slice_storePosition_time :
    (storePosition locationInfo log lat).slice 42 8 = 0 :: locationInfo.slice 43 7 := by
  -- Behind the byte that the terminator takes nothing is written.
  have hrest : (storePosition locationInfo log lat).slice 43 7 = locationInfo.slice 43 7 := by
    refine Cells.slice_congr fun i hle hlt => ?_
    exact peek_storePosition_of_ne _ _ _ (by omega) (.inr (by omega))
  rw [Cells.slice_add _ 42 1 7, hrest, Cells.slice_succ, Cells.slice_zero, Nat.add_zero,
    peek_storePosition_time]
  rfl

/-- The letters, ten characters of each value, and the terminators. -/
theorem slice_storePosition_longitude :
    (storePosition locationInfo log lat).slice 18 12 = 0x45 :: (log.slice 0 10 ++ [0]) := rfl

theorem slice_storePosition_latitude :
    (storePosition locationInfo log lat).slice 30 13 = ascii "N0" ++ (lat.slice 0 10 ++ [0]) := rfl

end Structure

section Packet

variable (packet : PacketBuffer) (behind : Byte)

/-- The flag of a base station packet. -/
def ubloxFlag : Byte :=
  packet.peek idxDeviceLocationtype &&& 0xF0

/-- The structure before the device id and the time are copied into it. -/
def flaggedInfo (behind : Byte) : LocationMemory :=
  ((Cells.fill 0 : LocationMemory).place 49 [behind]).place 48 [ubloxFlag packet]

theorem httpPostInfo_eq : httpPostInfo packet behind =
    ((flaggedInfo packet behind).place 0 (deviceIdText packet)).place 42 (packet.slice 44 4) := rfl

theorem peek_flaggedInfo {j : Nat} (h : j < 50) : (flaggedInfo packet behind).peek j =
    if 48 = j then ubloxFlag packet else if 49 = j then behind else 0 := by
  rw [flaggedInfo, Cells.peek_place_singleton _ _ _ h, Cells.peek_place_singleton _ _ _ h,
    Cells.peek_fill h]

/-- Behind the device id only the time is copied. -/
theorem peek_httpPostInfo {j : Nat} (h : j < 50) (hid : 16 ≤ j) (htime : j < 42 ∨ 46 ≤ j) :
    (httpPostInfo packet behind).peek j = (flaggedInfo packet behind).peek j := by
  -- The device id fills the first sixteen bytes.
  have hbehind : ((flaggedInfo packet behind).place 0 (deviceIdText packet)).peek j =
      (flaggedInfo packet behind).peek j :=
    Cells.peek_place_of_le h (by rw [deviceIdText_length]; omega)
  rw [httpPostInfo_eq]
  rcases htime with hlt | hge
  · rw [Cells.peek_place_of_lt h hlt, hbehind]
  · rw [Cells.peek_place_of_le h (by rw [Cells.slice_length]; omega), hbehind]

/-- The time field, the flag, and the byte behind the structure. -/
theorem slice_httpPostInfo_time : (httpPostInfo packet behind).slice 42 8 =
    packet.slice 44 4 ++ [0, 0, ubloxFlag packet, behind] := by
  have htime : (httpPostInfo packet behind).slice 42 4 = packet.slice 44 4 := by
    have hself := Cells.slice_place_self
      ((flaggedInfo packet behind).place 0 (deviceIdText packet)) 42 (packet.slice 44 4)
      (by rw [Cells.slice_length]; decide)
    rw [Cells.slice_length] at hself
    exact hself
  have hrest : ∀ j, 46 ≤ j → j < 50 → (httpPostInfo packet behind).peek j =
      if 48 = j then ubloxFlag packet else if 49 = j then behind else 0 := by
    intro j hge hlt
    rw [peek_httpPostInfo _ _ hlt (by omega) (.inr hge), peek_flaggedInfo _ _ hlt]
  have hfour : ∀ m : LocationMemory,
      m.slice (42 + 4) 4 = [m.peek 46, m.peek 47, m.peek 48, m.peek 49] := fun _ => rfl
  rw [Cells.slice_add _ 42 4 4, htime, hfour, hrest 46 (by decide) (by decide), hrest 47
    (by decide) (by decide), hrest 48 (by decide) (by decide), hrest 49 (by decide) (by decide)]
  rfl

theorem slice_httpPostInfo_deviceId : (httpPostInfo packet behind).slice 0 16 =
    deviceIdText packet := by
  -- The time stands behind it.
  have hcopied : (httpPostInfo packet behind).slice 0 16 =
      ((flaggedInfo packet behind).place 0 (deviceIdText packet)).slice 0 16 := by
    refine Cells.slice_congr fun i _ hlt => ?_
    rw [httpPostInfo_eq, Cells.peek_place_of_lt (by omega) (by omega)]
  have hself := Cells.slice_place_self (flaggedInfo packet behind) 0 (deviceIdText packet)
    (by rw [deviceIdText_length]; decide)
  rw [deviceIdText_length] at hself
  rw [hcopied, hself]

/-- The device id of a stored structure is the one of the packet. -/
theorem fieldText_deviceId (log lat : ValueBuffer) :
    fieldText (storePosition (httpPostInfo packet behind) log lat) .u8DeviceId =
      deviceIdText packet := by
  have hid : (storePosition (httpPostInfo packet behind) log lat).slice 0 16 =
      deviceIdText packet := by
    rw [← slice_httpPostInfo_deviceId packet behind]
    refine Cells.slice_congr fun i _ hlt => ?_
    exact peek_storePosition_of_ne _ _ _ (by omega) (.inl (by omega))
  have hend : (storePosition (httpPostInfo packet behind) log lat).peek 16 = 0 := by
    rw [peek_storePosition_of_ne _ _ _ (by decide) (.inl (by decide)),
      peek_httpPostInfo _ _ (by decide) (by decide) (.inl (by decide)),
      peek_flaggedInfo _ _ (by decide)]
    rfl
  -- The sixteen digits are followed by a terminator, and have none among them.
  have hzero : (0 : Byte) ∉ deviceIdText packet := fun h => (plain_hextostring _ 0 h).1 rfl
  change cstr ((storePosition (httpPostInfo packet behind) log lat).slice 0 50) = _
  rw [Cells.slice_add _ 0 17 33, Cells.slice_succ, hid, hend, List.append_assoc]
  exact cstr_append_zero hzero _

/-! ## The time -/

/-- The unsigned time of a base station packet. -/
def lbsTime : Nat :=
  leValue (packet.slice 44 4)

/-- What is published for the time of a packet. -/
def publishedTime (behind : Byte) : Int :=
  (leValue (0 :: (packet.slice 45 3 ++ [0, 0, ubloxFlag packet, behind])) : Int).bmod (2 ^ 64)

theorem timeStampLong_eq (log lat : ValueBuffer) :
    timeStampLong (storePosition (httpPostInfo packet behind) log lat) =
      publishedTime packet behind := by
  have hsplit := Cells.slice_add (httpPostInfo packet behind) 42 1 7
  have hpacket := Cells.slice_add packet 44 1 3
  -- The eight bytes without the first one.
  have hrest : (httpPostInfo packet behind).slice 43 7 =
      packet.slice 45 3 ++ [0, 0, ubloxFlag packet, behind] := by
    have htime := slice_httpPostInfo_time packet behind
    rw [hsplit, hpacket, List.append_assoc] at htime
    exact (List.append_inj htime (by rw [Cells.slice_length, Cells.slice_length])).2
  change (leValue ((storePosition (httpPostInfo packet behind) log lat).slice 42 8) : Int).bmod
    (2 ^ 64) = _
  rw [slice_storePosition_time, hrest]
  rfl

theorem lbsTime_eq : lbsTime packet = (packet.peek 44).toNat + 256 * leValue (packet.slice 45 3) :=
  congrArg leValue (Cells.slice_add packet 44 1 3)

theorem lbsTime_lt : lbsTime packet < 2 ^ 32 :=
  leValue_slice_lt packet 44 4

theorem lbsTime_eq_bmod : (lbsTime packet : Int) = (lbsTime packet : Int).bmod (2 ^ 64) := by
  have hlt := lbsTime_lt packet
  exact (Int.bmod_eq_of_le_mul_two (by omega) (by omega)).symm

/-- The value of the wide read, byte by byte. -/
theorem leValue_published :
    leValue (0 :: (packet.slice 45 3 ++ [0, 0, ubloxFlag packet, behind])) =
      256 * (leValue (packet.slice 45 3) + 256 ^ 3 *
        (65536 * ((ubloxFlag packet).toNat + 256 * behind.toNat))) := by
  rw [leValue, leValue_append, Cells.slice_length]
  simp only [leValue, UInt8.toNat_zero]
  ring

theorem published_lt {middle flag byte : Nat} (hmiddle : middle < 256 ^ 3) (hflag : flag < 256)
    (hbyte : byte < 256) :
    256 * (middle + 256 ^ 3 * (65536 * (flag + 256 * byte))) < 2 ^ 64 := by
  omega

theorem published_eq_iff {low middle flag byte : Nat} (hlow : low < 256) :
    256 * (middle + 256 ^ 3 * (65536 * (flag + 256 * byte))) = low + 256 * middle ↔
      low = 0 ∧ flag = 0 ∧ byte = 0 := by
  omega

theorem toNat_eq_zero_iff (b : Byte) : b.toNat = 0 ↔ b = 0 := by
  rw [← UInt8.toNat_inj]
  rfl

/-- The published time is the one of the packet when its lowest byte is zero anyway, and nothing
stands in the bytes behind. -/
theorem publishedTime_eq_iff : publishedTime packet behind = lbsTime packet ↔
    packet.peek 44 = 0 ∧ ubloxFlag packet = 0 ∧ behind = 0 := by
  have hlbs : lbsTime packet < 2 ^ 64 := (lbsTime_lt packet).trans (by decide)
  have hlow : (packet.peek 44).toNat < 256 := (packet.peek 44).toNat_lt
  have hflag : (ubloxFlag packet).toNat < 256 := (ubloxFlag packet).toNat_lt
  have hbehind : behind.toNat < 256 := behind.toNat_lt
  have hpublished : leValue (0 :: (packet.slice 45 3 ++ [0, 0, ubloxFlag packet, behind])) <
      2 ^ 64 := (leValue_published packet behind).trans_lt
    (published_lt (leValue_slice_lt packet 45 3) hflag hbehind)
  have hnat : publishedTime packet behind = lbsTime packet ↔
      leValue (0 :: (packet.slice 45 3 ++ [0, 0, ubloxFlag packet, behind])) = lbsTime packet := by
    rw [lbsTime_eq_bmod packet]
    exact natCast_bmod_inj hpublished hlbs
  have hbytes := @published_eq_iff _ (leValue (packet.slice 45 3)) (ubloxFlag packet).toNat
    behind.toNat hlow
  rw [← leValue_published packet behind, ← lbsTime_eq packet] at hbytes
  calc
    publishedTime packet behind = lbsTime packet
        ↔ leValue (0 :: (packet.slice 45 3 ++ [0, 0, ubloxFlag packet, behind])) =
            lbsTime packet := hnat
    _ ↔ (packet.peek 44).toNat = 0 ∧ (ubloxFlag packet).toNat = 0 ∧ behind.toNat = 0 := hbytes
    _ ↔ packet.peek 44 = 0 ∧ ubloxFlag packet = 0 ∧ behind = 0 :=
        and_congr (toNat_eq_zero_iff _) (and_congr (toNat_eq_zero_iff _) (toNat_eq_zero_iff _))

end Packet

/-! ## What `handle_data` does with a response -/

/-- The writes of `handle_data` to the structure. -/
def locationWrites (response : Response) : List LocationWrite :=
  match fieldValue response Coordinate.longitude.key,
      fieldValue response Coordinate.latitude.key with
  | some log, some lat =>
      if FormatError (valueText log) (valueText lat) then [] else positionWrites log lat
  | _, _ => []

/-- Ten characters of an array, or all of a shorter value, in front of a terminator. -/
theorem slice_holdValue_ten {value : Text} (hlength : value.length ≤ 15) :
    ∃ rest, (holdValue value).slice 0 10 ++ [0] = value.take 10 ++ 0 :: rest := by
  have hten : (holdValue value).slice 0 10 =
      (value ++ List.replicate (16 - value.length) 0).take 10 := by
    rw [← slice_holdValue (Nat.le_succ_of_le hlength)]
    exact (Cells.slice_drop_take (holdValue value) 0 (by decide : 0 + 10 ≤ 16)).symm
  rw [hten]
  rcases Nat.lt_or_ge value.length 10 with hlt | hge
  -- A shorter value brings its own terminator.
  · have hroom : 10 - value.length = (9 - value.length) + 1 := by omega
    rw [List.take_append, List.take_of_length_le hlt.le, List.take_replicate,
      Nat.min_eq_left (by omega), hroom, List.replicate_succ, List.append_assoc]
    exact ⟨_, rfl⟩
  · rw [List.take_append_of_le_length hge]
    exact ⟨[], rfl⟩

theorem cstr_field {letters value : Text} (hletters : (0 : Byte) ∉ letters)
    (hlength : value.length ≤ 15) (hvalue : (0 : Byte) ∉ value) (behind : Text) :
    cstr (letters ++ ((holdValue value).slice 0 10 ++ [0]) ++ behind) =
      letters ++ value.take 10 := by
  rcases slice_holdValue_ten hlength with ⟨rest, hten⟩
  have hzero : (0 : Byte) ∉ letters ++ value.take 10 := by
    rw [List.mem_append, not_or]
    exact ⟨hletters, fun h => hvalue (List.mem_of_mem_take h)⟩
  rw [hten, ← List.append_assoc, List.append_assoc, List.cons_append]
  exact cstr_append_zero hzero _

section Fields

variable {response : Response} {key value : Text} (h : IsValue response key value)
  (locationInfo : LocationMemory) (other : ValueBuffer)

include h

theorem fieldText_longitude :
    fieldText (storePosition locationInfo (holdValue value) other) .u8Longitude =
      ascii "E" ++ value.take 10 := by
  have hletter : (0 : Byte) ∉ ascii "E" := by decide
  change cstr ((storePosition locationInfo (holdValue value) other).slice 18 32) = _
  rw [Cells.slice_add _ 18 12 20, slice_storePosition_longitude]
  exact cstr_field hletter h.1 h.notMem _

theorem fieldText_latitude :
    fieldText (storePosition locationInfo other (holdValue value)) .u8Latitude =
      ascii "N0" ++ value.take 10 := by
  have hletter : (0 : Byte) ∉ ascii "N0" := by decide
  change cstr ((storePosition locationInfo other (holdValue value)).slice 30 20) = _
  rw [Cells.slice_add _ 30 13 7, slice_storePosition_latitude]
  exact cstr_field hletter h.1 h.notMem _

end Fields

/-- `G_E<lon>_N0<lat>_0_1`, the part of a record before its time. -/
def lbsPlace (log lat : Text) : Text :=
  ascii "G_E" ++ log.take 10 ++ ascii "_N0" ++ lat.take 10 ++ ascii "_0_1"

/-- The texts as the code puts them together. -/
theorem lbsPlace_eq (log lat time : Text) : lbsPlace log lat ++ 0x5F :: time =
    ascii "G_" ++ (ascii "E" ++ log.take 10) ++ ascii "_" ++ (ascii "N0" ++ lat.take 10) ++
      ascii "_" ++ intText 0 ++ ascii "_1_" ++ time := by
  have hlon : ascii "G_E" = ascii "G_" ++ ascii "E" := by decide
  have hlat : ascii "_N0" = ascii "_" ++ ascii "N0" := by decide
  have hhigh : ascii "_0_1" ++ [0x5F] = ascii "_" ++ intText 0 ++ ascii "_1_" := by decide
  have htime : ascii "_0_1" ++ 0x5F :: time = ascii "_" ++ intText 0 ++ ascii "_1_" ++ time := by
    rw [← hhigh, List.append_assoc]
    rfl
  rw [lbsPlace, hlon, hlat, List.append_assoc _ (ascii "_0_1"), htime]
  simp only [List.append_assoc]

section Response

variable {response : Response} {log lat : Text}
  (hlog : IsValue response Coordinate.longitude.key log)
  (hlat : IsValue response Coordinate.latitude.key lat)

include hlog hlat

theorem locationWrites_eq : locationWrites response =
    if FormatError log lat then [] else positionWrites (holdValue log) (holdValue lat) := by
  rw [locationWrites, hlog.fieldValue_eq, hlat.fieldValue_eq]
  dsimp only
  rw [valueText_holdValue hlog, valueText_holdValue hlat]

theorem handleData_rejected (herror : FormatError log lat) (size nmemb : UInt64)
    (locationInfo : LocationMemory) :
    handleData response size nmemb locationInfo = .ret (size * nmemb, locationInfo) := by
  rw [handleData, hlog.fieldValue_eq, hlat.fieldValue_eq, Program.ofOption_some,
    Program.ret_bind, Program.ofOption_some, Program.ret_bind, valueText_holdValue hlog,
    valueText_holdValue hlat, if_pos herror]
  rfl

variable {σ : Type} {E : Environment serverInterface σ} {s : σ} {packet : PacketBuffer}
  {behind : Byte}

/-- A response with a position, for a bound device. -/
theorem handleData_publishes (herror : ¬ FormatError log lat)
    (hbound : DeviceBound E s (deviceIdText packet)) (size nmemb : UInt64) :
    Program.Ensures E (handleData response size nmemb (httpPostInfo packet behind)) s
      fun trace _ _ => publishedValues trace =
        [lbsPlace log lat ++ 0x5F :: intText (publishedTime packet behind)] := by
  rw [handleData, hlog.fieldValue_eq, hlat.fieldValue_eq, Program.ofOption_some,
    Program.ret_bind, Program.ofOption_some, Program.ret_bind, valueText_holdValue hlog,
    valueText_holdValue hlat, if_neg herror]
  dsimp only
  rw [fieldText_deviceId, timeStampLong_eq, fieldText_longitude hlog, fieldText_latitude hlat]
  refine (getValue_publishes hbound).bind ?_
  rintro trace value s₁ ⟨htrace, hvalue⟩
  rcases Option.isSome_iff_exists.mp hvalue with ⟨user, rfl⟩
  dsimp only
  refine (record_publishes _ _ _ _ _ _ _ _ _ s₁).mono ?_
  intro trace' _ _ htrace'
  rw [publishedValues_append, htrace, htrace', lbsPlace_eq]
  rfl

end Response

/-! ## Records with the time of their packet -/

section Time

variable {σ : Type} (E : Environment serverInterface σ) (s : σ) (packet : PacketBuffer)
  (behind : Byte) (response : Response) (size nmemb : UInt64)

/-- Whatever is published for the response ends with the time of the packet. -/
def PublishesTime : Prop :=
  Program.Ensures E (handleData response size nmemb (httpPostInfo packet behind)) s
    fun trace _ _ => ∀ value ∈ publishedValues trace,
      Words.lastPiece 0x5F value = natText (lbsTime packet)

structure CarriesTime : Prop where
  inside : ∀ w ∈ locationWrites response, w.Inside
  time : PublishesTime E s packet behind response size nmemb

variable {E s packet behind response size nmemb}

/-- The text that stands for a missing location is the only one of the errors that is as long as a
coordinate. -/
theorem formatError_iff {log lat : Text} (hlog : 10 ≤ log.length) (hlat : 10 ≤ lat.length) :
    FormatError log lat ↔
      log = ascii "\"location\":null" ∨ lat = ascii "\"location\":null" := by
  have hlong : ∀ t : Text, 10 ≤ t.length →
      (t ∈ errorTexts ↔ t = ascii "\"location\":null") := by
    intro t ht
    rw [errorTexts, List.mem_cons, List.mem_cons, List.mem_singleton]
    constructor
    · rintro (rfl | rfl | rfl)
      · exact absurd ht (by decide)
      · exact absurd ht (by decide)
      · rfl
    · exact fun h => .inr (.inr h)
  exact or_congr (hlong log hlog) (hlong lat hlat)

theorem publishesTime_iff {log lat : Text} (hlog : IsValue response Coordinate.longitude.key log)
    (hlat : IsValue response Coordinate.latitude.key lat) (herror : ¬ FormatError log lat)
    (hbound : DeviceBound E s (deviceIdText packet)) :
    PublishesTime E s packet behind response size nmemb ↔
      packet.peek 44 = 0 ∧ ubloxFlag packet = 0 ∧ behind = 0 := by
  have hpublishes := @handleData_publishes _ _ _ hlog hlat _ _ _ _ behind herror hbound size nmemb
  have hlast : Words.lastPiece 0x5F
      (lbsPlace log lat ++ 0x5F :: intText (publishedTime packet behind)) =
        intText (publishedTime packet behind) :=
    Words.lastPiece_append_cons _ fun h => (plain_intText _ 0x5F h).2 rfl
  rw [← publishedTime_eq_iff, ← intText_inj, intText_natCast, ← hlast]
  constructor
  · rintro ⟨_, -, htime⟩
    rcases hpublishes with ⟨_, -, hvalues⟩
    exact htime _ (hvalues ▸ List.mem_singleton_self _)
  · intro htime
    refine hpublishes.mono ?_
    intro trace _ _ hvalues value hvalue
    rw [hvalues, List.mem_singleton] at hvalue
    rw [hvalue, htime]

/-- **A base station record never carries the time of its packet: the writes of a position always
leave the latitude, and only the response that is rejected as a missing location is right.  The
published time of a position without spaces and percent signs, which redis takes as it is, is the
one of the packet when the overwritten byte, the flag and the byte behind the structure are
zero.** -/
theorem baseStation_carriesTime_iff {log lat : Text}
    (hlog : IsValue response Coordinate.longitude.key log)
    (hlat : IsValue response Coordinate.latitude.key lat) (hlogLength : 10 ≤ log.length)
    (hlatLength : 10 ≤ lat.length) :
    (CarriesTime E s packet behind response size nmemb ↔
        log = ascii "\"location\":null" ∨ lat = ascii "\"location\":null") ∧
      (DeviceBound E s (deviceIdText packet) →
        ¬ (log = ascii "\"location\":null" ∨ lat = ascii "\"location\":null") →
        (∀ c ∈ log ++ lat, c ≠ 0x20 ∧ c ≠ 0x25) →
          (PublishesTime E s packet behind response size nmemb ↔
            packet.peek 44 = 0 ∧ ubloxFlag packet = 0 ∧ behind = 0)) := by
  rw [← formatError_iff hlogLength hlatLength]
  refine ⟨⟨?_, ?_⟩, fun hbound herror _ => publishesTime_iff hlog hlat herror hbound⟩
  · intro h
    by_contra herror
    -- The last write of every position leaves its field.
    have hinside := h.inside latitudeEnd
    rw [locationWrites_eq hlog hlat, if_neg herror] at hinside
    exact latitudeEnd_not_inside (hinside (latitudeEnd_mem _ _))
  · intro herror
    constructor
    · intro w hw
      rw [locationWrites_eq hlog hlat, if_pos herror] at hw
      cases hw
    · rw [PublishesTime, handleData_rejected hlog hlat herror]
      refine .ret ?_
      intro value hvalue
      cases hvalue

end Time

/-! ## The second packet of the comment in front of `deviceLocationPacket` -/

def lbsPacket : PacketBuffer :=
  (Cells.fill 0).place 0 ([0x47, 0x20, 0x16, 0x01, 0x05, 0x00, 0x00, 0x00, 0x07, 0x12, 0x12, 0x30,
    0x56, 0x65, 0x23, 0x03, 0x43, 0x56, 0x32, 0x67, 0x03, 0x45, 0x65, 0x23, 0x00, 0x34, 0x32] ++
      List.replicate 21 0x25)

def positionResponse : Response where
  text := ascii "\x7b\"longitude\":113.953163,\"latitude\":22.5432100,\"ErrCode\":0\x7d"
  terminated := by decide

theorem positionResponse_longitude :
    IsValue positionResponse Coordinate.longitude.key (ascii "113.953163") :=
  isValue_iff.mpr ⟨by decide, by decide,
    ascii "\"latitude\":22.5432100,\"ErrCode\":0\x7d", by decide +kernel⟩

theorem positionResponse_latitude :
    IsValue positionResponse Coordinate.latitude.key (ascii "22.5432100") :=
  isValue_iff.mpr ⟨by decide, by decide, ascii "\"ErrCode\":0\x7d", by decide +kernel⟩

/-- The writes leave the latitude, and neither is the published time the one of the packet. -/
theorem baseStation_carriesTime_iff_position :
    ¬ CarriesTime world sampleWorld lbsPacket 0 positionResponse 1 59 ∧
      ¬ PublishesTime world sampleWorld lbsPacket 0 positionResponse 1 59 := by
  have hid : deviceIdText lbsPacket = deviceIdText samplePacket := by decide +kernel
  have hbound : DeviceBound world sampleWorld (deviceIdText lbsPacket) := hid ▸ sampleWorld_bound
  have hpresent : ¬ (ascii "113.953163" = ascii "\"location\":null" ∨
      ascii "22.5432100" = ascii "\"location\":null") := by decide
  obtain ⟨hcarries, hpublishes⟩ := @baseStation_carriesTime_iff _ world sampleWorld lbsPacket 0
    positionResponse 1 59 _ _ positionResponse_longitude positionResponse_latitude (by decide)
    (by decide)
  refine ⟨fun h => hpresent (hcarries.mp h), fun h => ?_⟩
  have hall : ((ascii "113.953163" ++ ascii "22.5432100").all
      fun c => decide (c ≠ 0x20 ∧ c ≠ 0x25)) = true := by decide
  have hplain : ∀ c ∈ ascii "113.953163" ++ ascii "22.5432100", c ≠ 0x20 ∧ c ≠ 0x25 :=
    fun c hc => of_decide_eq_true (List.all_eq_true.mp hall c hc)
  have htime := (hpublishes hbound hpresent hplain).mp h
  exact absurd htime.1 (by decide +kernel)

/-- Its time is overwritten, and published with the flag in the seventh byte. -/
theorem lbsPacket_time_lost :
    lbsTime lbsPacket = 0x25252525 ∧ publishedTime lbsPacket 0 = 0x10000025252500 ∧
      DeviceBound world sampleWorld (deviceIdText lbsPacket) ∧
        ¬ CarriesTime world sampleWorld lbsPacket 0 positionResponse 1 59 := by
  have hid : deviceIdText lbsPacket = deviceIdText samplePacket := by decide +kernel
  refine ⟨by decide +kernel, by decide +kernel, hid ▸ sampleWorld_bound, ?_⟩
  intro h
  have hinside := h.inside latitudeEnd
  rw [locationWrites_eq positionResponse_longitude positionResponse_latitude,
    if_neg (by decide)] at hinside
  exact latitudeEnd_not_inside (hinside (latitudeEnd_mem _ _))

end RobotServer
