import RobotServer.Locations.BaseStation
import RobotServer.Status.PhoneId

/-!
# Reports — what a user is told of a device

A `Report` is what redis holds for a user: the state of a device, a place that it sent, one that was
found for it, or the last one that is known.  A poll reads its text back whole (`Report.read_text`).
-/

namespace RobotServer

open CText Memory Interaction

/-! ## Numbers as texts -/

/-- A character that a C string, a command of redis and a literal of a statement take as it is. -/
def IsLiteral (c : Byte) : Prop :=
  c ∉ [0, 0x20, 0x25, 0x27, 0x5C]

instance (c : Byte) : Decidable (IsLiteral c) :=
  inferInstanceAs (Decidable (c ∉ _))

theorem literal_of_all {t : Text} (h : (t.all fun c => decide (IsLiteral c)) = true) :
    ∀ c ∈ t, IsLiteral c :=
  fun c hc => of_decide_eq_true (List.all_eq_true.mp h c hc)

theorem notMem_of_literal {t : Text} (h : ∀ c ∈ t, IsLiteral c) : (0 : Byte) ∉ t :=
  fun hzero => absurd (h 0 hzero) (by decide)

theorem isLiteral_of_digit (c : Byte) : isDigit c = true → IsLiteral c := by
  revert c
  exact forall_byte (by decide +kernel)

theorem literal_natText (n : Nat) : ∀ c ∈ natText n, IsLiteral c :=
  fun c hc => isLiteral_of_digit c (isDigit_natText n c hc)

theorem literal_intText (n : Int) : ∀ c ∈ intText n, IsLiteral c := by
  intro c hc
  unfold intText at hc
  split at hc
  · rcases List.mem_cons.mp hc with rfl | hmem
    · decide
    · exact literal_natText _ c hmem
  · exact literal_natText _ c hc

theorem isLiteral_of_hex (c : Byte) : 0x30 ≤ c ∧ c ≤ 0x46 → IsLiteral c := by
  revert c
  exact forall_byte (by decide +kernel)

theorem literal_hextostring (bytes : List Byte) : ∀ c ∈ hextostring bytes, IsLiteral c :=
  fun c hc => isLiteral_of_hex c (hextostring_chars bytes c hc)

theorem literal_append {t u : Text} (ht : ∀ c ∈ t, IsLiteral c) (hu : ∀ c ∈ u, IsLiteral c) :
    ∀ c ∈ t ++ u, IsLiteral c :=
  fun c hc => (List.mem_append.mp hc).elim (ht c) (hu c)

theorem length_intText_le {n : Int} {k : Nat} (hk : 0 < k) (h : n.natAbs < 10 ^ k) :
    (intText n).length ≤ k + 1 := by
  have hnat : (natText n.natAbs).length ≤ k := natText_length_le hk h
  unfold intText
  split
  · exact Nat.succ_le_succ hnat
  · exact Nat.le_succ_of_le hnat

theorem length_intText_toInt (time : BitVec 64) : (intText time.toInt).length ≤ 20 := by
  have hlow := BitVec.le_toInt time
  have hhigh := @BitVec.toInt_lt 64 time
  exact length_intText_le (by decide) (by omega)

theorem length_intText_toInt32 (n : BitVec 32) : (intText n.toInt).length ≤ 20 := by
  have hlow := BitVec.le_toInt n
  have hhigh := @BitVec.toInt_lt 32 n
  exact length_intText_le (by decide) (by omega)

/-! ## Places -/

/-- A place as the database keeps it. -/
structure DevicePlace where
  longitude : Text
  latitude : Text
  high : BitVec 32
  literal : ∀ c ∈ longitude ++ latitude, IsLiteral c
  fits : longitude.length ≤ 12 ∧ latitude.length ≤ 12
  deriving DecidableEq

namespace DevicePlace

def highText (p : DevicePlace) : Text :=
  intText p.high.toInt

def row (p : DevicePlace) : LocationRow :=
  ⟨p.longitude, p.latitude, p.highText⟩

/-- The part that every report of a place begins with. -/
def text (p : DevicePlace) : Text :=
  ascii "G_" ++ p.longitude ++ ascii "_" ++ p.latitude ++ ascii "_" ++ p.highText

theorem literal_text (p : DevicePlace) : ∀ c ∈ p.text, IsLiteral c := by
  have hsep : ∀ c ∈ ascii "_", IsLiteral c := literal_of_all (by decide)
  have hmark : ∀ c ∈ ascii "G_", IsLiteral c := literal_of_all (by decide)
  have hlongitude : ∀ c ∈ p.longitude, IsLiteral c :=
    fun c hc => p.literal c (List.mem_append_left _ hc)
  have hlatitude : ∀ c ∈ p.latitude, IsLiteral c :=
    fun c hc => p.literal c (List.mem_append_right _ hc)
  unfold text
  exact literal_append (literal_append (literal_append (literal_append
    (literal_append hmark hlongitude) hsep) hlatitude) hsep) (literal_intText _)

theorem length_text_le (p : DevicePlace) : p.text.length ≤ 48 := by
  have hmark : (ascii "G_").length = 2 := by decide
  have hsep : (ascii "_").length = 1 := by decide
  have hhigh : p.highText.length ≤ 20 := length_intText_toInt32 p.high
  obtain ⟨hlongitude, hlatitude⟩ := p.fits
  simp only [text, List.length_append, hmark, hsep]
  omega

/-- The characters of a coordinate. -/
theorem literal_coordinateText {letter : Byte} (hletter : IsLiteral letter) (bytes : List Byte) :
    ∀ c ∈ coordinateText letter bytes, IsLiteral c := by
  intro c hc
  rcases List.mem_or_eq_of_mem_set hc with hmem | rfl
  · rcases List.mem_cons.mp hmem with rfl | hhex
    · exact hletter
    · exact literal_hextostring bytes c hhex
  · decide

theorem length_coordinateText (letter : Byte) {packet : PacketBuffer} (off : Nat) :
    (coordinateText letter (packet.slice off 5)).length ≤ 12 := by
  rw [coordinateText, List.length_set, List.length_cons, hextostring_length, Cells.slice_length]
  decide

/-- The place in a position packet. -/
def ofPacket (packet : PacketBuffer) : DevicePlace where
  longitude := coordinateText 0x45 (packet.slice idxDeviceGpsLongitude lenLongitudeData)
  latitude := coordinateText 0x4E (packet.slice idxDeviceGpsLatitude lenLatitudeData)
  high := .ofNat 32 (leValue (packet.slice idxDeviceGpsHigh 4))
  literal := literal_append (literal_coordinateText (by decide) _)
    (literal_coordinateText (by decide) _)
  fits := ⟨length_coordinateText _ _, length_coordinateText _ _⟩

theorem highText_ofPacket (packet : PacketBuffer) :
    (ofPacket packet).highText = intText (intAt packet idxDeviceGpsHigh) :=
  congrArg intText (BitVec.toInt_ofNat _)

/-- The place in a response of the location service. -/
def ofValues (log lat : Text) (hlog : ∀ c ∈ log, IsLiteral c) (hlat : ∀ c ∈ lat, IsLiteral c) :
    DevicePlace where
  longitude := ascii "E" ++ log.take 10
  latitude := ascii "N0" ++ lat.take 10
  high := 0
  literal := by
    have hE : ∀ c ∈ ascii "E", IsLiteral c := literal_of_all (by decide)
    have hN : ∀ c ∈ ascii "N0", IsLiteral c := literal_of_all (by decide)
    exact literal_append (literal_append hE fun c hc => hlog c (List.mem_of_mem_take hc))
      (literal_append hN fun c hc => hlat c (List.mem_of_mem_take hc))
  fits := by
    have hE : (ascii "E").length = 1 := by decide
    have hN : (ascii "N0").length = 2 := by decide
    have hten : ∀ t : Text, (t.take 10).length ≤ 10 := List.length_take_le 10
    have hlog' := hten log
    have hlat' := hten lat
    rw [List.length_append, List.length_append, hE, hN]
    omega

end DevicePlace

/-! ## Reports -/

inductive Report where
  | status (info : Vector Byte lenDeviceInfo) (time : BitVec 32)
  | gps (p : DevicePlace) (time : BitVec 64)
  | station (p : DevicePlace) (time : BitVec 64)
  | known (p : DevicePlace)
  deriving DecidableEq

namespace Report

/-- The text that redis holds. -/
def text : Report → Text
  | .status info time =>
      ascii "I_" ++ hextostring info.toList ++ ascii "_" ++ intText time.toInt
  | .gps p time => p.text ++ ascii "_0_" ++ intText time.toInt
  | .station p time => p.text ++ ascii "_1_" ++ intText time.toInt
  | .known p => locationNewItemText p.longitude p.latitude p.highText

/-- A place of height zero is taken for one that was found. -/
theorem text_known (p : DevicePlace) : (known p).text =
    p.text ++ if p.highText.headD 0 = 0x30 then ascii "_1_12345" else ascii "_0_12345" := rfl

theorem literal_text (r : Report) : ∀ c ∈ r.text, IsLiteral c := by
  cases r with
  | status info time =>
      have hmark : ∀ c ∈ ascii "I_", IsLiteral c := literal_of_all (by decide)
      have hsep : ∀ c ∈ ascii "_", IsLiteral c := literal_of_all (by decide)
      exact literal_append (literal_append (literal_append hmark (literal_hextostring _)) hsep)
        (literal_intText _)
  | gps p time =>
      have hmark : ∀ c ∈ ascii "_0_", IsLiteral c := literal_of_all (by decide)
      exact literal_append (literal_append p.literal_text hmark) (literal_intText _)
  | station p time =>
      have hmark : ∀ c ∈ ascii "_1_", IsLiteral c := literal_of_all (by decide)
      exact literal_append (literal_append p.literal_text hmark) (literal_intText _)
  | known p =>
      have hfound : ∀ c ∈ ascii "_1_12345", IsLiteral c := literal_of_all (by decide)
      have hsent : ∀ c ∈ ascii "_0_12345", IsLiteral c := literal_of_all (by decide)
      rw [text_known]
      refine literal_append p.literal_text ?_
      split
      · exact hfound
      · exact hsent

theorem length_text_le (r : Report) : r.text.length ≤ 72 := by
  cases r with
  | status info time =>
      have hmark : (ascii "I_").length = 2 := by decide
      have hsep : (ascii "_").length = 1 := by decide
      have htime := length_intText_toInt32 time
      simp only [text, List.length_append, hmark, hsep, hextostring_length, Vector.length_toList]
      change _ + 2 * 12 + _ + _ ≤ 72
      omega
  | gps p time | station p time =>
      have hsent : (ascii "_0_").length = 3 := by decide
      have hfound : (ascii "_1_").length = 3 := by decide
      have hplace := p.length_text_le
      have htime := length_intText_toInt time
      simp only [text, List.length_append, hsent, hfound]
      omega
  | known p =>
      have hplace := p.length_text_le
      rw [text_known, List.length_append]
      split
      · change _ + 8 ≤ 72
        omega
      · change _ + 8 ≤ 72
        omega

/-- A poll reads a report as it was written. -/
theorem read_text (r : Report) : (cstr r.text).take (redisCommandLength - 2) = r.text := by
  rw [cstr_eq_self (notMem_of_literal r.literal_text)]
  exact List.take_of_length_le (r.length_text_le.trans (by decide))

/-! ## Reports of packets -/

/-- The state in a heartbeat. -/
def ofHeartbeat (packet : PacketBuffer) : Report :=
  .status (Vector.ofFn fun i => packet.peek (idxDevicePower + i))
    (.ofNat 32 (leValue (packet.slice idxDeviceHeartpacketTimestamp 4)))

theorem text_ofHeartbeat (packet : PacketBuffer) :
    (ofHeartbeat packet).text = deviceInfoText packet := by
  have hinfo : (Vector.ofFn fun i : Fin lenDeviceInfo => packet.peek (idxDevicePower + i)).toList =
      packet.slice idxDevicePower lenDeviceInfo := by
    rw [Vector.toList_ofFn, List.ofFn_eq_map, Cells.slice, ← List.map_coe_finRange_eq_range,
      List.map_map]
    rfl
  have htime : (BitVec.ofNat 32 (leValue (packet.slice idxDeviceHeartpacketTimestamp 4))).toInt =
      intAt packet idxDeviceHeartpacketTimestamp := BitVec.toInt_ofNat _
  rw [ofHeartbeat, text, hinfo, htime]
  rfl

/-- The report of a position packet. -/
def ofPosition (packet : PacketBuffer) : Report :=
  .gps (.ofPacket packet) (.ofNat 64 (leValue (packet.slice idxDeviceGpsTimestamp 8)))

theorem text_ofPosition (packet : PacketBuffer) :
    (ofPosition packet).text =
      ascii "G_" ++ (DevicePlace.ofPacket packet).longitude ++ ascii "_" ++
        (DevicePlace.ofPacket packet).latitude ++ ascii "_" ++
          intText (intAt packet idxDeviceGpsHigh) ++ ascii "_0_" ++
            intText (longAt packet idxDeviceGpsTimestamp) := by
  have htime : (BitVec.ofNat 64 (leValue (packet.slice idxDeviceGpsTimestamp 8))).toInt =
      longAt packet idxDeviceGpsTimestamp := BitVec.toInt_ofNat _
  rw [ofPosition, text, DevicePlace.text, DevicePlace.highText_ofPacket, htime]

end Report

/-! ## Users -/

/-- The number of a user, as the database gives them out. -/
structure UserId where
  number : Nat
  isInt : number < 2 ^ 31
  deriving DecidableEq

namespace UserId

def text (u : UserId) : Text :=
  natText u.number

/-- The user that a packet of a phone names. -/
def ofPacket (packet : PacketBuffer) : UserId where
  number := idNumber (phoneIdAt packet)
  isInt := by
    have hlt := idNumber_lt (phoneIdAt packet)
    rw [phoneIdAt, Cells.slice_length] at hlt
    exact hlt.trans (by decide)

theorem text_ofPacket (packet : PacketBuffer) :
    (ofPacket packet).text = userKey (phoneUser packet) := by
  rw [phoneUser_eq, userKey, intText, if_neg (by omega), Int.natAbs_natCast]
  rfl

theorem text_injective : Function.Injective text := by
  rintro ⟨m, _⟩ ⟨n, _⟩ h
  cases natText_inj h
  rfl

theorem length_text_le (u : UserId) : u.text.length ≤ 10 :=
  natText_length_le (by decide) (u.isInt.trans (by decide))

theorem literal_text (u : UserId) : ∀ c ∈ u.text, IsLiteral c :=
  literal_natText u.number

theorem read_text (u : UserId) : (cstr u.text).take (redisCommandLength - 2) = u.text := by
  rw [cstr_eq_self (notMem_of_literal u.literal_text)]
  exact List.take_of_length_le (u.length_text_le.trans (by decide))

end UserId

end RobotServer
