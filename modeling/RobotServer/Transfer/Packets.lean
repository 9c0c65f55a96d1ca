import Mathlib.Tactic.Ring
import RobotServer.Model.Protocol

/-!
# Packets — the layout `takeDataPacket` writes

A file is laid out as a list of packets (`packetsOf`): every packet is a header of
`lenHeaderLength` bytes followed by its part of the file, and only the last one may be short.

- `packetBytes_eq_flatten`: the bytes of `takeDataPacket` are these packets one after another;
- `slices_packetBytes`: cutting them every `lenBlockPacket` bytes gives the packets back;
- `HoldsHeader` is a received header, `HoldsHeader.blockHeader_eq` what a receiver decodes of it.
-/

namespace RobotServer

open CText Memory

/-! ## Packets of a file -/

/-- The part of a file that packet `i` carries. -/
def packetData (content : List Byte) (i : Nat) : List Byte :=
  (content.drop (i * lenBlockData)).take lenBlockData

def packetAt (content : List Byte) (packet : DeviceId) (i : Nat) : List Byte :=
  packetHeader packet (packetTotal content.length) i (packetData content i).length ++
    packetData content i

def packetsOf (content : List Byte) (packet : DeviceId) : List (List Byte) :=
  (List.range (packetTotal content.length)).map (packetAt content packet)

theorem packetData_length (content : List Byte) (i : Nat) :
    (packetData content i).length = min 992 (content.length - i * 992) := by
  simp [packetData]

theorem packetTotal_eq (size : Nat) : packetTotal size = (size + 991) / 992 := by
  unfold packetTotal
  simp only [lenBlockData, lenBlockPacket, lenHeaderLength]
  split <;> omega

/-- Packet `i` starts inside the file exactly when it is one of its packets. -/
theorem lt_packetTotal {size i : Nat} : i < packetTotal size ↔ i * 992 < size := by
  rw [packetTotal_eq]
  omega

theorem packetTotal_pos {size : Nat} (h : 0 < size) : 0 < packetTotal size :=
  lt_packetTotal.mpr (by simpa using h)

/-- Every packet but the last one is full. -/
theorem packetData_length_of_lt {content : List Byte} {i : Nat}
    (h : i + 1 < packetTotal content.length) : (packetData content i).length = 992 := by
  have hlt := lt_packetTotal.mp h
  rw [packetData_length]
  omega

theorem packetData_length_le (content : List Byte) (i : Nat) :
    (packetData content i).length ≤ 992 := by
  rw [packetData_length]
  omega

/-- The last packet ends where the file ends. -/
theorem packetData_last {content : List Byte} {i : Nat} (h : i + 1 = packetTotal content.length) :
    i * 992 + (packetData content i).length = content.length := by
  have hlt : i * 992 < content.length := lt_packetTotal.mp (by omega)
  have hge : ¬ (i + 1) * 992 < content.length := fun hc => by
    have := lt_packetTotal.mpr hc
    omega
  rw [packetData_length]
  omega

/-- Byte `j` of packet `i` in the file. -/
theorem packetData_getD {content : List Byte} {i j : Nat} (hj : j < (packetData content i).length) :
    (packetData content i).getD j 0 = content.getD (i * 992 + j) 0 := by
  have hle := packetData_length_le content i
  have htake : j < lenBlockData := lt_of_lt_of_le hj hle
  rw [packetData, List.getD_eq_getElem?_getD, List.getElem?_take_of_lt htake, List.getElem?_drop,
    List.getD_eq_getElem?_getD]
  rfl

/-- The parts of the first `i` packets are the first `i * lenBlockData` bytes of the file. -/
theorem take_append_packetData (content : List Byte) (i : Nat) :
    content.take (i * 992) ++ packetData content i = content.take ((i + 1) * 992) := by
  have hmul : (i + 1) * 992 = i * 992 + 992 := by omega
  rw [hmul, List.take_add]
  rfl

theorem take_packets {content : List Byte} {i : Nat} (h : i + 1 = packetTotal content.length) :
    content.take ((i + 1) * 992) = content := by
  have hend := packetData_last h
  have hle := packetData_length_le content i
  refine List.take_of_length_le ?_
  omega

/-! ## The header -/

/-- The header as one list. -/
theorem packetHeader_eq (packet : DeviceId) (total index length : Nat) :
    packetHeader packet total index length =
      0x56 :: (packet.toList ++ ([0x15, 0x09, 0x00, 0x02] ++ (UInt8.ofNat index ::
        (List.replicate 15 0 ++ [UInt8.ofNat total, UInt8.ofNat (length / 256),
          UInt8.ofNat (length % 256)])))) := by
  have hlen : packet.toList.length = 8 := Vector.length_toList
  unfold packetHeader
  match packet.toList, hlen with
  | [b1, b2, b3, b4, b5, b6, b7, b8], _ => rfl

@[simp] theorem packetHeader_length (packet : DeviceId) (total index length : Nat) :
    (packetHeader packet total index length).length = 32 := by
  have hlen : packet.toList.length = 8 := Vector.length_toList
  rw [packetHeader_eq]
  simp

/-- The fields of a header, each at its place. -/
theorem packetHeader_getD (packet : DeviceId) (total index length : Nat) :
    let header := packetHeader packet total index length
    header.getD 0 0 = 0x56 ∧ header.getD 13 0 = UInt8.ofNat index ∧ header.getD 20 0 = 0 ∧
      header.getD 29 0 = UInt8.ofNat total ∧ header.getD 30 0 = UInt8.ofNat (length / 256) ∧
      header.getD 31 0 = UInt8.ofNat (length % 256) ∧ (header.drop 1).take 8 = packet.toList := by
  have hlen : packet.toList.length = 8 := Vector.length_toList
  simp only [packetHeader_eq]
  match packet.toList, hlen with
  | [b1, b2, b3, b4, b5, b6, b7, b8], _ => exact ⟨rfl, rfl, rfl, rfl, rfl, rfl, rfl⟩

/-! ## A received header -/

/-- The bytes of a header stand in `data`; byte 20 is left open for the flag of a datagram. -/
def HoldsHeader {n : Nat} (data : Cells n Byte) (packet : DeviceId) (total index length : Nat) :
    Prop :=
  ∀ x, x < 32 → x ≠ 20 → data.peek x = (packetHeader packet total index length).getD x 0

theorem schar_ofNat {i : Nat} (h : i < 128) : schar (UInt8.ofNat i) = i := by
  have hi : (UInt8.ofNat i).toNat = i := by
    rw [UInt8.toNat_ofNat']
    omega
  rw [schar_of_lt (by omega), hi]

theorem dataLengthOf_ofNat {length : Nat} (h : length ≤ 992) :
    dataLengthOf (UInt8.ofNat (length / 256)) (UInt8.ofNat (length % 256)) = length := by
  have hhigh : schar (UInt8.ofNat (length / 256)) = (length / 256 : Nat) := schar_ofNat (by omega)
  have hlow : (UInt8.ofNat (length % 256)).toNat = length % 256 := by
    rw [UInt8.toNat_ofNat']
    omega
  rw [dataLengthOf, hhigh, hlow]
  omega

namespace HoldsHeader

variable {n : Nat} {data : Cells n Byte} {packet : DeviceId} {total index length : Nat}

/-- The fields the receivers read are the ones the sender wrote. -/
theorem blockHeader_eq (h : HoldsHeader data packet total index length) (htotal : total < 128)
    (hindex : index < 128) (hlength : length ≤ 992) :
    blockHeader data = ⟨length, index, total⟩ := by
  rcases packetHeader_getD packet total index length with ⟨-, h13, -, h29, h30, h31, -⟩
  have hpeek13 := (h 13 (by decide) (by decide)).trans h13
  have hpeek29 := (h 29 (by decide) (by decide)).trans h29
  have hpeek30 := (h 30 (by decide) (by decide)).trans h30
  have hpeek31 := (h 31 (by decide) (by decide)).trans h31
  simp only [blockHeader, hpeek13, hpeek29, hpeek30, hpeek31, dataLengthOf_ofNat hlength,
    schar_ofNat hindex, schar_ofNat htotal]

theorem peek_zero (h : HoldsHeader data packet total index length) : data.peek 0 = 0x56 :=
  (h 0 (by decide) (by decide)).trans (packetHeader_getD packet total index length).1

/-- The device id a receiver reads. -/
theorem slice_deviceId (h : HoldsHeader data packet total index length) :
    data.slice 1 8 = packet.toList := by
  have hlen : packet.toList.length = 8 := Vector.length_toList
  have hheader : ∀ j, j < 8 →
      (packetHeader packet total index length).getD (1 + j) 0 = packet.toList.getD j 0 := by
    rw [packetHeader_eq]
    intro j hj
    rw [Nat.add_comm, List.getD_cons_succ, List.getD_append _ _ _ _ (by omega)]
  have hslice := Cells.slice_eq_of_peek data 1 packet.toList fun j hj =>
    (h (1 + j) (by omega) (by omega)).trans (hheader j (by omega))
  simpa only [hlen] using hslice

end HoldsHeader

/-! ## The bytes of a packet -/

section PacketAt

variable {content : List Byte} {packet : DeviceId} {i : Nat}

theorem packetAt_length (content : List Byte) (packet : DeviceId) (i : Nat) :
    (packetAt content packet i).length = 32 + (packetData content i).length := by
  simp [packetAt]

theorem packetAt_length_of_lt (h : i + 1 < packetTotal content.length) :
    (packetAt content packet i).length = 1024 := by
  rw [packetAt_length, packetData_length_of_lt h]

theorem packetAt_length_le (content : List Byte) (packet : DeviceId) (i : Nat) :
    (packetAt content packet i).length ≤ 1024 := by
  have h := packetData_length_le content i
  rw [packetAt_length]
  omega

theorem packetAt_getD_header {x : Nat} (hx : x < 32) :
    (packetAt content packet i).getD x 0 =
      (packetHeader packet (packetTotal content.length) i (packetData content i).length).getD x 0 :=
  List.getD_append _ _ _ _ (by simpa using hx)

theorem packetAt_getD_data (j : Nat) :
    (packetAt content packet i).getD (32 + j) 0 = (packetData content i).getD j 0 := by
  have hle : (packetHeader packet (packetTotal content.length) i
      (packetData content i).length).length ≤ 32 + j := by
    rw [packetHeader_length]
    exact Nat.le_add_right _ _
  rw [packetAt, List.getD_append_right _ _ _ _ hle, packetHeader_length, Nat.add_sub_cancel_left]

theorem packetTotal_le (h : content.length ≤ lenBlockBuffer) : packetTotal content.length ≤ 34 := by
  simp only [lenBlockBuffer] at h
  rw [packetTotal_eq]
  omega

end PacketAt

/-! ## A received packet -/

/-- Packet `i` of a file stands in `data`. -/
structure HoldsPacket {n : Nat} (data : Cells n Byte) (content : List Byte) (packet : DeviceId)
    (i : Nat) : Prop where
  header : HoldsHeader data packet (packetTotal content.length) i (packetData content i).length
  slice_data : data.slice 32 (packetData content i).length = packetData content i

namespace HoldsPacket

variable {n : Nat} {data : Cells n Byte} {content : List Byte} {packet : DeviceId} {i : Nat}

theorem of_peek (h : ∀ x, x < (packetAt content packet i).length → x ≠ 20 →
    data.peek x = (packetAt content packet i).getD x 0) : HoldsPacket data content packet i where
  header := by
    intro x hx hne
    rw [h x (by rw [packetAt_length]; omega) hne, packetAt_getD_header hx]
  slice_data := by
    refine Cells.slice_eq_of_peek _ _ _ ?_
    intro j hj
    rw [h (32 + j) (by rw [packetAt_length]; omega) (by omega), packetAt_getD_data]
    rfl

theorem blockHeader_eq (h : HoldsPacket data content packet i)
    (hi : i < packetTotal content.length) (hsize : content.length ≤ lenBlockBuffer) :
    blockHeader data = ⟨(packetData content i).length, i, packetTotal content.length⟩ := by
  have htotal := packetTotal_le hsize
  exact h.header.blockHeader_eq (by omega) (by omega) (packetData_length_le content i)

/-- A received packet is copied to its place in the block. -/
theorem copyBlockData_eq (h : HoldsPacket data content packet i)
    (hi : i < packetTotal content.length) (hsize : content.length ≤ lenBlockBuffer)
    (hn : 1024 ≤ n) (buffer : BlockData) :
    copyBlockData buffer data (blockHeader data) =
      some (buffer.place (i * 992) (packetData content i)) := by
  have hstart := lt_packetTotal.mp hi
  have hlength := packetData_length content i
  have hle := packetData_length_le content i
  have hblock : i * 992 + (packetData content i).length ≤ lenBlockBuffer := by
    simp only [lenBlockBuffer] at hsize ⊢
    omega
  have hcopy := Cells.copy_eq_some buffer data (i * 992) 32 (packetData content i).length hblock
    (by omega)
  rw [h.slice_data] at hcopy
  rw [copyBlockData, h.blockHeader_eq hi hsize]
  exact hcopy

/-- The block of the last packet ends where the file ends. -/
theorem blockOff_add_dataLength (h : HoldsPacket data content packet i)
    (hi : i + 1 = packetTotal content.length) (hsize : content.length ≤ lenBlockBuffer) :
    (blockHeader data).blockOff + (blockHeader data).dataLength = (content.length : Int) := by
  have hend := packetData_last hi
  rw [h.blockHeader_eq (by omega) hsize]
  simp only [BlockHeader.blockOff, lenBlockPacket, lenHeaderLength]
  omega

theorem isLast_iff (h : HoldsPacket data content packet i) (hi : i < packetTotal content.length)
    (hsize : content.length ≤ lenBlockBuffer) :
    (blockHeader data).pktIndex + 1 = (blockHeader data).pktTotal ↔
      i + 1 = packetTotal content.length := by
  rw [h.blockHeader_eq hi hsize]
  dsimp only
  omega

end HoldsPacket

/-! ## Pieces of equal length -/

/-- The bytes of full pieces one after another. -/
theorem flatten_full_length {f : Nat → List Byte} {n : Nat} (h : ∀ i, i < n → (f i).length = 1024) :
    ((List.range n).map f).flatten.length = n * 1024 := by
  induction n with
  | zero => rfl
  | succ n ih =>
      have hinit := ih fun i hi => h i (by omega)
      have hlast := h n (by omega)
      rw [List.range_succ, List.map_append, List.flatten_append, List.length_append, hinit]
      simp only [List.map_cons, List.map_nil, List.flatten_cons, List.flatten_nil, List.append_nil,
        hlast]
      omega

/-- Byte `x` of pieces of 1024 bytes is byte `x % 1024` of piece `x / 1024`. -/
theorem flatten_getD {f : Nat → List Byte} (n : Nat) :
    (∀ i, i + 1 < n → (f i).length = 1024) → (∀ i, (f i).length ≤ 1024) →
      ∀ x, x < ((List.range n).map f).flatten.length →
        ((List.range n).map f).flatten.getD x 0 = (f (x / 1024)).getD (x % 1024) 0 := by
  induction n with
  | zero =>
      intro _ _ x hx
      exact absurd hx (Nat.not_lt_zero _)
  | succ n ih =>
      intro hfull hle x hx
      have hinit : ((List.range n).map f).flatten.length = n * 1024 :=
        flatten_full_length fun i hi => hfull i (by omega)
      have hsplit : ((List.range (n + 1)).map f).flatten = ((List.range n).map f).flatten ++ f n := by
        simp [List.range_succ]
      rw [hsplit] at hx ⊢
      rw [List.length_append, hinit] at hx
      rcases Nat.lt_or_ge x (n * 1024) with hlow | hhigh
      · rw [List.getD_append _ _ _ _ (by omega)]
        exact ih (fun i hi => hfull i (by omega)) hle x (by omega)
      · have hlast := hle n
        have hdiv : x / 1024 = n := by omega
        have hmod : x - n * 1024 = x % 1024 := by omega
        rw [List.getD_append_right _ _ _ _ (by omega), hinit, hdiv, hmod]

/-- Full pieces followed by a last one are what cutting their bytes gives. -/
theorem slicesLoop_flatten (last : List Byte) (hpos : 0 < last.length)
    (hle : last.length ≤ 1024) (pieces : List (List Byte)) :
    (∀ p ∈ pieces, p.length = 1024) → ∀ fuel, (pieces ++ [last]).flatten.length ≤ fuel →
      slicesLoop fuel (pieces ++ [last]).flatten = pieces ++ [last] := by
  induction pieces with
  | nil =>
      intro _ fuel hfuel
      cases fuel with
      | zero =>
          simp only [List.nil_append, List.flatten_cons, List.flatten_nil, List.append_nil] at hfuel
          omega
      | succ fuel =>
          have hne : last ≠ [] := List.ne_nil_of_length_pos hpos
          have hrest : slicesLoop fuel (last.drop lenBlockPacket) = [] := by
            rw [List.drop_of_length_le hle]
            cases fuel <;> rfl
          simp [slicesLoop, hne, List.take_of_length_le hle, hrest]
  | cons p pieces ih =>
      intro hfull fuel hfuel
      have hp : p.length = lenBlockPacket := hfull p (by simp)
      cases fuel with
      | zero =>
          simp only [List.cons_append, List.flatten_cons, List.length_append, hp] at hfuel
          simp at hfuel
      | succ fuel =>
          have hne : (p :: pieces ++ [last]).flatten ≠ [] := by
            refine List.ne_nil_of_length_pos ?_
            simp [hp]
          have hlen : (pieces ++ [last]).flatten.length ≤ fuel := by
            simp only [List.cons_append, List.flatten_cons, List.length_append, hp] at hfuel
            simp only [lenBlockPacket] at hfuel
            omega
          -- The front slice is the packet at the head, whose length is the length of a slice.
          have htake : (p :: pieces ++ [last]).flatten.take lenBlockPacket = p := by
            simp only [List.cons_append, List.flatten_cons]
            rw [List.take_left' hp]
          have hdrop : (p :: pieces ++ [last]).flatten.drop lenBlockPacket =
              (pieces ++ [last]).flatten := by
            simp only [List.cons_append, List.flatten_cons]
            rw [List.drop_left' hp]
          rw [slicesLoop, if_neg hne, htake, hdrop,
            ih (fun q hq => hfull q (by simp [hq])) fuel hlen]
          rfl

/-- Cutting pieces that are full but for the last one gives them back. -/
theorem slices_flatten {f : Nat → List Byte} (n : Nat)
    (hfull : ∀ i, i + 1 < n → (f i).length = 1024) (hle : ∀ i, (f i).length ≤ 1024)
    (hpos : ∀ i, 0 < (f i).length) :
    slices ((List.range n).map f).flatten = (List.range n).map f := by
  cases n with
  | zero => rfl
  | succ last =>
      rw [List.range_succ, List.map_append]
      refine slicesLoop_flatten _ (hpos last) (hle last) _ ?_ _ le_rfl
      intro p hp
      rcases List.mem_map.mp hp with ⟨i, hi, rfl⟩
      have hlt : i < last := List.mem_range.mp hi
      exact hfull i (by omega)

/-! ## The layout as packets -/

/-- A full packet inside the file, as the first loop of `takeDataPacket` writes it. -/
theorem packetAt_full {content : List Byte} {packet : DeviceId} {i : Nat}
    (h : i < content.length / 992) :
    packetHeader packet (packetTotal content.length) i lenBlockData ++
      (content.drop (i * lenBlockData)).take lenBlockData = packetAt content packet i := by
  have hlen : (packetData content i).length = lenBlockData := by
    rw [packetData_length]
    simp only [lenBlockData, lenBlockPacket, lenHeaderLength]
    omega
  rw [packetAt, hlen]
  rfl

/-- The bytes of `takeDataPacket` are the packets of the file. -/
theorem packetBytes_eq_flatten (content : List Byte) (packet : DeviceId) :
    packetBytes content packet = (packetsOf content packet).flatten := by
  have hfull : (List.range (content.length / lenBlockData)).flatMap (fun i =>
      packetHeader packet (packetTotal content.length) i lenBlockData ++
        (content.drop (i * lenBlockData)).take lenBlockData) =
      ((List.range (content.length / lenBlockData)).map (packetAt content packet)).flatten := by
    rw [List.flatMap_def]
    congr 1
    exact List.map_congr_left fun i hi => packetAt_full (List.mem_range.mp hi)
  unfold packetBytes packetsOf
  simp only [hfull]
  by_cases hr : content.length % lenBlockData = 0
  · have htotal : packetTotal content.length = content.length / lenBlockData := by
      rw [packetTotal, if_neg (not_not.mpr hr)]
    rw [if_neg (not_not.mpr hr), htotal]
  · have htotal : packetTotal content.length = content.length / lenBlockData + 1 := by
      rw [packetTotal, if_pos hr]
    have hlen : (packetData content (content.length / lenBlockData)).length =
        content.length % lenBlockData := by
      rw [packetData_length]
      simp only [lenBlockData, lenBlockPacket, lenHeaderLength] at hr ⊢
      omega
    have hdata : (content.drop (content.length / lenBlockData * lenBlockData)).take
        (content.length % lenBlockData) = packetData content (content.length / lenBlockData) := by
      rw [← hlen]
      exact (List.prefix_iff_eq_take.mp (List.take_prefix _ _)).symm
    -- The tail that does not fill a packet is a packet of its own.
    have hlast : packetAt content packet (content.length / lenBlockData) =
        packetHeader packet (packetTotal content.length) (content.length / lenBlockData)
          (content.length % lenBlockData) ++ packetData content (content.length / lenBlockData) := by
      rw [packetAt, hlen]
    rw [if_pos hr, hdata, List.append_assoc, ← hlast, htotal, List.range_succ, List.map_append,
      List.flatten_append]
    simp

/-- The packets of a file with any packet are full packets and a last one. -/
theorem packetsOf_eq_append {content : List Byte} (packet : DeviceId) {last : Nat}
    (h : last + 1 = packetTotal content.length) :
    packetsOf content packet =
      (List.range last).map (packetAt content packet) ++ [packetAt content packet last] := by
  simp [packetsOf, ← h, List.range_succ]

/-- Cutting the bytes of `takeDataPacket` gives the packets back. -/
theorem slices_packetBytes (content : List Byte) (packet : DeviceId) :
    slices (packetBytes content packet) = packetsOf content packet := by
  rw [packetBytes_eq_flatten]
  refine slices_flatten _ (fun i hi => packetAt_length_of_lt hi) (packetAt_length_le _ _) ?_
  intro i
  rw [packetAt_length]
  omega

/-- Every packet adds a header to the file. -/
theorem packetBytes_length (content : List Byte) (packet : DeviceId) :
    (packetBytes content packet).length = content.length + packetTotal content.length * 32 := by
  rw [packetBytes_eq_flatten]
  cases htotal : packetTotal content.length with
  | zero =>
      have hzero : content.length = 0 := by
        rw [packetTotal_eq] at htotal
        omega
      have hnil : packetsOf content packet = [] := by simp [packetsOf, htotal]
      rw [hnil, hzero]
      rfl
  | succ last =>
      have hlast := packetData_last htotal.symm
      have hlength := packetAt_length content packet last
      have hfull : ((List.range last).map (packetAt content packet)).flatten.length =
          last * 1024 := flatten_full_length fun i hi => packetAt_length_of_lt (by omega)
      rw [packetsOf_eq_append packet htotal.symm, List.flatten_append, List.length_append, hfull]
      simp only [List.flatten_cons, List.flatten_nil, List.append_nil]
      rw [hlength, ← hlast]
      ring

end RobotServer
