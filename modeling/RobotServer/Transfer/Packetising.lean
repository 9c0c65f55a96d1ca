import RobotServer.Transfer.Packets

/-!
# Packetising — the writes of `takeDataPacket` and `takeDataPacketFlag`

`takeDataPacket` writes byte after byte at a running index.  `takeDataPacketOutput` follows its
loops and keeps every write; the writes are the bytes of `packetBytes`, one index after another
(`takeDataPacketOutput_eq`), so they need one header for every packet besides the file.
-/

namespace RobotServer

open CText Memory

/-! ## A running index -/

/-- The output of `takeDataPacket`: the next index, and every write with its index so far. -/
structure PacketOutput where
  index : Nat
  writes : List (Byte × Nat)

namespace PacketOutput

/-- `data[index++] = b` -/
def put (out : PacketOutput) (b : Byte) : PacketOutput where
  index := out.index + 1
  writes := out.writes ++ [(b, out.index)]

/-- The loop that writes the bytes of a list. -/
def puts (out : PacketOutput) (bytes : List Byte) : PacketOutput :=
  bytes.foldl put out

/-- The writes are those of `bytes`, at the indices from 0 on. -/
structure Holds (out : PacketOutput) (bytes : List Byte) : Prop where
  index_eq : out.index = bytes.length
  writes_eq : out.writes = bytes.zipIdx

variable {out : PacketOutput} {bytes : List Byte}

theorem Holds.put (h : out.Holds bytes) (b : Byte) : (out.put b).Holds (bytes ++ [b]) where
  index_eq := by
    rw [List.length_append, ← h.index_eq]
    rfl
  writes_eq := by
    rw [List.zipIdx_append, ← h.writes_eq, Nat.zero_add, ← h.index_eq]
    rfl

theorem Holds.puts (more : List Byte) :
    ∀ {out : PacketOutput} {bytes : List Byte}, out.Holds bytes →
      (out.puts more).Holds (bytes ++ more) := by
  induction more with
  | nil =>
      intro out bytes h
      rw [List.append_nil]
      exact h
  | cons b more ih =>
      intro out bytes h
      have hrest := ih (h.put b)
      rw [List.append_assoc] at hrest
      exact hrest

/-- A loop whose rounds write one piece each. -/
theorem Holds.foldl {step : PacketOutput → Nat → PacketOutput} {piece : Nat → List Byte}
    (hstep : ∀ {out bytes} (i : Nat), Holds out bytes → (step out i).Holds (bytes ++ piece i))
    (rounds : List Nat) :
    ∀ {out : PacketOutput} {bytes : List Byte}, out.Holds bytes →
      (rounds.foldl step out).Holds (bytes ++ rounds.flatMap piece) := by
  induction rounds with
  | nil =>
      intro out bytes h
      rw [List.flatMap_nil, List.append_nil]
      exact h
  | cons i rounds ih =>
      intro out bytes h
      have hrest := ih (hstep i h)
      rw [List.append_assoc] at hrest
      exact hrest

theorem holds_empty : Holds ⟨0, []⟩ [] :=
  ⟨rfl, rfl⟩

end PacketOutput

/-! ## The two loops of `takeDataPacket` -/

/-- A round of the loop over the full packets. -/
def putPacket (buffer : List Byte) (packet : DeviceId) (out : PacketOutput) (i : Nat) :
    PacketOutput :=
  let out := out.puts (packetHeader packet (packetTotal buffer.length) i lenBlockData)
  out.puts ((buffer.drop (i * lenBlockData)).take lenBlockData)

/-- `takeDataPacket`, with every write to `data`; its result is the index at the end. -/
def takeDataPacketOutput (buffer : List Byte) (packet : DeviceId) : PacketOutput :=
  let size := buffer.length
  let out := (List.range (size / lenBlockData)).foldl (putPacket buffer packet) ⟨0, []⟩
  let i := size / lenBlockData
  if size % lenBlockData ≠ 0 then
    let out := out.puts (packetHeader packet (packetTotal size) i (size % lenBlockData))
    out.puts ((buffer.drop (i * lenBlockData)).take (size % lenBlockData))
  else out

/-- **`takeDataPacket` writes the bytes of `packetBytes` to the indices from 0 on.** -/
theorem takeDataPacketOutput_holds (buffer : List Byte) (packet : DeviceId) :
    (takeDataPacketOutput buffer packet).Holds (packetBytes buffer packet) := by
  have hfull : ((List.range (buffer.length / lenBlockData)).foldl (putPacket buffer packet)
      ⟨0, []⟩).Holds ([] ++ (List.range (buffer.length / lenBlockData)).flatMap fun i =>
        packetHeader packet (packetTotal buffer.length) i lenBlockData ++
          (buffer.drop (i * lenBlockData)).take lenBlockData) := by
    refine PacketOutput.Holds.foldl ?_ _ PacketOutput.holds_empty
    intro out bytes i h
    rw [← List.append_assoc]
    exact (h.puts _).puts _
  rw [List.nil_append] at hfull
  simp only [takeDataPacketOutput, packetBytes]
  split
  · exact (hfull.puts _).puts _
  · exact hfull

/-- Writes at the indices from 0 on stay below a bound exactly when there are no more of them. -/
theorem forall_zipIdx_lt_iff {α : Type} (l : List α) (bound : Nat) :
    (∀ w ∈ l.zipIdx, w.2 < bound) ↔ l.length ≤ bound := by
  constructor
  · intro h
    by_contra hlong
    have hbound : bound < l.length := Nat.lt_of_not_le hlong
    have hmem : (l[bound], bound) ∈ l.zipIdx :=
      List.mk_mem_zipIdx_iff_getElem?.mpr (List.getElem?_eq_getElem hbound)
    exact Nat.lt_irrefl bound (h _ hmem)
  · intro h w hw
    exact (List.snd_lt_of_mem_zipIdx hw).trans_le h

/-! ## The loop of `takeDataPacketFlag` -/

/-- The indices written from round `i` on. -/
def flagIndices (length i : Nat) : List Nat :=
  if i * lenBlockPacket < length then
    (i * lenBlockPacket + 20) :: flagIndices length (i + 1)
  else []
termination_by length - i * lenBlockPacket
decreasing_by
  change length - (i + 1) * 1024 < length - i * 1024
  rename_i h
  change i * 1024 < length at h
  omega

theorem mem_flagIndices (length i j : Nat) :
    j ∈ flagIndices length i ↔
      ∃ k, i ≤ k ∧ k * lenBlockPacket < length ∧ j = k * lenBlockPacket + 20 := by
  fun_induction flagIndices length i with
  | case1 i hlt ih =>
      rw [List.mem_cons, ih]
      constructor
      · rintro (rfl | ⟨k, hk, hround, rfl⟩)
        · exact ⟨i, le_rfl, hlt, rfl⟩
        · exact ⟨k, (Nat.le_succ i).trans hk, hround, rfl⟩
      · rintro ⟨k, hk, hround, rfl⟩
        rcases hk.eq_or_lt with rfl | hlater
        · exact .inl rfl
        · exact .inr ⟨k, hlater, hround, rfl⟩
  | case2 i hge =>
      refine iff_of_false List.not_mem_nil ?_
      rintro ⟨k, hk, hround, rfl⟩
      exact hge ((Nat.mul_le_mul_right _ hk).trans_lt hround)

/-- A flag is written inside its packet. -/
theorem flagIndices_lt {length : Nat} (h : length ≤ lenBlockBuffer) (i : Nat) :
    ∀ j ∈ flagIndices length i, j < lenBlockBuffer := by
  intro j hj
  rcases (mem_flagIndices length i j).mp hj with ⟨k, -, hround, rfl⟩
  have hflag : k * 1024 < length → length ≤ 32768 → k * 1024 + 20 < 32768 := by
    omega
  exact hflag hround h

theorem flagPackets_isSome_iff (data : BlockData) (flag : Byte) (count : Nat) :
    (flagPackets data flag count).isSome ↔
      ∀ k, k < count → k * lenBlockPacket + 20 < lenBlockBuffer := by
  induction count with
  | zero => exact iff_of_true rfl fun k hk => absurd hk (Nat.not_lt_zero k)
  | succ count ih =>
      have hstep : (flagPackets data flag (count + 1)).isSome ↔
          (flagPackets data flag count).isSome ∧ count * lenBlockPacket + 20 < lenBlockBuffer :=
        Cells.bind_set?_isSome_iff _ _ _
      rw [hstep, ih]
      constructor
      · rintro ⟨hbefore, hlast⟩ k hk
        rcases Nat.lt_succ_iff_lt_or_eq.mp hk with hlt | rfl
        · exact hbefore k hlt
        · exact hlast
      · exact fun hall => ⟨fun k hk => hall k (Nat.lt_succ_of_lt hk), hall count (Nat.lt_succ_self _)⟩

/-- The writes are in range exactly where `takeDataPacketFlag` has a result. -/
theorem takeDataPacketFlag_isSome_iff (data : BlockData) (length : Nat) (flag : Byte) :
    (takeDataPacketFlag data length flag).isSome ↔
      ∀ j ∈ flagIndices length 0, j < lenBlockBuffer := by
  rw [takeDataPacketFlag, flagPackets_isSome_iff]
  have hrounds : ∀ k, k < (length + (lenBlockPacket - 1)) / lenBlockPacket ↔
      k * lenBlockPacket < length := by
    intro k
    change k < (length + 1023) / 1024 ↔ k * 1024 < length
    omega
  constructor
  · intro h j hj
    rcases (mem_flagIndices length 0 j).mp hj with ⟨k, -, hround, rfl⟩
    exact h k ((hrounds k).mpr hround)
  · intro h k hk
    exact h _ ((mem_flagIndices length 0 _).mpr ⟨k, Nat.zero_le k, (hrounds k).mp hk, rfl⟩)

/-! ## The bound -/

/-- The packets of a file fit the block buffer up to 32 full packets. -/
theorem packetBytes_length_le_iff (content : List Byte) (packet : DeviceId) :
    (packetBytes content packet).length ≤ lenBlockBuffer ↔ content.length ≤ 31744 := by
  rw [packetBytes_length, packetTotal_eq]
  change _ ≤ 32768 ↔ _
  omega

/-- **All writes of `takeDataPacket` and `takeDataPacketFlag` stay in the output buffer exactly for
the files of at most 31744 bytes.** -/
theorem packetising_fits_iff (content : List Byte) (packet : DeviceId) :
    ((∀ w ∈ (takeDataPacketOutput content packet).writes, w.2 < lenBlockBuffer) ∧
      ∀ j ∈ flagIndices (takeDataPacketOutput content packet).index 0, j < lenBlockBuffer) ↔
    content.length ≤ 31744 := by
  have hholds := takeDataPacketOutput_holds content packet
  rw [hholds.writes_eq, hholds.index_eq, forall_zipIdx_lt_iff, packetBytes_length_le_iff]
  constructor
  · exact fun h => h.1
  · intro h
    exact ⟨h, flagIndices_lt ((packetBytes_length_le_iff content packet).mpr h) 0⟩

/-- A file that fills the block buffer. -/
theorem packetising_too_long :
    ∃ (content : List Byte) (packet : DeviceId), content.length ≤ lenBlockBuffer ∧
      ¬ ∀ w ∈ (takeDataPacketOutput content packet).writes, w.2 < lenBlockBuffer := by
  refine ⟨List.replicate 32768 0, Vector.replicate 8 0, ?_, ?_⟩
  · rw [List.length_replicate]
  · rw [(takeDataPacketOutput_holds _ _).writes_eq, forall_zipIdx_lt_iff,
      packetBytes_length_le_iff, List.length_replicate]
    decide

/-- The writes are in range exactly where `takeDataPacket` has a result. -/
theorem takeDataPacket_isSome_iff (content : List Byte) (data : BlockData) (packet : DeviceId) :
    (takeDataPacket content data packet).isSome ↔
      ∀ w ∈ (takeDataPacketOutput content packet).writes, w.2 < lenBlockBuffer := by
  rw [(takeDataPacketOutput_holds content packet).writes_eq, forall_zipIdx_lt_iff]
  simp only [takeDataPacket]
  split
  · next h => exact iff_of_true rfl h
  · next h => exact iff_of_false Bool.false_ne_true h

end RobotServer
