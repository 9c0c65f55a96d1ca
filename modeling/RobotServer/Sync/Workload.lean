import Mathlib.Data.List.Range
import RobotServer.Model.SyncData

/-!
# Workload — the loop that copies a workload

The counter of the loop is a `uint8_t`, the size it is compared with a `size_t`, and the array has
128 characters.  `copyWorkload` runs the loop for some rounds and keeps the indices it writes.

- from 256 bytes on the counter wraps around for ever (`copyWorkload_never_ends`);
- from 129 bytes on it leaves the array (`index_mem_writes`);
- `copies_iff`: `FitsJsonBuffer` is what the copy needs.
-/

namespace RobotServer

namespace SyncData

open CText Memory

/-- `json_buffer` -/
abbrev JsonBuffer := Cells 128 Byte

/-- What a number of rounds leave behind: the indices written in order, whether the loop is over,
and the array; a write outside of it changes nothing here. -/
structure CopyRun where
  writes : List Nat
  ended : Bool
  buffer : JsonBuffer

/-- `for (; i < *result_size; i++) json_buffer[i] = (char)workload[i];`, for at most `fuel` rounds. -/
def copyWorkload (workload : List Byte) : Nat → UInt8 → JsonBuffer → CopyRun
  | 0, i, buffer => ⟨[], decide (¬ i.toNat < workload.length), buffer⟩
  | fuel + 1, i, buffer =>
      if i.toNat < workload.length then
        let run := copyWorkload workload fuel (i + 1)
          (buffer.place i.toNat [workload.getD i.toNat 0])
        { run with writes := i.toNat :: run.writes }
      else ⟨[], true, buffer⟩

/-- The loop from the start, over the array as it is initialised. -/
def copyFromStart (workload : List Byte) (fuel : Nat) : CopyRun :=
  copyWorkload workload fuel 0 (Cells.fill 0)

/-- The copy ends, stays in the array, and leaves a terminator there. -/
structure Copies (workload : List Byte) : Prop where
  ends : ∃ fuel, (copyFromStart workload fuel).ended = true
  in_bounds : ∀ fuel, ∀ i ∈ (copyFromStart workload fuel).writes, i < 128
  terminated : ∀ fuel, (copyFromStart workload fuel).ended = true →
    (0 : Byte) ∈ (copyFromStart workload fuel).buffer.slice 0 128

variable {workload : List Byte}

theorem copyWorkload_succ_of_lt {i : UInt8} (h : i.toNat < workload.length) (fuel : Nat)
    (buffer : JsonBuffer) :
    copyWorkload workload (fuel + 1) i buffer =
      { copyWorkload workload fuel (i + 1) (buffer.place i.toNat [workload.getD i.toNat 0]) with
        writes := i.toNat :: (copyWorkload workload fuel (i + 1)
          (buffer.place i.toNat [workload.getD i.toNat 0])).writes } :=
  if_pos h

theorem copyWorkload_of_le {i : UInt8} (h : workload.length ≤ i.toNat) (fuel : Nat)
    (buffer : JsonBuffer) : copyWorkload workload fuel i buffer = ⟨[], true, buffer⟩ := by
  cases fuel with
  | zero =>
      rw [copyWorkload, decide_eq_true (Nat.not_lt.mpr h)]
  | succ fuel => exact if_neg (Nat.not_lt.mpr h)

/-! ## A long workload -/

/-- The counter never reaches a size of 256 or more. -/
theorem copyWorkload_never_ends (hlong : 256 ≤ workload.length) (fuel : Nat) :
    ∀ (i : UInt8) (buffer : JsonBuffer), (copyWorkload workload fuel i buffer).ended = false := by
  induction fuel with
  | zero =>
      intro i buffer
      exact decide_eq_false (not_not.mpr (i.toNat_lt.trans_le hlong))
  | succ fuel ih =>
      intro i buffer
      rw [copyWorkload_succ_of_lt (i.toNat_lt.trans_le hlong)]
      exact ih (i + 1) _

theorem toNat_ofNat_of_lt {i : Nat} (h : i < 256) : (UInt8.ofNat i).toNat = i := by
  rw [UInt8.toNat_ofNat']
  exact Nat.mod_eq_of_lt h

theorem ofNat_add_one (i : Nat) : UInt8.ofNat i + 1 = UInt8.ofNat (i + 1) :=
  (UInt8.ofNat_add i 1).symm

/-- Every index below the size and the range of the counter is written. -/
theorem index_mem_writes (k : Nat) :
    ∀ {i : Nat} (buffer : JsonBuffer), i + k < workload.length → i + k < 256 →
      i + k ∈ (copyWorkload workload (k + 1) (UInt8.ofNat i) buffer).writes := by
  induction k with
  | zero =>
      intro i buffer hlength hbyte
      have hi : (UInt8.ofNat i).toNat = i := toNat_ofNat_of_lt hbyte
      rw [copyWorkload_succ_of_lt (by rw [hi]; exact hlength), hi]
      exact List.mem_cons_self
  | succ k ih =>
      intro i buffer hlength hbyte
      have hi : (UInt8.ofNat i).toNat = i := toNat_ofNat_of_lt (by omega)
      have hsum : i + (k + 1) = i + 1 + k := by omega
      rw [hsum] at hlength hbyte ⊢
      rw [copyWorkload_succ_of_lt (by rw [hi]; omega), ofNat_add_one]
      exact List.mem_cons_of_mem _ (ih _ hlength hbyte)

/-! ## A workload that fits -/

/-- The test in front of a write. -/
theorem lt_of_mem_writes (fuel : Nat) :
    ∀ {i : UInt8} {buffer : JsonBuffer} {j : Nat},
      j ∈ (copyWorkload workload fuel i buffer).writes → j < workload.length := by
  induction fuel with
  | zero =>
      intro i buffer j hj
      cases hj
  | succ fuel ih =>
      intro i buffer j hj
      by_cases hi : i.toNat < workload.length
      · rw [copyWorkload_succ_of_lt hi] at hj
        rcases List.mem_cons.mp hj with rfl | hrest
        · exact hi
        · exact ih hrest
      · rw [copyWorkload_of_le (Nat.not_lt.mp hi)] at hj
        cases hj

/-- The rest of the loop behind the first `i` bytes. -/
theorem copyWorkload_rest (hbyte : workload.length ≤ 255) (buffer : JsonBuffer) (fuel : Nat) :
    ∀ i, i ≤ workload.length →
      ((copyWorkload workload fuel (UInt8.ofNat i) (buffer.place 0 (workload.take i))).ended = true ↔
        workload.length ≤ i + fuel) ∧
      ((copyWorkload workload fuel (UInt8.ofNat i) (buffer.place 0 (workload.take i))).ended = true →
        (copyWorkload workload fuel (UInt8.ofNat i) (buffer.place 0 (workload.take i))).buffer =
          buffer.place 0 workload) := by
  induction fuel with
  | zero =>
      intro i hi
      have hnat : (UInt8.ofNat i).toNat = i := toNat_ofNat_of_lt (by omega)
      simp only [copyWorkload, hnat, decide_eq_true_eq, Nat.not_lt, Nat.add_zero, true_and]
      exact fun hall => by rw [List.take_of_length_le hall]
  | succ fuel ih =>
      intro i hi
      have hnat : (UInt8.ofNat i).toNat = i := toNat_ofNat_of_lt (by omega)
      by_cases hlt : i < workload.length
      · -- The byte at `i` is written behind the first `i` bytes.
        have hplace : (buffer.place 0 (workload.take i)).place i [workload.getD i 0] =
            buffer.place 0 (workload.take (i + 1)) := by
          have hbehind := Cells.place_place buffer 0 (workload.take i) [workload.getD i 0]
          rw [List.length_take_of_le hi, Nat.zero_add, List.getD_eq_getElem _ _ hlt,
            List.take_append_getElem hlt] at hbehind
          rw [List.getD_eq_getElem _ _ hlt]
          exact hbehind
        rw [copyWorkload_succ_of_lt (by rw [hnat]; exact hlt), hnat, ofNat_add_one, hplace]
        have hrest := ih (i + 1) hlt
        refine ⟨hrest.1.trans ?_, hrest.2⟩
        omega
      · have hall : workload.length ≤ i := Nat.not_lt.mp hlt
        rw [copyWorkload_of_le (by rw [hnat]; exact hall), List.take_of_length_le hall]
        exact ⟨iff_of_true rfl (by omega), fun _ => rfl⟩

theorem copyFromStart_ended (hbyte : workload.length ≤ 255) (fuel : Nat) :
    ((copyFromStart workload fuel).ended = true ↔ workload.length ≤ fuel) ∧
      ((copyFromStart workload fuel).ended = true →
        (copyFromStart workload fuel).buffer = (Cells.fill 0).place 0 workload) := by
  have hrest := copyWorkload_rest hbyte (Cells.fill 0) fuel 0 (Nat.zero_le _)
  rw [List.take_zero, Cells.place_nil, Nat.zero_add] at hrest
  exact hrest

/-- The array holds the workload, and zeros behind it. -/
theorem slice_place_workload (h : workload.length ≤ 128) :
    ((Cells.fill 0 : JsonBuffer).place 0 workload).slice 0 128 =
      workload ++ List.replicate (128 - workload.length) 0 :=
  Cells.slice_place_fill h

theorem zero_mem_buffer_iff (h : workload.length ≤ 128) :
    (0 : Byte) ∈ ((Cells.fill 0 : JsonBuffer).place 0 workload).slice 0 128 ↔
      FitsJsonBuffer workload := by
  rw [slice_place_workload h, List.mem_append, List.mem_replicate, FitsJsonBuffer]
  constructor
  · rintro (hzero | ⟨hrest, -⟩)
    · rcases h.lt_or_eq with hlt | heq
      · exact .inl hlt
      · exact .inr ⟨heq, hzero⟩
    · exact .inl (by omega)
  · rintro (hlt | ⟨-, hzero⟩)
    · exact .inr ⟨by omega, rfl⟩
    · exact .inl hzero

theorem FitsJsonBuffer.length_le (h : FitsJsonBuffer workload) : workload.length ≤ 128 := by
  rcases h with hlt | ⟨heq, -⟩
  · exact hlt.le
  · exact heq.le

/-- **The copy of a workload ends, stays in its array and leaves a terminator exactly for workloads
of at most 127 bytes, and for those of 128 bytes with a NUL among them.** -/
theorem copies_iff (workload : List Byte) : Copies workload ↔ FitsJsonBuffer workload := by
  constructor
  · intro h
    have hshort : workload.length ≤ 128 := by
      by_contra hlong
      have hwrite : 128 ∈ (copyFromStart workload 129).writes := by
        have hmem := @index_mem_writes workload 128 0 (Cells.fill 0) (by omega) (by decide)
        rw [Nat.zero_add] at hmem
        exact hmem
      exact absurd (h.in_bounds 129 128 hwrite) (Nat.lt_irrefl 128)
    rcases h.ends with ⟨fuel, hended⟩
    have hterminated := h.terminated fuel hended
    rw [(copyFromStart_ended (by omega) fuel).2 hended] at hterminated
    exact (zero_mem_buffer_iff hshort).mp hterminated
  · intro h
    have hshort := h.length_le
    have hended := copyFromStart_ended (by omega : workload.length ≤ 255)
    refine ⟨⟨workload.length, (hended _).1.mpr le_rfl⟩, ?_, ?_⟩
    · intro fuel i hi
      exact (lt_of_mem_writes fuel hi).trans_le hshort
    · intro fuel hfuel
      rw [(hended fuel).2 hfuel]
      exact (zero_mem_buffer_iff hshort).mpr h

/-- A workload of 256 bytes. -/
theorem not_copies_long : ∃ workload : List Byte, ¬ Copies workload := by
  refine ⟨List.replicate 256 0x20, fun h => ?_⟩
  rcases h.ends with ⟨fuel, hended⟩
  have hlong : 256 ≤ (List.replicate 256 (0x20 : Byte)).length := by rw [List.length_replicate]
  rw [copyFromStart, copyWorkload_never_ends hlong] at hended
  cases hended

theorem cstr_append_terminator (t u : Text) : cstr (t ++ 0 :: u) = cstr t := by
  by_cases h : (0 : Byte) ∈ t
  · exact cstr_append_of_mem h _
  · rw [cstr_append_zero h, cstr_eq_self h]

/-- What the jobs take for the text of a workload is the C string the copy leaves. -/
theorem jsonBuffer_eq_copied {fuel : Nat} (h : FitsJsonBuffer workload)
    (hended : (copyFromStart workload fuel).ended = true) :
    jsonBuffer workload = some (cstr ((copyFromStart workload fuel).buffer.slice 0 128)) := by
  have hshort := h.length_le
  have htext : cstr (workload ++ List.replicate (128 - workload.length) 0) = cstr workload := by
    cases hroom : 128 - workload.length with
    | zero => rw [List.replicate_zero, List.append_nil]
    | succ room =>
        rw [List.replicate_succ]
        exact cstr_append_terminator _ _
  rw [(copyFromStart_ended (by omega) fuel).2 hended, slice_place_workload hshort, htext]
  exact if_pos h

end SyncData

end RobotServer
