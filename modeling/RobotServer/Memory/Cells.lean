import Mathlib.Data.List.GetD
import Mathlib.Data.List.Induction
import Mathlib.Tactic.Common

/-!
# Cells — fixed arrays with checked element access

`Cells n α` is an array of exactly `n` elements.  Indexed reads and writes take a signed index and
are partial (`get?`, `set?`): an index outside the array has no meaning.  `copy` is the element-wise
copy loop of imperative code; it is defined exactly when every access it makes is in range, and
then it is one `place` of one `slice` (`copy_eq_some`).  `writeAll` is a sequence of single writes:
the last one to a place counts (`peek_writeAll`).
-/

namespace Memory

@[ext]
structure Cells (n : Nat) (α : Type) where
  cell : Fin n → α

namespace Cells

variable {n k : Nat} {α : Type} [Inhabited α]

/-! ## Reading and building arrays -/

/-- The element at `i`, and the default element outside the array. -/
def peek (m : Cells n α) (i : Nat) : α :=
  if h : i < n then m.cell ⟨i, h⟩ else default

/-- The array whose element at `i` is `f i`. -/
def tabulate (f : Nat → α) : Cells n α :=
  ⟨fun i => f i⟩

def fill (a : α) : Cells n α :=
  tabulate fun _ => a

/-- The `len` elements from offset `off` on. -/
def slice (m : Cells n α) (off len : Nat) : List α :=
  (List.range len).map fun i => m.peek (off + i)

/-- The array with the list `as` written from offset `off` on. -/
def place (m : Cells n α) (off : Nat) (as : List α) : Cells n α :=
  tabulate fun j => if off ≤ j ∧ j < off + as.length then as.getD (j - off) default else m.peek j

theorem ext_peek {m m' : Cells n α} (h : ∀ i, i < n → m.peek i = m'.peek i) : m = m' := by
  ext i
  simpa [peek] using h i.val i.isLt

omit [Inhabited α] in
@[simp] theorem cell_tabulate (f : Nat → α) (i : Fin n) :
    (tabulate f : Cells n α).cell i = f i := rfl

@[simp] theorem peek_tabulate {f : Nat → α} {i : Nat} (h : i < n) :
    (tabulate f : Cells n α).peek i = f i := by
  simp [peek, h]

@[simp] theorem peek_fill {a : α} {i : Nat} (h : i < n) : (fill a : Cells n α).peek i = a := by
  simp [fill, h]

theorem peek_place {m : Cells n α} {off : Nat} {as : List α} {j : Nat} (h : j < n) :
    (m.place off as).peek j =
      if off ≤ j ∧ j < off + as.length then as.getD (j - off) default else m.peek j := by
  simp [place, h]

theorem peek_place_of_lt {m : Cells n α} {off : Nat} {as : List α} {j : Nat}
    (h : j < n) (hj : j < off) : (m.place off as).peek j = m.peek j := by
  rw [peek_place h, if_neg (by omega)]

/-- The written elements. -/
theorem peek_place_add (m : Cells n α) (off : Nat) (as : List α) {j : Nat} (h : off + j < n)
    (hj : j < as.length) : (m.place off as).peek (off + j) = as.getD j default := by
  have hin : off ≤ off + j ∧ off + j < off + as.length := ⟨Nat.le_add_right _ _, by omega⟩
  rw [peek_place h, if_pos hin, Nat.add_sub_cancel_left]

/-- The elements behind a write. -/
theorem peek_place_of_le {m : Cells n α} {off : Nat} {as : List α} {j : Nat}
    (h : j < n) (hj : off + as.length ≤ j) : (m.place off as).peek j = m.peek j := by
  rw [peek_place h, if_neg (by omega)]

@[simp] theorem place_nil (m : Cells n α) (off : Nat) : m.place off [] = m := by
  refine ext_peek fun j hj => ?_
  rw [peek_place hj, if_neg (by simp)]

/-- Two adjacent writes are one write of the concatenation. -/
theorem place_place (m : Cells n α) (off : Nat) (as bs : List α) :
    (m.place off as).place (off + as.length) bs = m.place off (as ++ bs) := by
  refine ext_peek fun j hj => ?_
  rw [peek_place hj, peek_place hj, peek_place hj]
  by_cases h1 : off + as.length ≤ j ∧ j < off + as.length + bs.length
  · have h2 : as.length ≤ j - off := by omega
    have h3 : off ≤ j ∧ j < off + (as ++ bs).length := by
      simp only [List.length_append]
      omega
    rw [if_pos h1, if_pos h3, List.getD_append_right _ _ _ _ h2]
    congr 1
    omega
  · by_cases h2 : off ≤ j ∧ j < off + as.length
    · have h3 : off ≤ j ∧ j < off + (as ++ bs).length := by
        simp only [List.length_append]
        omega
      rw [if_neg h1, if_pos h2, if_pos h3, List.getD_append _ _ _ _ (by omega)]
    · have h3 : ¬ (off ≤ j ∧ j < off + (as ++ bs).length) := by
        simp only [List.length_append]
        omega
      rw [if_neg h1, if_neg h2, if_neg h3]

/-- A write hides an earlier one that is no longer. -/
theorem place_place_cover (m : Cells n α) (off : Nat) {as bs : List α}
    (h : as.length ≤ bs.length) : (m.place off as).place off bs = m.place off bs := by
  refine ext_peek ?_
  intro j hj
  rw [peek_place hj, @peek_place n α _ m off bs j hj]
  by_cases hin : off ≤ j ∧ j < off + bs.length
  · rw [if_pos hin, if_pos hin]
  · rw [if_neg hin, if_neg hin, peek_place hj, if_neg (by omega)]

@[simp] theorem slice_length (m : Cells n α) (off len : Nat) : (m.slice off len).length = len := by
  simp [slice]

theorem slice_zero (m : Cells n α) (off : Nat) : m.slice off 0 = [] := rfl

theorem slice_succ (m : Cells n α) (off len : Nat) :
    m.slice off (len + 1) = m.slice off len ++ [m.peek (off + len)] := by
  simp [slice, List.range_succ]

theorem getD_slice {m : Cells n α} {off len i : Nat} (h : i < len) :
    (m.slice off len).getD i default = m.peek (off + i) := by
  simp [slice, List.getD_eq_getElem?_getD, h]

theorem slice_congr {m m' : Cells n α} {off len : Nat}
    (h : ∀ i, off ≤ i → i < off + len → m.peek i = m'.peek i) :
    m.slice off len = m'.slice off len := by
  refine List.map_congr_left ?_
  intro i hi
  exact h _ (Nat.le_add_right _ _) (Nat.add_lt_add_left (List.mem_range.mp hi) _)

/-- A slice is cut anywhere. -/
theorem slice_add (m : Cells n α) (off first second : Nat) :
    m.slice off (first + second) = m.slice off first ++ m.slice (off + first) second := by
  simp only [slice, List.range_add, List.map_append, List.map_map]
  refine congrArg _ (List.map_congr_left ?_)
  intro i _
  exact congrArg m.peek (Nat.add_assoc _ _ _).symm

/-- A part of a slice is a slice. -/
theorem slice_drop_take (m : Cells n α) (off : Nat) {len skip count : Nat}
    (h : skip + count ≤ len) : ((m.slice off len).drop skip).take count = m.slice (off + skip) count := by
  refine List.ext_getElem (by simp; omega) fun i h1 h2 => ?_
  simp [slice, Nat.add_assoc]

/-- A slice is determined by the elements it reads. -/
theorem slice_eq_of_peek (m : Cells n α) (off : Nat) (as : List α)
    (h : ∀ i, i < as.length → m.peek (off + i) = as.getD i default) :
    m.slice off as.length = as := by
  refine List.ext_getElem (by simp) fun i h1 h2 => ?_
  have hi := h i h2
  rw [List.getD_eq_getElem _ _ h2] at hi
  simpa [slice] using hi

theorem slice_place_self (m : Cells n α) (off : Nat) (as : List α) (h : off + as.length ≤ n) :
    (m.place off as).slice off as.length = as := by
  refine slice_eq_of_peek _ _ _ fun i hi => ?_
  rw [peek_place (by omega), if_pos (by omega)]
  congr 1
  omega

theorem slice_fill (a : α) {off len : Nat} (h : off + len ≤ n) :
    (fill a : Cells n α).slice off len = List.replicate len a := by
  refine List.eq_replicate_iff.mpr ⟨slice_length _ _ _, ?_⟩
  intro b hb
  rcases List.mem_map.mp hb with ⟨i, hi, rfl⟩
  have hlt := List.mem_range.mp hi
  exact peek_fill (by omega)

/-- A slice that reaches behind a write at the head shows what stood there before. -/
theorem slice_place_over (m : Cells n α) {as : List α} {off len : Nat}
    (h : as.length ≤ off + len) (hn : off + len ≤ n) :
    (m.place 0 as).slice off len = as.drop off ++
      m.slice (max off as.length) (off + len - max off as.length) := by
  have hlength : len = (as.drop off).length + (off + len - max off as.length) := by
    rw [List.length_drop]
    omega
  refine List.ext_getElem (by simp; omega) ?_
  intro i hi hi'
  have hlt : i < len := by simpa using hi
  have hget : ((m.place 0 as).slice off len)[i] = (m.place 0 as).peek (off + i) := by simp [slice]
  rw [hget]
  rcases Nat.lt_or_ge (off + i) as.length with hin | hout
  · have hpeek := peek_place_add m 0 as (by omega : 0 + (off + i) < n) hin
    rw [Nat.zero_add, List.getD_eq_getElem _ _ hin] at hpeek
    rw [hpeek, List.getElem_append_left (by rw [List.length_drop]; omega), List.getElem_drop]
  · rw [peek_place_of_le (by omega) (by omega),
      List.getElem_append_right (by rw [List.length_drop]; omega)]
    simp only [slice, List.getElem_map, List.getElem_range, List.length_drop]
    congr 1
    omega

/-- An array of one element with a list written to its head. -/
theorem slice_place_fill {a : α} {as : List α} (h : as.length ≤ n) :
    ((fill a : Cells n α).place 0 as).slice 0 n = as ++ List.replicate (n - as.length) a := by
  have hslice := @slice_place_over n α _ (fill a) as 0 n
    (by rw [Nat.zero_add]; exact h) (Nat.le_of_eq (Nat.zero_add n))
  rw [List.drop_zero, Nat.zero_max, Nat.zero_add, slice_fill _ (by omega)] at hslice
  exact hslice

/-! ## Sequences of writes -/

/-- Writes of single elements, one after the other. -/
def writeAll (m : Cells n α) (writes : List (Nat × α)) : Cells n α :=
  writes.foldl (fun m w => m.place w.1 [w.2]) m

theorem writeAll_concat (m : Cells n α) (writes : List (Nat × α)) (w : Nat × α) :
    m.writeAll (writes ++ [w]) = (m.writeAll writes).place w.1 [w.2] := by
  rw [writeAll, List.foldl_append]
  rfl

theorem peek_place_singleton (m : Cells n α) (i : Nat) (a : α) {j : Nat} (h : j < n) :
    (m.place i [a]).peek j = if i = j then a else m.peek j := by
  rw [peek_place h, List.length_singleton]
  by_cases hij : i = j
  · rw [if_pos (by omega), if_pos hij, hij, Nat.sub_self]
    rfl
  · rw [if_neg (by omega), if_neg hij]

/-- The whole array behind a write of one element. -/
theorem slice_place_singleton (m : Cells n α) (i : Nat) (a : α) :
    (m.place i [a]).slice 0 n = (m.slice 0 n).set i a := by
  refine List.ext_getElem (by rw [List.length_set, slice_length, slice_length]) ?_
  intro j hj _
  have hlt : j < n := slice_length (m.place i [a]) 0 n ▸ hj
  rw [List.getElem_set]
  simp only [slice, List.getElem_map, List.getElem_range, Nat.zero_add]
  exact peek_place_singleton m i a hlt

/-- A write in front of another one may be done behind it. -/
theorem place_singleton_comm (m : Cells n α) (a : α) (as : List α) {i off : Nat} (hi : i < off) :
    (m.place i [a]).place off as = (m.place off as).place i [a] := by
  refine ext_peek ?_
  intro j hj
  rw [peek_place_singleton _ _ _ hj, @peek_place n α _ (m.place i [a]) off as j hj,
    @peek_place n α _ m off as j hj, peek_place_singleton _ _ _ hj]
  by_cases hij : i = j
  · rw [if_pos hij, if_neg (by omega), if_pos hij]
  · rw [if_neg hij, if_neg hij]

/-- The last write to a place counts. -/
theorem peek_writeAll (m : Cells n α) (writes : List (Nat × α)) {j : Nat} (h : j < n) :
    (m.writeAll writes).peek j =
      ((writes.reverse.find? fun w => w.1 == j).map Prod.snd).getD (m.peek j) := by
  induction writes using List.reverseRecOn with
  | nil => rfl
  | append_singleton writes w ih =>
      rw [writeAll_concat, peek_place_singleton _ _ _ h, ih, List.reverse_append,
        List.reverse_singleton, List.singleton_append, List.find?_cons]
      by_cases hj : w.1 = j
      · rw [if_pos hj, beq_iff_eq.mpr hj]
        rfl
      · rw [if_neg hj, beq_eq_false_iff_ne.mpr hj]

/-- What is not written stays. -/
theorem peek_writeAll_of_ne (m : Cells n α) {writes : List (Nat × α)} {j : Nat} (h : j < n)
    (hne : ∀ w ∈ writes, w.1 ≠ j) : (m.writeAll writes).peek j = m.peek j := by
  have hnone : (writes.reverse.find? fun w => w.1 == j) = none := by
    refine List.find?_eq_none.mpr ?_
    intro w hw heq
    exact hne w (List.mem_reverse.mp hw) (beq_iff_eq.mp heq)
  rw [peek_writeAll m writes h, hnone]
  rfl

/-! ## Checked access -/

def get? (m : Cells n α) (i : Int) : Option α :=
  if 0 ≤ i ∧ i < n then some (m.peek i.toNat) else none

def set? (m : Cells n α) (i : Int) (a : α) : Option (Cells n α) :=
  if 0 ≤ i ∧ i < n then some (m.place i.toNat [a]) else none

/-- The first `len` elements, where the array has that many. -/
def upTo? (m : Cells n α) (len : Int) : Option (List α) :=
  if 0 ≤ len ∧ len ≤ n then some (m.slice 0 len.toNat) else none

/-- The loop `for (i = 0; i < count; i++) dst[to + i] = src[from + i];`. -/
def copy (dst : Cells n α) (dstOff : Int) (src : Cells k α) (srcOff : Int) : Nat → Option (Cells n α)
  | 0 => some dst
  | count + 1 => do
      let dst ← copy dst dstOff src srcOff count
      let a ← src.get? (srcOff + count)
      dst.set? (dstOff + count) a

theorem get?_of_lt {m : Cells n α} {i : Nat} (h : i < n) : m.get? (i : Int) = some (m.peek i) := by
  rw [get?, if_pos (by omega), Int.toNat_natCast]

theorem set?_of_lt {m : Cells n α} {i : Nat} {a : α} (h : i < n) :
    m.set? (i : Int) a = some (m.place i [a]) := by
  rw [set?, if_pos (by omega), Int.toNat_natCast]

theorem upTo?_of_le {m : Cells n α} {len : Nat} (h : len ≤ n) :
    m.upTo? (len : Int) = some (m.slice 0 len) := by
  rw [upTo?, if_pos (by omega), Int.toNat_natCast]

theorem get?_isSome_iff {m : Cells n α} {i : Int} : (m.get? i).isSome ↔ 0 ≤ i ∧ i < n := by
  rw [get?]
  split
  · next h => exact iff_of_true rfl h
  · next h => exact iff_of_false Bool.false_ne_true h

theorem set?_isSome_iff {m : Cells n α} {i : Int} {a : α} :
    (m.set? i a).isSome ↔ 0 ≤ i ∧ i < n := by
  rw [set?]
  split
  · next h => exact iff_of_true rfl h
  · next h => exact iff_of_false Bool.false_ne_true h

/-- A write behind a partial step. -/
theorem bind_set?_isSome_iff (o : Option (Cells n α)) (i : Nat) (a : α) :
    (o.bind fun m => m.set? (i : Int) a).isSome ↔ o.isSome ∧ i < n := by
  cases o with
  | none => simp
  | some m => simp [set?_isSome_iff]

theorem upTo?_isSome_iff {m : Cells n α} {len : Int} : (m.upTo? len).isSome ↔ 0 ≤ len ∧ len ≤ n := by
  rw [upTo?]
  split
  · next h => exact iff_of_true rfl h
  · next h => exact iff_of_false Bool.false_ne_true h

/-- A copy is defined exactly when every access of its loop is in range. -/
theorem copy_isSome_iff (dst : Cells n α) (src : Cells k α) (dstOff srcOff : Int) (count : Nat) :
    (dst.copy dstOff src srcOff count).isSome ↔
      ∀ i : Nat, i < count → (0 ≤ dstOff + i ∧ dstOff + i < n) ∧ 0 ≤ srcOff + i ∧ srcOff + i < k := by
  induction count with
  | zero => exact iff_of_true rfl fun i hi => absurd hi (Nat.not_lt_zero i)
  | succ count ih =>
      have hstep : (dst.copy dstOff src srcOff (count + 1)).isSome ↔
          (dst.copy dstOff src srcOff count).isSome ∧ (src.get? (srcOff + count)).isSome ∧
            0 ≤ dstOff + count ∧ dstOff + count < n := by
        rw [copy]
        cases hcopy : dst.copy dstOff src srcOff count with
        | none => simp
        | some m =>
            cases hget : src.get? (srcOff + count) with
            | none => simp
            | some a => simp [set?_isSome_iff]
      rw [hstep, ih, get?_isSome_iff]
      constructor
      · rintro ⟨hbefore, hread, hwrite⟩ i hi
        rcases Nat.lt_succ_iff_lt_or_eq.mp hi with hlt | rfl
        · exact hbefore i hlt
        · exact ⟨hwrite, hread⟩
      · intro hall
        have hlast := hall count (Nat.lt_succ_self count)
        exact ⟨fun i hi => hall i (Nat.lt_succ_of_lt hi), hlast.2, hlast.1⟩

/-- A copy whose accesses are all in range writes one slice of the source. -/
theorem copy_eq_some (dst : Cells n α) (src : Cells k α) (dstOff srcOff count : Nat)
    (hdst : dstOff + count ≤ n) (hsrc : srcOff + count ≤ k) :
    dst.copy (dstOff : Int) src (srcOff : Int) count = some (dst.place dstOff (src.slice srcOff count)) := by
  induction count with
  | zero => simp [copy, slice_zero]
  | succ count ih =>
      have hget : src.get? ((srcOff : Int) + count) = some (src.peek (srcOff + count)) := by
        rw [← Int.natCast_add]
        exact get?_of_lt (by omega)
      have hset : ∀ a : α, (dst.place dstOff (src.slice srcOff count)).set? ((dstOff : Int) + count) a =
          some ((dst.place dstOff (src.slice srcOff count)).place (dstOff + count) [a]) := by
        intro a
        rw [← Int.natCast_add]
        exact set?_of_lt (by omega)
      have hplace := place_place dst dstOff (src.slice srcOff count) [src.peek (srcOff + count)]
      rw [slice_length] at hplace
      simp [copy, ih (by omega) (by omega), hget, hset, hplace, slice_succ]

end Cells

end Memory
