import RobotServer.Model.Separation

/-!
# Splitting — the pieces of a stored command

`separationTable_eq` connects the table of `Separation` with the list of its pieces, and
`separation_exact` says for which texts the pieces are those between the separators.
-/

namespace RobotServer

open CText Memory

/-! ## Tables -/

/-- A piece with its terminator, as the table points to it. -/
def entry (piece : Text) : Option (List Byte) :=
  some (piece ++ [0])

/-- The local variables behind the pieces of `table`, with `collected` in `ChArray`. -/
def splittingAt (table : List Text) (collected : Text) : Splitting where
  chArray := (Cells.fill 0).place 0 collected
  j := collected.length
  pTable := table.map entry ++ [none]
  count := table.length

theorem storePiece_concat (table : List Text) (piece : Text) :
    storePiece (table.map entry ++ [none]) table.length (piece ++ [0]) =
      some ((table ++ [piece]).map entry) := by
  have hlt : table.length < (table.map entry ++ [none]).length := by
    rw [List.length_append, List.length_map]
    exact Nat.lt_succ_self _
  rw [storePiece, if_pos hlt, List.set_append_right _ _ (by rw [List.length_map]),
    List.length_map, Nat.sub_self, List.map_append]
  rfl

/-- One place more than the table has. -/
theorem reallocTable_succ (table : List Text) :
    reallocTable (table.map entry) (table.length + 1) = table.map entry ++ [none] := by
  rw [reallocTable, List.take_of_length_le (by rw [List.length_map]; exact Nat.le_succ _),
    List.length_map, Nat.add_sub_cancel_left]
  rfl

theorem upTo?_collected {collected : Text} (h : collected.length + 1 ≤ 32) :
    ((Cells.fill 0 : ChArray).place 0 collected).upTo? ((collected.length + 1 : Nat) : Int) =
      some (collected ++ [0]) := by
  have hslice := @Cells.slice_place_over 32 Byte _ (Cells.fill 0) collected 0 (collected.length + 1)
    (by omega) (by omega)
  rw [List.drop_zero, Nat.zero_max, Nat.zero_add, Nat.add_sub_cancel_left,
    Cells.slice_fill 0 h] at hslice
  rw [Cells.upTo?_of_le h, hslice]
  rfl

theorem emit_splittingAt {table : List Text} {collected : Text} (hlen : collected.length + 1 ≤ 32)
    (hcount : table.length + 1 < 2 ^ 31) :
    (splittingAt table collected).emit =
      some { splittingAt table collected with
        pTable := (table ++ [collected]).map entry, count := table.length + 1 } := by
  unfold Splitting.emit splittingAt
  dsimp only
  rw [upTo?_collected hlen]
  change (do
    let pTable ← storePiece (table.map entry ++ [none]) table.length (collected ++ [0])
    let count ← intSum (table.length + 1)
    some (Splitting.mk _ _ pTable count)) = _
  rw [storePiece_concat, intSum, if_pos hcount]
  rfl

/-- A piece that fills `ChArray` has no terminator in it. -/
theorem emit_splittingAt_of_long {table : List Text} {collected : Text}
    (hlen : ¬ collected.length + 1 ≤ 32) : (splittingAt table collected).emit = none := by
  unfold Splitting.emit splittingAt
  dsimp only
  rw [Cells.upTo?, if_neg fun h => hlen (Int.ofNat_le.mp h.2)]
  rfl

/-! ## The loop -/

theorem next_of_ne {ch c : Byte} (hne : c ≠ ch) (table : List Text) (collected : Text) :
    (splittingAt table collected).next ch c =
      if collected.length < 32 then some (splittingAt table (collected ++ [c])) else none := by
  rw [Splitting.next, if_neg hne]
  split
  · next hlt =>
      have hset : ((Cells.fill 0 : ChArray).place 0 collected).set? (collected.length : Int) c =
          some ((Cells.fill 0).place 0 (collected ++ [c])) := by
        have hplace := Cells.place_place (Cells.fill 0 : ChArray) 0 collected [c]
        rw [Nat.zero_add] at hplace
        rw [Cells.set?_of_lt hlt, hplace]
      unfold splittingAt
      dsimp only
      rw [hset, List.length_append]
      rfl
  · next hge =>
      unfold splittingAt
      dsimp only
      rw [Cells.set?, if_neg fun h => hge (Int.ofNat_lt.mp h.2)]
      rfl

theorem next_self {ch : Byte} {table : List Text} {collected : Text}
    (hcount : table.length + 2 < 2 ^ 31) :
    (splittingAt table collected).next ch ch =
      if collected.length + 1 ≤ 32 then some (splittingAt (table ++ [collected]) []) else none := by
  have hlength : (table ++ [collected]).length = table.length + 1 := by
    rw [List.length_append, List.length_singleton]
  rw [Splitting.next, if_pos rfl]
  split
  · next hlen =>
      have htable := reallocTable_succ (table ++ [collected])
      rw [hlength] at htable
      rw [emit_splittingAt hlen (Nat.lt_of_succ_lt hcount)]
      change (do
        let places ← intSum (table.length + 1 + 1)
        some (Splitting.mk (Cells.fill 0) 0 (reallocTable ((table ++ [collected]).map entry) places)
          (table.length + 1))) = _
      rw [intSum, if_pos hcount]
      change some (Splitting.mk _ _ (reallocTable _ (table.length + 1 + 1)) _) = _
      rw [htable, splittingAt, Cells.place_nil, hlength]
      rfl
  · next hlen =>
      rw [emit_splittingAt_of_long hlen]
      rfl

/-- **The loop and the last piece** make the table of the pieces that `separationLoop` collects. -/
theorem foldlM_next_eq (ch : Byte) (rest : Text) : ∀ (table : List Text) (collected : Text),
    table.length + rest.count ch + 1 < 2 ^ 31 →
      (do
        let s ← rest.foldlM (Splitting.next ch) (splittingAt table collected)
        let s ← s.emit
        some (s.pTable, s.count)) =
      (separationLoop ch rest collected table).map fun pieces =>
        (pieces.map entry, pieces.length) := by
  -- By induction on what is left, from every state the loop can be in.
  induction rest with
  | nil =>
      intro table collected hcount
      rw [List.count_nil, Nat.add_zero] at hcount
      rw [List.foldlM_nil, separationLoop]
      change (do
        let s ← (splittingAt table collected).emit
        some (s.pTable, s.count)) = _
      split
      · next hlen =>
          rw [emit_splittingAt hlen hcount, Option.map_some, List.length_append,
            List.length_singleton]
          rfl
      · next hlen =>
          rw [emit_splittingAt_of_long hlen]
          rfl
  | cons c rest ih =>
      intro table collected hcount
      rw [List.foldlM_cons, separationLoop]
      by_cases hc : c = ch
      · subst hc
        -- A separator closes the piece and makes room for the next one.
        rw [List.count_cons_self] at hcount
        rw [next_self (by omega), if_pos rfl]
        split
        · refine ih (table ++ [collected]) [] ?_
          rw [List.length_append, List.length_singleton]
          omega
        · rfl
      -- Any other character is collected, as long as `ChArray` has room.
      · rw [List.count_cons_of_ne hc] at hcount
        rw [next_of_ne hc, if_neg hc]
        split
        · exact ih table (collected ++ [c]) hcount
        · rfl

/-! ## Sizes -/

theorem strlenInt_toNat {sequence : Text} (h : (cstr sequence).length < 2 ^ 31) :
    (strlenInt sequence).toNat = (cstr sequence).length :=
  (congrArg Int.toNat (natCast_bmod_of_lt h)).trans (Int.toNat_natCast _)

theorem splittingAt_nil : splittingAt [] [] = ⟨Cells.fill 0, 0, [none], 0⟩ := by
  rw [splittingAt, Cells.place_nil]
  rfl

/-- As long as the counters stay in their range, the table holds the pieces of `separation`. -/
theorem separationTable_eq {ch : Byte} {sequence : Text}
    (hlen : (cstr sequence).length < 2 ^ 31) (hcount : (cstr sequence).count ch + 1 < 2 ^ 31) :
    separationTable ch sequence [none] =
      (separation ch sequence).map fun pieces => (pieces.map entry, pieces.length) := by
  have hloop := foldlM_next_eq ch (cstr sequence) [] [] (by rw [List.length_nil]; omega)
  rw [splittingAt_nil] at hloop
  rw [separationTable, strlenInt_toNat hlen, List.take_length, separation]
  exact hloop

theorem toNat_bmod_of_le {n : Nat} (h : 2 ^ 31 ≤ n) (h' : n < 2 ^ 32) :
    ((n : Int).bmod (2 ^ 32)).toNat = 0 := by
  rw [Int.bmod_def]
  split
  · omega
  · omega

/-- A length that is no `int` ends the loop before its first round. -/
theorem separationTable_of_wrapped {ch : Byte} {sequence : Text}
    (h : (strlenInt sequence).toNat = 0) :
    separationTable ch sequence [none] = some ([entry []], 1) := by
  have hloop := foldlM_next_eq ch [] [] [] (by rw [List.length_nil, List.count_nil]; omega)
  rw [splittingAt_nil] at hloop
  rw [separationTable, h, List.take_zero]
  exact hloop

/-! ## Pieces -/

/-- The pieces without the separator that join to the text with it. -/
structure Splits (ch : Byte) (s : Text) (pieces : List Text) : Prop where
  free : ∀ piece ∈ pieces, ch ∉ piece
  joins : [ch].intercalate pieces = s
  length_eq : pieces.length = s.count ch + 1

theorem Splits.cons {ch : Byte} {first rest : Text} {pieces : List Text} (h : Splits ch rest pieces)
    (hfirst : ch ∉ first) : Splits ch (first ++ ch :: rest) (first :: pieces) := by
  have hne : pieces ≠ [] := by
    intro hnil
    have hlength := h.length_eq
    rw [hnil] at hlength
    cases hlength
  refine ⟨List.forall_mem_cons.mpr ⟨hfirst, h.free⟩, ?_, ?_⟩
  · rw [List.intercalate_cons_of_ne_nil hne, h.joins, List.append_assoc]
    rfl
  · rw [List.length_cons, h.length_eq, List.count_append, List.count_eq_zero.mpr hfirst,
      List.count_cons_self, Nat.zero_add]

theorem splits_singleton {ch : Byte} {s : Text} (h : ch ∉ s) : Splits ch s [s] := by
  refine ⟨?_, List.intercalate_singleton, ?_⟩
  · intro piece hpiece
    rw [List.mem_singleton.mp hpiece]
    exact h
  · rw [List.count_eq_zero.mpr h]
    rfl

/-- The runs of characters without the separator have at most 31 characters. -/
def ShortRuns (ch : Byte) (s : Text) : Prop :=
  ∀ run, run <:+: s → ch ∉ run → run.length ≤ 31

theorem separationLoop_splits {ch : Byte} (rest : Text) : ∀ (collected : Text) (table : List Text),
    ch ∉ collected → ShortRuns ch (collected ++ rest) →
      ∃ pieces, separationLoop ch rest collected table = some (table ++ pieces) ∧
        Splits ch (collected ++ rest) pieces := by
  induction rest with
  | nil =>
      intro collected table hcollected hruns
      rw [List.append_nil] at hruns ⊢
      have hlen := hruns collected (List.infix_refl _) hcollected
      refine ⟨[collected], ?_, splits_singleton hcollected⟩
      rw [separationLoop, if_pos (Nat.succ_le_succ hlen)]
  | cons c rest ih =>
      intro collected table hcollected hruns
      rw [separationLoop]
      by_cases hc : c = ch
      · subst hc
        -- What is collected is a run of its own, and the rest is split without it.
        have hlen := hruns collected (List.prefix_append _ _).isInfix hcollected
        have hrest : ShortRuns c ([] ++ rest) := fun run hrun =>
          hruns run (hrun.trans (List.suffix_append_of_suffix (List.suffix_cons _ _)).isInfix)
        rcases ih [] (table ++ [collected]) List.not_mem_nil hrest with ⟨pieces, hloop, hsplits⟩
        refine ⟨collected :: pieces, ?_, hsplits.cons hcollected⟩
        rw [if_pos rfl, if_pos (Nat.succ_le_succ hlen), hloop, List.append_assoc]
        rfl
      -- The character belongs to the run that is being collected.
      · have hnotMem : ch ∉ collected ++ [c] := by
          rw [List.mem_append, List.mem_singleton, not_or]
          exact ⟨hcollected, fun h => hc h.symm⟩
        have hsplit : collected ++ c :: rest = collected ++ [c] ++ rest :=
          (List.append_assoc collected [c] rest).symm
        rw [hsplit] at hruns ⊢
        have hlen := hruns (collected ++ [c]) (List.prefix_append _ _).isInfix hnotMem
        rw [List.length_append, List.length_singleton] at hlen
        rcases ih (collected ++ [c]) table hnotMem hruns with ⟨pieces, hloop, hsplits⟩
        refine ⟨pieces, ?_, hsplits⟩
        rw [if_neg hc, if_pos (Nat.lt_of_succ_le (hlen.trans (Nat.le_succ _))), hloop]

/-- `Separation` stays inside its arrays and returns the pieces of the text and their number. -/
def SplitsExactly (ch : Byte) (s : Text) (result : Option (ChTable × Nat)) : Prop :=
  ∃ pieces, result = some (pieces.map entry, s.count ch + 1) ∧ Splits ch s pieces

/-- **Splitting is exact and in bounds** for a text whose length, and the number of whose pieces, is
an `int`. -/
theorem separation_exact {ch : Byte} {sequence : Text} (hruns : ShortRuns ch (cstr sequence))
    (hlen : (cstr sequence).length < 2 ^ 31) (hcount : (cstr sequence).count ch + 1 < 2 ^ 31) :
    SplitsExactly ch (cstr sequence) (separationTable ch sequence [none]) := by
  rcases separationLoop_splits (cstr sequence) [] [] List.not_mem_nil hruns with
    ⟨pieces, hloop, hsplits⟩
  have hlength : pieces.length = (cstr sequence).count ch + 1 := hsplits.length_eq
  refine ⟨pieces, ?_, hsplits⟩
  rw [separationTable_eq hlen hcount, separation, hloop, Option.map_some, List.nil_append, hlength]

/-- A command of class 4 without a phone number. -/
theorem separation_exact_command :
    SplitsExactly 0x5F (ascii "68_1") (separationTable 0x5F (ascii "68_1") [none]) := by
  have hcstr : cstr (ascii "68_1") = ascii "68_1" := by decide
  have hexact := @separation_exact 0x5F (ascii "68_1")
    (fun run hrun _ => hrun.length_le.trans (by decide)) (by decide) (by decide)
  rwa [hcstr] at hexact

theorem cstr_replicate {c : Byte} (hc : c ≠ 0) (n : Nat) :
    cstr (List.replicate n c) = List.replicate n c :=
  cstr_eq_self fun hmem => hc (List.eq_of_mem_replicate hmem).symm

theorem shortRuns_replicate (ch : Byte) (n : Nat) : ShortRuns ch (List.replicate n ch) := by
  intro run hrun hfree
  cases run with
  | nil => exact Nat.zero_le _
  | cons c rest =>
      have hc : c = ch := List.eq_of_mem_replicate (hrun.subset List.mem_cons_self)
      rw [hc] at hfree
      exact absurd List.mem_cons_self hfree

theorem not_splitsExactly_of_wrapped {ch : Byte} (hch : ch ≠ 0) {n : Nat} (hle : 2 ^ 31 ≤ n)
    (hlt : n < 2 ^ 32) :
    ¬ SplitsExactly ch (List.replicate n ch) (separationTable ch (List.replicate n ch) [none]) := by
  have hlength : (cstr (List.replicate n ch)).length = n := by
    rw [cstr_replicate hch, List.length_replicate]
  have hlen : (strlenInt (List.replicate n ch)).toNat = 0 :=
    (congrArg (fun m : Nat => ((m : Int).bmod (2 ^ 32)).toNat) hlength).trans
      (toNat_bmod_of_le hle hlt)
  rintro ⟨pieces, hresult, -⟩
  rw [separationTable_of_wrapped hlen, List.count_replicate_self, Option.some.injEq,
    Prod.mk.injEq] at hresult
  omega

/-- A text of `2 ^ 31` separators is split into one piece. -/
theorem manySeparators_one_piece :
    ShortRuns 0x5F (cstr (List.replicate (2 ^ 31) 0x5F)) ∧
      ¬ SplitsExactly 0x5F (cstr (List.replicate (2 ^ 31) 0x5F))
        (separationTable 0x5F (List.replicate (2 ^ 31) 0x5F) [none]) := by
  have hcstr := @cstr_replicate 0x5F (by decide) (2 ^ 31)
  rw [hcstr]
  exact ⟨shortRuns_replicate 0x5F (2 ^ 31),
    not_splitsExactly_of_wrapped (by decide) (Nat.le_refl _)
      (Nat.pow_lt_pow_right (by decide) (by decide))⟩

end RobotServer
