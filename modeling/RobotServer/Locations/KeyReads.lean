import RobotServer.Model.KeySearch
import RobotServer.Locations.Extraction

/-!
# KeyReads — where the key search looks, and what it finds

`FindsFirst` is what the search is for.  The limit of the outer loop leaves the last start out, so
a key that stands at the very end is missed: `KeyInReach` is the condition on the two strings, and
`keySearch_iff` says that it is the exact one.  On strings whose lengths are `int`s the result is
that of `getKeyIndex` (`getKeyIndexReads_eq`).
-/

namespace RobotServer

open CText Search

variable {buffer key : Text}

/-! ## Lengths -/

theorem intLength_of_lt {t : Text} (h : t.length < 2 ^ 31) : intLength t = t.length :=
  natCast_bmod_of_lt h

theorem intLength_le (t : Text) : intLength t ≤ t.length :=
  natCast_bmod_le _

theorem intLength_lt (t : Text) : intLength t < 2 ^ 31 :=
  Int.bmod_lt (by decide)

theorem intLength_toNat_le (t : Text) : (intLength t).toNat ≤ t.length := by
  have h := intLength_le t
  omega

theorem intDifference_eq_some_iff {m n limit : Int} : intDifference m n = some limit ↔
    limit = m - n ∧ -2 ^ 31 ≤ m - n ∧ m - n < 2 ^ 31 := by
  unfold intDifference
  split
  case isTrue h =>
      rw [Option.some.injEq]
      exact ⟨fun heq => ⟨heq.symm, h⟩, fun heq => heq.1.symm⟩
  case isFalse h => exact iff_of_false (fun hnone => nomatch hnone) fun heq => h heq.2

/-! ## Reads -/

def StringRead.Inside (buffer key : Text) : StringRead → Prop
  | .buffer index => index ≤ buffer.length
  | .key index => index ≤ key.length

def InsideAll (buffer key : Text) (reads : List StringRead) : Prop :=
  ∀ read ∈ reads, read.Inside buffer key

theorem InsideAll.append {reads reads' : List StringRead} (h : InsideAll buffer key reads)
    (h' : InsideAll buffer key reads') : InsideAll buffer key (reads ++ reads') := by
  intro read hread
  rcases List.mem_append.mp hread with hread | hread
  · exact h read hread
  · exact h' read hread

theorem insideAll_nil : InsideAll buffer key [] :=
  fun _ hread => absurd hread List.not_mem_nil

theorem strlenReads_inside {t : Text} {read : Nat → StringRead}
    (h : ∀ index, index ≤ t.length → (read index).Inside buffer key) :
    InsideAll buffer key (strlenReads read t) := by
  intro r hr
  rcases List.mem_map.mp hr with ⟨index, hindex, rfl⟩
  exact h index (Nat.lt_succ_iff.mp (List.mem_range.mp hindex))

theorem compareLoop_inside {i : Nat} : ∀ {rounds j : Nat},
    (0 < rounds → i + j + rounds ≤ buffer.length) → j + rounds ≤ key.length →
      InsideAll buffer key (compareLoop buffer key i rounds j).2 := by
  intro rounds
  induction rounds with
  | zero =>
      intro j _ _
      exact insideAll_nil
  | succ rounds ih =>
      intro j hbuffer hkey
      have hlength := hbuffer (Nat.succ_pos rounds)
      have hround : InsideAll buffer key [.buffer (i + j), .key j] := by
        intro read hread
        rcases List.mem_pair.mp hread with rfl | rfl
        · change i + j ≤ buffer.length
          omega
        · change j ≤ key.length
          omega
      rw [compareLoop]
      split
      · exact hround
      · exact hround.append (ih (fun _ => by omega) (by omega))

/-- As long as the compared characters end in front of the terminators, so do the reads. -/
theorem searchLoop_inside {keyLength : Int} (hkey : keyLength.toNat ≤ key.length) :
    ∀ {rounds i : Nat},
      (0 < keyLength.toNat → ∀ q, q < i + rounds → q + keyLength.toNat ≤ buffer.length) →
        InsideAll buffer key (searchLoop buffer key keyLength rounds i).2 := by
  intro rounds
  induction rounds with
  | zero =>
      intro i _
      exact insideAll_nil
  | succ rounds ih =>
      intro i hbuffer
      have hcompared : InsideAll buffer key
          (compareLoop buffer key i keyLength.toNat 0).2 := by
        refine compareLoop_inside ?_ (by omega)
        rw [Nat.add_zero]
        exact fun hpos => hbuffer hpos i (by omega)
      rw [searchLoop]
      split
      · exact hcompared
      · exact hcompared.append (ih fun hpos q hq => hbuffer hpos q (by omega))

/-! ## The inner loop -/

/-- The inner loop goes to its end when it sees no difference. -/
theorem compareLoop_eq_iff {i : Nat} : ∀ {rounds j : Nat},
    (compareLoop buffer key i rounds j).1 = j + rounds ↔
      ∀ d, d < rounds → charAt buffer (i + j + d) = charAt key (j + d) := by
  intro rounds
  induction rounds with
  | zero =>
      intro j
      exact iff_of_true rfl fun d hd => absurd hd (Nat.not_lt_zero d)
  | succ rounds ih =>
      intro j
      rw [compareLoop]
      split
      case isTrue hne =>
          -- The first difference ends the loop, and `j` stays below its end.
          refine iff_of_false ?_ fun h => hne (h 0 (Nat.succ_pos rounds))
          change j ≠ j + (rounds + 1)
          omega
      case isFalse heq =>
          change (compareLoop buffer key i rounds (j + 1)).1 = j + (rounds + 1) ↔ _
          rw [show j + (rounds + 1) = j + 1 + rounds by omega, ih]
          -- Distances from the next character are one less than those from this one.
          constructor
          · intro h d hd
            cases d with
            | zero => exact not_not.mp heq
            | succ d =>
                have hd' := h d (by omega)
                rw [show i + j + (d + 1) = i + (j + 1) + d by omega,
                  show j + (d + 1) = j + 1 + d by omega]
                exact hd'
          · intro h d hd
            have hd' := h (d + 1) (by omega)
            rw [show i + (j + 1) + d = i + j + (d + 1) by omega,
              show j + 1 + d = j + (d + 1) by omega]
            exact hd'

theorem getElem?_eq_some_charAt {t : Text} {index : Nat} (h : index < t.length) :
    t[index]? = some (charAt t index) := by
  rw [charAt, List.getD_eq_getElem _ _ h, List.getElem?_eq_getElem h]

/-- The comparison succeeds where the first `m` characters of the key stand. -/
theorem compareLoop_eq_iff_occursAt {i m : Nat} (hbuffer : i + m ≤ buffer.length)
    (hkey : m ≤ key.length) :
    (compareLoop buffer key i m 0).1 = m ↔ OccursAt (key.take m) buffer i := by
  have hloop := @compareLoop_eq_iff buffer key i m 0
  rw [Nat.zero_add] at hloop
  rw [hloop, occursAt_iff_getElem?, List.length_take_of_le hkey]
  have helem : ∀ d, d < m →
      (buffer[i + d]? = (key.take m)[d]? ↔ charAt buffer (i + d) = charAt key d) := by
    intro d hd
    rw [List.getElem?_take_of_lt hd, getElem?_eq_some_charAt (by omega),
      getElem?_eq_some_charAt (by omega), Option.some.injEq]
  constructor
  · intro h
    refine ⟨hbuffer, fun d hd => (helem d hd).mpr ?_⟩
    simpa only [Nat.add_zero, Nat.zero_add] using h d hd
  · rintro ⟨-, h⟩ d hd
    simpa only [Nat.add_zero, Nat.zero_add] using (helem d hd).mp (h d hd)

/-! ## The outer loop -/

/-- The comparison at `i` goes to the end of the key. -/
def Stands (buffer key : Text) (keyLength : Int) (i : Nat) : Prop :=
  ((compareLoop buffer key i keyLength.toNat 0).1 : Int) = keyLength

/-- The loop ends at the first start from which the comparison succeeds. -/
theorem searchLoop_spec (buffer key : Text) (keyLength : Int) : ∀ (rounds i : Nat),
    (∃ p, i ≤ p ∧ p < i + rounds ∧ Stands buffer key keyLength p ∧
        (∀ q, i ≤ q → q < p → ¬ Stands buffer key keyLength q) ∧
        (searchLoop buffer key keyLength rounds i).1 = p + keyLength) ∨
      (∀ q, i ≤ q → q < i + rounds → ¬ Stands buffer key keyLength q) ∧
        (searchLoop buffer key keyLength rounds i).1 = -1 := by
  intro rounds
  induction rounds with
  | zero =>
      intro i
      refine .inr ⟨?_, rfl⟩
      intro q hle hlt
      omega
  | succ rounds ih =>
      intro i
      rw [searchLoop]
      split
      case isTrue hstands =>
          refine .inl ⟨i, le_rfl, by omega, hstands, fun q hle hlt => by omega, ?_⟩
          change ((i + (compareLoop buffer key i keyLength.toNat 0).1 : Nat) : Int) = _
          rw [Nat.cast_add, hstands]
      case isFalse hstands =>
          -- A start from `i` on is `i` itself, which is none, or one of the later rounds.
          have hfrom : ∀ {q}, i ≤ q → Stands buffer key keyLength q → i + 1 ≤ q := by
            intro q hle hq
            rcases Nat.eq_or_lt_of_le hle with rfl | hlt
            · exact absurd hq hstands
            · exact hlt
          rcases ih (i + 1) with ⟨p, hle, hlt, hp, hfirst, hindex⟩ | ⟨hnone, hindex⟩
          · refine .inl ⟨p, by omega, by omega, hp, ?_, hindex⟩
            exact fun q hq hqp hstand => hfirst q (hfrom hq hstand) hqp hstand
          · refine .inr ⟨?_, hindex⟩
            exact fun q hq hqi hstand => hnone q (hfrom hq hstand) (by omega) hstand

/-! ## The search -/

/-- The place behind the first occurrence, `-1` exactly without one, and no character outside the
strings and their terminators. -/
def FindsFirst (buffer key : Text) (result : Option (Int × List StringRead)) : Prop :=
  ∃ index reads, result = some (index, reads) ∧
    (∀ p, FirstAt key buffer p → index = (p + key.length : Nat)) ∧
    (index = -1 ↔ ∀ p, ¬ OccursAt key buffer p) ∧ InsideAll buffer key reads

/-- The function takes the key to stand at `p`: what its `int` leaves of the key stands there. -/
def TakenAt (buffer key : Text) (p : Nat) : Prop :=
  0 ≤ intLength key ∧ OccursAt (key.take (intLength key).toNat) buffer p

/-- The difference of the lengths is an `int`, and the first occurrence has something behind it; a
string without one has also no occurrence of what the `int` leaves of the key. -/
def KeyInReach (buffer key : Text) : Prop :=
  ∃ limit, intDifference (intLength buffer) (intLength key) = some limit ∧
    ((∃ p, FirstAt key buffer p ∧ key.length < 2 ^ 31 ∧
        ((p + key.length : Nat) : Int) < intLength buffer) ∨
      (∀ p, ¬ OccursAt key buffer p) ∧ ∀ p : Nat, (p : Int) < limit → ¬ TakenAt buffer key p)

theorem stands_iff_takenAt {p : Nat} (hp : (p : Int) < intLength buffer - intLength key) :
    Stands buffer key (intLength key) p ↔ TakenAt buffer key p := by
  have hbuffer := intLength_le buffer
  have hkey := intLength_toNat_le key
  unfold Stands TakenAt
  by_cases hneg : 0 ≤ intLength key
  · rw [and_iff_right hneg, ← compareLoop_eq_iff_occursAt (by omega) hkey]
    omega
  · refine iff_of_false ?_ fun h => hneg h.1
    omega

theorem takenAt_iff_of_lt {p : Nat} (h : key.length < 2 ^ 31) :
    TakenAt buffer key p ↔ OccursAt key buffer p := by
  rw [TakenAt, intLength_of_lt h, Int.toNat_natCast, List.take_length]
  exact and_iff_right (Int.natCast_nonneg _)

theorem getKeyIndexReads_eq_some {limit : Int}
    (hlimit : intDifference (intLength buffer) (intLength key) = some limit) :
    getKeyIndexReads buffer key =
      some ((searchLoop buffer key (intLength key) limit.toNat 0).1,
        strlenReads .buffer buffer ++ strlenReads .key key ++
          (searchLoop buffer key (intLength key) limit.toNat 0).2) := by
  unfold getKeyIndexReads
  exact Option.bind_eq_some_iff.mpr ⟨limit, hlimit, rfl⟩

theorem exists_limit_of_eq_some {result : Int × List StringRead}
    (h : getKeyIndexReads buffer key = some result) :
    ∃ limit, intDifference (intLength buffer) (intLength key) = some limit := by
  unfold getKeyIndexReads at h
  rcases Option.bind_eq_some_iff.mp h with ⟨limit, hlimit, -⟩
  exact ⟨limit, hlimit⟩

theorem searchLoop_reads_inside {limit : Int}
    (hlimit : intDifference (intLength buffer) (intLength key) = some limit) :
    InsideAll buffer key (searchLoop buffer key (intLength key) limit.toNat 0).2 := by
  have heq := (intDifference_eq_some_iff.mp hlimit).1
  have hbuffer := intLength_le buffer
  refine searchLoop_inside (intLength_toNat_le key) ?_
  intro hpos q hq
  omega

/-- What the function returns, by the places where it takes the key to stand. -/
theorem searchLoop_cases {limit : Int}
    (hlimit : intDifference (intLength buffer) (intLength key) = some limit) :
    (∃ p : Nat, (p : Int) < limit ∧ TakenAt buffer key p ∧
        (∀ q, q < p → ¬ TakenAt buffer key q) ∧
        (searchLoop buffer key (intLength key) limit.toNat 0).1 = p + intLength key) ∨
      (∀ q : Nat, (q : Int) < limit → ¬ TakenAt buffer key q) ∧
        (searchLoop buffer key (intLength key) limit.toNat 0).1 = -1 := by
  have heq := (intDifference_eq_some_iff.mp hlimit).1
  rcases searchLoop_spec buffer key (intLength key) limit.toNat 0 with
    ⟨p, -, hlt, hp, hfirst, hindex⟩ | ⟨hnone, hindex⟩
  · have hplimit : (p : Int) < limit := by omega
    refine .inl ⟨p, hplimit, (stands_iff_takenAt (by omega)).mp hp, ?_, hindex⟩
    intro q hq htaken
    exact hfirst q (Nat.zero_le q) hq ((stands_iff_takenAt (by omega)).mpr htaken)
  · refine .inr ⟨?_, hindex⟩
    intro q hq htaken
    exact hnone q (Nat.zero_le q) (by omega) ((stands_iff_takenAt (by omega)).mpr htaken)

theorem searchLoop_of_firstAt {limit : Int} {p : Nat}
    (hlimit : intDifference (intLength buffer) (intLength key) = some limit)
    (hp : FirstAt key buffer p) (hkey : key.length < 2 ^ 31)
    (hlt : ((p + key.length : Nat) : Int) < intLength buffer) :
    (searchLoop buffer key (intLength key) limit.toNat 0).1 = (p + key.length : Nat) := by
  have hlimitEq := (intDifference_eq_some_iff.mp hlimit).1
  have hlength := intLength_of_lt hkey
  have hplimit : (p : Int) < limit := by omega
  rcases searchLoop_cases hlimit with ⟨q, -, htaken, hfirst, hloop⟩ | ⟨hnotTaken, -⟩
  · -- The loop comes to the first occurrence, and to none before it.
    have hq : FirstAt key buffer q :=
      ⟨(takenAt_iff_of_lt hkey).mp htaken, fun q' hq' hoccurs =>
        hfirst q' hq' ((takenAt_iff_of_lt hkey).mpr hoccurs)⟩
    rw [hloop, hlength, hq.unique hp, Nat.cast_add]
  · exact absurd ((takenAt_iff_of_lt hkey).mpr hp.occurs) (hnotTaken p hplimit)

theorem searchLoop_of_not_takenAt {limit : Int}
    (hlimit : intDifference (intLength buffer) (intLength key) = some limit)
    (hnotTaken : ∀ p : Nat, (p : Int) < limit → ¬ TakenAt buffer key p) :
    (searchLoop buffer key (intLength key) limit.toNat 0).1 = -1 := by
  rcases searchLoop_cases hlimit with ⟨q, hq, htaken, -, -⟩ | ⟨-, hloop⟩
  · exact absurd htaken (hnotTaken q hq)
  · exact hloop

/-! ## The condition -/

theorem FindsFirst.keyInReach (h : FindsFirst buffer key (getKeyIndexReads buffer key)) :
    KeyInReach buffer key := by
  rcases h with ⟨index, reads, hresult, hfirst, hnone, -⟩
  rcases exists_limit_of_eq_some hresult with ⟨limit, hlimit⟩
  rw [getKeyIndexReads_eq_some hlimit, Option.some.injEq, Prod.mk.injEq] at hresult
  have hlimitEq := (intDifference_eq_some_iff.mp hlimit).1
  have hbuffer := intLength_lt buffer
  refine ⟨limit, hlimit, ?_⟩
  by_cases hoccurs : ∃ p, OccursAt key buffer p
  · rcases hoccurs with ⟨p', hp'⟩
    rcases hp'.exists_firstAt with ⟨p, hp⟩
    have hindex := hfirst p hp
    -- The place behind the occurrence is a place the loop returns, in front of its limit.
    rcases searchLoop_cases hlimit with ⟨q, hq, -, -, hloop⟩ | ⟨-, hloop⟩
    · exact .inl ⟨p, hp, by omega, by omega⟩
    · omega
  · have hno : ∀ p, ¬ OccursAt key buffer p := fun p hp => hoccurs ⟨p, hp⟩
    have hindex := hnone.mpr hno
    rcases searchLoop_cases hlimit with ⟨q, -, htaken, -, hloop⟩ | ⟨hnotTaken, -⟩
    · have hnonneg := htaken.1
      omega
    · exact .inr ⟨hno, hnotTaken⟩

theorem KeyInReach.findsFirst (h : KeyInReach buffer key) :
    FindsFirst buffer key (getKeyIndexReads buffer key) := by
  rcases h with ⟨limit, hlimit, hreach⟩
  have hbuffer : InsideAll buffer key (strlenReads .buffer buffer) :=
    strlenReads_inside fun _ hindex => hindex
  have hkeyReads : InsideAll buffer key (strlenReads .key key) :=
    strlenReads_inside fun _ hindex => hindex
  have hinside := (hbuffer.append hkeyReads).append (searchLoop_reads_inside hlimit)
  rcases hreach with ⟨p, hp, hkey, hlt⟩ | ⟨hno, hnotTaken⟩
  · have hindex := searchLoop_of_firstAt hlimit hp hkey hlt
    refine ⟨_, _, getKeyIndexReads_eq_some hlimit, ?_, ?_, hinside⟩
    · intro p' hp'
      rw [hindex, hp.unique hp']
    · refine iff_of_false ?_ fun hno => hno p hp.occurs
      omega
  · have hindex := searchLoop_of_not_takenAt hlimit hnotTaken
    refine ⟨_, _, getKeyIndexReads_eq_some hlimit, ?_, iff_of_true hindex hno, hinside⟩
    exact fun p hp => absurd hp.occurs (hno p)

/-- The search does what it is for exactly when the key is in its reach. -/
theorem keySearch_iff (buffer key : Text) :
    FindsFirst buffer key (getKeyIndexReads buffer key) ↔ KeyInReach buffer key :=
  ⟨FindsFirst.keyInReach, KeyInReach.findsFirst⟩

/-- A key that is the whole string. -/
theorem wholeString_not_found :
    ¬ FindsFirst (ascii "longitude") (ascii "longitude")
      (getKeyIndexReads (ascii "longitude") (ascii "longitude")) := by
  intro h
  have hoccurs : OccursAt (ascii "longitude") (ascii "longitude") 0 :=
    ⟨Nat.zero_le _, List.prefix_rfl⟩
  rcases h.keyInReach with ⟨limit, -, ⟨p, -, -, hlt⟩ | ⟨hno, -⟩⟩
  · have hle := intLength_le (ascii "longitude")
    omega
  · exact hno 0 hoccurs

/-! ## Strings whose lengths are `int`s -/

theorem intDifference_of_lt (hbuffer : buffer.length < 2 ^ 31) (hkey : key.length < 2 ^ 31) :
    intDifference (intLength buffer) (intLength key) =
      some ((buffer.length : Int) - (key.length : Int)) := by
  rw [intLength_of_lt hbuffer, intLength_of_lt hkey]
  refine intDifference_eq_some_iff.mpr ⟨rfl, ?_, ?_⟩
  · omega
  · omega

/-- What is missed is a key whose first occurrence ends the string. -/
theorem keyInReach_iff_of_lt (hbuffer : buffer.length < 2 ^ 31) (hkey : key.length < 2 ^ 31) :
    KeyInReach buffer key ↔ ∀ p, FirstAt key buffer p → p + key.length < buffer.length := by
  constructor
  · rintro ⟨limit, -, ⟨p, hp, -, hlt⟩ | ⟨hno, -⟩⟩ p' hp'
    · have hle := intLength_le buffer
      cases hp.unique hp'
      omega
    · exact absurd hp'.occurs (hno p')
  · intro h
    refine ⟨_, intDifference_of_lt hbuffer hkey, ?_⟩
    by_cases hoccurs : ∃ p, OccursAt key buffer p
    · rcases hoccurs with ⟨p', hp'⟩
      rcases hp'.exists_firstAt with ⟨p, hp⟩
      have hlt := h p hp
      refine .inl ⟨p, hp, hkey, ?_⟩
      rw [intLength_of_lt hbuffer]
      omega
    · have hno : ∀ p, ¬ OccursAt key buffer p := fun p hp => hoccurs ⟨p, hp⟩
      exact .inr ⟨hno, fun p _ htaken => hno p ((takenAt_iff_of_lt hkey).mp htaken)⟩

/-- The result is the one `handle_data` goes on with. -/
theorem getKeyIndexReads_eq (hbuffer : buffer.length < 2 ^ 31) (hkey : key.length < 2 ^ 31) :
    ∃ reads, getKeyIndexReads buffer key = some (getKeyIndex buffer key, reads) := by
  have hlimit := intDifference_of_lt hbuffer hkey
  have hindex : (searchLoop buffer key (intLength key)
      ((buffer.length : Int) - (key.length : Int)).toNat 0).1 = getKeyIndex buffer key := by
    rw [getKeyIndex]
    rcases keyIndexLoop_spec key buffer 0 with ⟨p, hp, hloop⟩ | ⟨hnone, hloop⟩
    · have hlt := hp.followed.lt_length
      have hbufferLength := intLength_of_lt hbuffer
      rw [hloop, Nat.zero_add]
      exact searchLoop_of_firstAt hlimit hp.firstAt hkey (by omega)
    · rw [hloop]
      refine searchLoop_of_not_takenAt hlimit ?_
      intro p hp htaken
      have hoccurs := (takenAt_iff_of_lt hkey).mp htaken
      exact hnone p (followedAt_iff.mpr ⟨hoccurs, by omega⟩)
  rw [← hindex]
  exact ⟨_, getKeyIndexReads_eq_some hlimit⟩

end RobotServer
