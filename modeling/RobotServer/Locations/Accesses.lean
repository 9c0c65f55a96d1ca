import RobotServer.Locations.Extraction

/-!
# Accesses — the loop of `get_key` on the memory behind a response

`getKeyRun` is the loop for a number of rounds, with the indices it reads and writes.  It runs on
any memory that begins with the response, so that it goes on behind the terminator where the source
does.  `StaysInside` asks for an end, for reads up to the terminator, and for at most fifteen
characters in the array; a comma within sixteen characters is what makes it hold
(`staysInside_iff`).
-/

namespace RobotServer

open CText Memory Search

/-! ## The loop -/

/-- The accesses of a run, the array it leaves, and whether it came to an end. -/
structure KeyRun where
  reads : List Nat
  writes : List Nat
  value : ValueBuffer
  ended : Bool

/-- The loop of `get_key` for a number of rounds; `memory` begins at `buffer`. -/
def getKeyRun (memory : Nat → Byte) : Nat → Nat → ValueBuffer → KeyRun
  | 0, _, value => ⟨[], [], value, false⟩
  | rounds + 1, i, value =>
      if memory i = 0x2C then ⟨[i], [], value, true⟩
      else
        let rest := getKeyRun memory rounds (i + 1) (value.place i [memory i])
        ⟨i :: rest.reads, i :: rest.writes, rest.value, rest.ended⟩

section Loop

variable {memory : Nat → Byte}

/-- `count` characters from index `i` on, none of them a comma. -/
def NoComma (memory : Nat → Byte) (i count : Nat) : Prop :=
  ∀ j, j < count → memory (i + j) ≠ 0x2C

theorem NoComma.head {i count : Nat} (h : NoComma memory i (count + 1)) : memory i ≠ 0x2C :=
  h 0 (Nat.succ_pos count)

theorem NoComma.tail {i count : Nat} (h : NoComma memory i (count + 1)) :
    NoComma memory (i + 1) count := by
  intro j hj
  have hnext := h (j + 1) (Nat.succ_lt_succ hj)
  rwa [Nat.add_comm j 1, ← Nat.add_assoc] at hnext

/-- Up to a comma every round reads and writes one character. -/
theorem getKeyRun_before (rounds : Nat) : ∀ (i : Nat) (value : ValueBuffer),
    NoComma memory i rounds →
      getKeyRun memory rounds i value = ⟨List.range' i rounds, List.range' i rounds,
        value.place i ((List.range' i rounds).map memory), false⟩ := by
  induction rounds with
  | zero =>
      intro i value _
      rw [List.range'_zero, List.map_nil, Cells.place_nil]
      rfl
  | succ rounds ih =>
      intro i value hno
      have hrest := ih (i + 1) (value.place i [memory i]) hno.tail
      have hplace := Cells.place_place value i [memory i] ((List.range' (i + 1) rounds).map memory)
      rw [List.length_singleton] at hplace
      rw [getKeyRun, if_neg hno.head, hrest, List.range'_succ, List.map_cons]
      dsimp only
      rw [hplace]
      rfl

/-- The comma ends the loop. -/
theorem getKeyRun_comma (k extra : Nat) : ∀ (i : Nat) (value : ValueBuffer),
    NoComma memory i k → memory (i + k) = 0x2C →
      getKeyRun memory (k + (extra + 1)) i value = ⟨List.range' i (k + 1), List.range' i k,
        value.place i ((List.range' i k).map memory), true⟩ := by
  induction k with
  | zero =>
      intro i value _ hcomma
      have hhead : memory i = 0x2C := hcomma
      rw [Nat.zero_add, getKeyRun, if_pos hhead, List.range'_zero, List.map_nil, Cells.place_nil]
      rfl
  | succ k ih =>
      intro i value hno hcomma
      have hnext : memory (i + 1 + k) = 0x2C := by
        rwa [Nat.add_comm k 1, ← Nat.add_assoc] at hcomma
      have hrest := ih (i + 1) (value.place i [memory i]) hno.tail hnext
      have hplace := Cells.place_place value i [memory i] ((List.range' (i + 1) k).map memory)
      rw [List.length_singleton] at hplace
      rw [Nat.succ_add, getKeyRun, if_neg hno.head, hrest]
      dsimp only
      rw [hplace]
      rfl

/-- Up to the comma and behind it, whatever the number of rounds. -/
theorem getKeyRun_accesses {k : Nat} (hno : NoComma memory 0 k) (hcomma : memory k = 0x2C)
    (value : ValueBuffer) (rounds : Nat) :
    (∀ i ∈ (getKeyRun memory rounds 0 value).reads, i ≤ k) ∧
      (getKeyRun memory rounds 0 value).writes.length ≤ k ∧
        (∀ i ∈ (getKeyRun memory rounds 0 value).writes, i < k) ∧
          ((getKeyRun memory rounds 0 value).ended = true →
            (getKeyRun memory rounds 0 value).value =
              value.place 0 ((List.range' 0 k).map memory)) := by
  rcases Nat.lt_or_ge k rounds with hlt | hge
  · obtain ⟨extra, rfl⟩ : ∃ extra, rounds = k + (extra + 1) := ⟨rounds - k - 1, by omega⟩
    rw [getKeyRun_comma k extra 0 value hno (by rwa [Nat.zero_add])]
    refine ⟨?_, List.length_range'.le, ?_, fun _ => rfl⟩
    · intro i hi
      have hlast := (List.mem_range'_1.mp hi).2
      omega
    · intro i hi
      have hlast := (List.mem_range'_1.mp hi).2
      omega
  · rw [getKeyRun_before rounds 0 value fun j hj => hno j (hj.trans_le hge)]
    refine ⟨?_, List.length_range'.trans_le hge, ?_, fun hended => nomatch hended⟩
    · intro i hi
      have hlast := (List.mem_range'_1.mp hi).2
      omega
    · intro i hi
      have hlast := (List.mem_range'_1.mp hi).2
      omega

end Loop

/-! ## Accesses in order -/

/-- The memory from a response on: its characters, its terminator, and anything behind. -/
def HoldsResponse (response : Response) (memory : Nat → Byte) : Prop :=
  ∀ i, i ≤ response.text.length → memory i = response.text.getD i 0

/-- `get_key` from `start` on ends, reads nothing behind the terminator, and writes at most fifteen
characters into its array, which is left with a terminator. -/
structure RunInside (response : Response) (start : Nat) (run : Nat → KeyRun) : Prop where
  ends : ∃ rounds, (run rounds).ended = true
  reads : ∀ rounds, ∀ i ∈ (run rounds).reads, start + i ≤ response.text.length
  writes : ∀ rounds, (run rounds).writes.length ≤ 15 ∧ ∀ i ∈ (run rounds).writes, i < 16
  terminated : ∀ rounds, (run rounds).ended = true → (0 : Byte) ∈ (run rounds).value.slice 0 16

def StaysInside (response : Response) (start : Nat) : Prop :=
  ∀ memory, HoldsResponse response memory →
    RunInside response start fun rounds =>
      getKeyRun (fun i => memory (start + i)) rounds 0 (Cells.fill 0)

section Accesses

variable {response : Response} {start : Nat}

theorem memory_eq_drop {memory : Nat → Byte} (hmemory : HoldsResponse response memory) {j : Nat}
    (h : start + j ≤ response.text.length) :
    memory (start + j) = (response.text.drop start).getD j 0 := by
  rw [hmemory _ h, List.getD_eq_getElem?_getD, List.getD_eq_getElem?_getD, List.getElem?_drop]

/-- A stretch up to a comma, as the memory has it. -/
theorem memory_of_upTo {value : Text} {memory : Nat → Byte}
    (hmemory : HoldsResponse response memory) (h : UpTo 0x2C value (response.text.drop start)) :
    NoComma (fun i => memory (start + i)) 0 value.length ∧
      start + value.length < response.text.length ∧
      (List.range' 0 value.length).map (fun i => memory (start + i)) = value ∧
        memory (start + value.length) = 0x2C := by
  rcases h with ⟨hvalue, rest, hdrop⟩
  have hlength := congrArg List.length hdrop
  rw [List.length_drop, List.length_append, List.length_cons] at hlength
  have hread : ∀ j, j < value.length → memory (start + j) = value.getD j 0 := by
    intro j hj
    rw [memory_eq_drop hmemory (by omega), hdrop, List.getD_append _ _ _ _ hj]
  refine ⟨?_, by omega, ?_, ?_⟩
  · intro j hj hcomma
    rw [Nat.zero_add] at hcomma
    have hchar : value.getD j 0 = 0x2C := (hread j hj).symm.trans hcomma
    rw [List.getD_eq_getElem _ _ hj] at hchar
    exact hvalue (hchar ▸ List.getElem_mem hj)
  · refine List.ext_getElem (by simp) ?_
    intro j hj hj'
    rw [List.getElem_map, List.getElem_range', Nat.zero_add, Nat.one_mul, hread j hj',
      List.getD_eq_getElem _ _ hj']
  · rw [memory_eq_drop hmemory (by omega), hdrop, List.getD_append_right _ _ _ _ le_rfl,
      Nat.sub_self]
    rfl

/-- In front of the first comma of a memory stand the characters of the response. -/
theorem upTo_of_memory {k : Nat} {memory : Nat → Byte} (hmemory : HoldsResponse response memory)
    (hread : start + k ≤ response.text.length) (hno : NoComma (fun i => memory (start + i)) 0 k)
    (hcomma : memory (start + k) = 0x2C) :
    ∃ value, value.length = k ∧ UpTo 0x2C value (response.text.drop start) := by
  have hchar : ∀ j, j < k → memory (start + j) = (response.text.drop start).getD j 0 := fun j hj =>
    memory_eq_drop hmemory (by omega)
  rw [memory_eq_drop hmemory hread] at hcomma
  have hlt : k < (response.text.drop start).length := by
    by_contra hge
    rw [List.getD_eq_default _ _ (Nat.not_lt.mp hge)] at hcomma
    exact absurd hcomma (by decide)
  rw [List.getD_eq_getElem _ _ hlt] at hcomma
  have htake : ((response.text.drop start).take k).length = k := List.length_take_of_le hlt.le
  refine ⟨(response.text.drop start).take k, htake, ?_, (response.text.drop start).drop (k + 1), ?_⟩
  · intro hmem
    rcases List.getElem_of_mem hmem with ⟨j, hj, heq⟩
    rw [htake] at hj
    apply hno j hj
    rw [Nat.zero_add]
    refine (hchar j hj).trans ?_
    rw [List.getD_eq_getElem _ _ (hj.trans hlt), ← heq, List.getElem_take]
  · rw [← hcomma, List.getElem_cons_drop, List.take_append_drop]

/-- **A call of `get_key` stays inside the response and its array exactly when a comma stands within
sixteen characters.** -/
theorem staysInside_iff : StaysInside response start ↔
    ∃ value, value.length ≤ 15 ∧ UpTo 0x2C value (response.text.drop start) := by
  constructor
  · intro h
    -- The promise is about any memory; the text followed by zeros is the one to ask.
    have hmemory : HoldsResponse response fun i => response.text.getD i 0 := fun _ _ => rfl
    have hrun := h _ hmemory
    rcases hrun.ends with ⟨rounds, hended⟩
    -- Without a comma the loop would run on, so there is one.
    have hexists : ∃ j, response.text.getD (start + j) 0 = 0x2C := by
      by_contra hnone
      have hno : NoComma (fun i => response.text.getD (start + i) 0) 0 rounds := fun j _ hj =>
        hnone ⟨_, hj⟩
      rw [getKeyRun_before rounds 0 _ hno] at hended
      cases hended
    have hfirst := Nat.find_spec hexists
    have hno : NoComma (fun i => response.text.getD (start + i) 0) 0 (Nat.find hexists) := by
      intro j hj
      rw [Nat.zero_add]
      exact Nat.find_min hexists hj
    have hcomma := getKeyRun_comma (Nat.find hexists) 0 0 (Cells.fill 0) hno
      (by rw [Nat.zero_add]; exact hfirst)
    -- The comma itself is read, which puts it inside the response.
    have hread := hrun.reads (Nat.find hexists + (0 + 1)) (Nat.find hexists) (by
      rw [hcomma]
      exact List.mem_range'_1.mpr ⟨Nat.zero_le _, by omega⟩)
    have hwrites := (hrun.writes (Nat.find hexists + (0 + 1))).1
    rw [hcomma, List.length_range'] at hwrites
    rcases upTo_of_memory hmemory hread hno hfirst with ⟨value, hlength, hvalue⟩
    exact ⟨value, hlength ▸ hwrites, hvalue⟩
  · rintro ⟨value, hlength, hvalue⟩ memory hmemory
    rcases memory_of_upTo hmemory hvalue with ⟨hno, hend, hchars, hcomma⟩
    have hrun := @getKeyRun_accesses (fun i => memory (start + i)) _ hno hcomma (Cells.fill 0)
    refine ⟨⟨value.length + (0 + 1), ?_⟩, ?_, ?_, ?_⟩
    · rw [getKeyRun_comma value.length 0 0 _ hno (by rw [Nat.zero_add]; exact hcomma)]
    · intro rounds i hi
      have hle := (hrun rounds).1 i hi
      omega
    · intro rounds
      refine ⟨(hrun rounds).2.1.trans hlength, ?_⟩
      intro i hi
      have hlt := (hrun rounds).2.2.1 i hi
      omega
    · intro rounds hended
      rw [(hrun rounds).2.2.2 hended, hchars]
      exact zero_mem_holdValue hlength

variable (response)

/-- **Both calls of `get_key` stay inside the response exactly when both keys have values.** -/
theorem extraction_inside_iff :
    (∀ c : Coordinate, StaysInside response (valueStart response c.key)) ↔
      ∀ c : Coordinate, ∃ value, IsValue response c.key value := by
  refine forall_congr' fun c => staysInside_iff.trans ?_
  exact exists_congr fun value => isValue_iff.symm

end Accesses

/-- A response that ends with its latitude. -/
def latitudeLast : Response where
  text := ascii "\x7b\"longitude\":113.953163,\"latitude\":22.543210\x7d"
  terminated := by decide

theorem latitudeLast_outside :
    ¬ ∀ c : Coordinate, StaysInside latitudeLast (valueStart latitudeLast c.key) := by
  intro h
  rcases staysInside_iff.mp (h .latitude) with ⟨value, -, -, rest, hdrop⟩
  have hcomma : (0x2C : Byte) ∈ latitudeLast.text.drop
      (valueStart latitudeLast Coordinate.latitude.key) := by
    rw [hdrop]
    exact List.mem_append_right _ List.mem_cons_self
  exact absurd hcomma (by decide +kernel)

end RobotServer
