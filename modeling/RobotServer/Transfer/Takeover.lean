import RobotServer.Transfer.Collection

/-!
# Takeover — which of several interleaved transfers are stored

The receiver has one block and remembers one device: a first datagram hands both over to its
transfer, and what is left of the transfer before it is rejected.  `Interrupted` says that this
happens inside a transfer; the transfers that are stored are the others (`synerRun_stored_iff`).
-/

namespace RobotServer

open CText Memory Interaction

/-! ## The remembered device -/

/-- The state after all datagrams of a list. -/
def arriveAll (state : SynerState) (events : List (Transfer × Nat)) : SynerState :=
  events.foldl (fun state e => (e.1.arrive e.2 state).2) state

theorem saves_append (events later : List (Transfer × Nat)) :
    ∀ state : SynerState,
      saves state (events ++ later) = saves state events ++ saves (arriveAll state events) later := by
  induction events with
  | nil =>
      intro state
      rfl
  | cons e rest ih =>
      intro state
      rcases e with ⟨t, i⟩
      calc
        saves state ((t, i) :: rest ++ later) =
            ((t.arrive i state).1.map fun block => (t.path, block)).toList ++
              saves (t.arrive i state).2 (rest ++ later) := rfl
        _ = ((t.arrive i state).1.map fun block => (t.path, block)).toList ++
              (saves (t.arrive i state).2 rest ++
                saves (arriveAll (t.arrive i state).2 rest) later) := by rw [ih]
        _ = saves state ((t, i) :: rest) ++ saves (arriveAll state ((t, i) :: rest)) later :=
          (List.append_assoc _ _ _).symm

/-- A first datagram takes the receiver over, any other leaves the remembered device alone. -/
theorem Transfer.arrive_u8DevId (t : Transfer) (i : Nat) (state : SynerState) :
    (t.arrive i state).2.u8DevId = if i = 0 then t.packet else state.u8DevId := by
  by_cases hzero : i = 0
  · have haccepts : t.accepts i state := .inl hzero
    rw [if_pos hzero, arrive, if_neg (not_not.mpr haccepts)]
    split
    · rfl
    · rfl
  · rw [if_neg hzero, arrive]
    split
    · rfl
    · next haccepts =>
        -- Behind its first datagram a transfer is accepted for its device only.
        have hknown : state.u8DevId = t.packet := (not_not.mp haccepts).resolve_left hzero
        split
        · exact hknown.symm
        · exact hknown.symm

section Takeover

variable {ι : Type} [DecidableEq ι] {transfer : ι → Transfer}

/-- The datagrams of the events. -/
def datagramsOf (transfer : ι → Transfer) (events : List (ι × Nat)) : List (Transfer × Nat) :=
  events.map fun e => (transfer e.1, e.2)

omit [DecidableEq ι] in
/-- The receiver changes hands at first datagrams only. -/
theorem arriveAll_u8DevId {P : DeviceId → Prop} (events : List (ι × Nat)) :
    (∀ e ∈ events, e.2 = 0 → P (transfer e.1).packet) → ∀ {state : SynerState},
      P state.u8DevId → P (arriveAll state (datagramsOf transfer events)).u8DevId := by
  induction events with
  | nil =>
      intro _ state hstate
      exact hstate
  | cons e rest ih =>
      intro hfirst state hstate
      refine ih (fun e' he' => hfirst e' (List.mem_cons_of_mem _ he')) ?_
      rw [Transfer.arrive_u8DevId]
      by_cases hzero : e.2 = 0
      · rw [if_pos hzero]
        exact hfirst e List.mem_cons_self hzero
      · rw [if_neg hzero]
        exact hstate

omit [DecidableEq ι] in
/-- A transfer that has been taken over stays so until its own first datagram. -/
theorem arriveAll_ne (hdistinct : Function.Injective fun k => (transfer k).packet) {k : ι}
    (events : List (ι × Nat)) (hfirst : ∀ e ∈ events, e.2 = 0 → e.1 ≠ k) {state : SynerState}
    (hstate : state.u8DevId ≠ (transfer k).packet) :
    (arriveAll state (datagramsOf transfer events)).u8DevId ≠ (transfer k).packet := by
  refine arriveAll_u8DevId (P := fun id => id ≠ (transfer k).packet) events ?_ hstate
  intro e he hzero heq
  exact hfirst e he hzero (hdistinct heq)

omit [DecidableEq ι] in
/-- A transfer keeps the receiver while no other one starts. -/
theorem arriveAll_eq {k : ι} (events : List (ι × Nat))
    (hfirst : ∀ e ∈ events, e.2 = 0 → e.1 = k) {state : SynerState}
    (hstate : state.u8DevId = (transfer k).packet) :
    (arriveAll state (datagramsOf transfer events)).u8DevId = (transfer k).packet := by
  refine arriveAll_u8DevId (P := fun id => id = (transfer k).packet) events ?_ hstate
  intro e he hzero
  rw [hfirst e he hzero]

/-! ## Where a datagram stands -/

theorem arrived_append (events later : List (ι × Nat)) (k : ι) :
    arrived (events ++ later) k = arrived events k ++ arrived later k := by
  rw [arrived, List.filter_append, List.map_append]
  rfl

theorem arrived_cons_self (k : ι) (i : Nat) (events : List (ι × Nat)) :
    arrived ((k, i) :: events) k = i :: arrived events k := by
  simp [arrived]

theorem mem_arrived {events : List (ι × Nat)} {k : ι} {i : Nat} :
    i ∈ arrived events k ↔ (k, i) ∈ events := by
  simp [arrived]

variable {events before later : List (ι × Nat)} {k : ι} {i n : Nat}

/-- A datagram that arrives once stands in one place. -/
theorem not_mem_of_split (horder : arrived events k = List.range n)
    (hsplit : events = before ++ (k, i) :: later) : (k, i) ∉ before ∧ (k, i) ∉ later := by
  have hnodup : (arrived before k ++ i :: arrived later k).Nodup := by
    rw [← arrived_cons_self, ← arrived_append, ← hsplit, horder]
    exact List.nodup_range
  have hnot := (List.nodup_cons.mp (List.nodup_middle.mp hnodup)).1
  rw [List.mem_append] at hnot
  exact ⟨fun h => hnot (.inl (mem_arrived.mpr h)), fun h => hnot (.inr (mem_arrived.mpr h))⟩

/-- Ahead of any other datagram of a transfer stands its first one. -/
theorem first_mem_of_split (horder : arrived events k = List.range n)
    (hsplit : events = before ++ (k, i) :: later) (hi : i ≠ 0) : (k, 0) ∈ before := by
  have hrange : arrived before k ++ i :: arrived later k = List.range n := by
    rw [← arrived_cons_self, ← arrived_append, ← hsplit, horder]
  apply mem_arrived.mp
  cases n with
  | zero => exact absurd hrange (by simp)
  | succ n =>
      rw [List.range_succ_eq_map] at hrange
      cases hbefore : arrived before k with
      | nil =>
          rw [hbefore] at hrange
          injection hrange with hhead
          exact absurd hhead hi
      | cons j rest =>
          rw [hbefore] at hrange
          injection hrange with hhead
          rw [hhead]
          exact List.mem_cons_self

/-! ## Interrupted transfers -/

/-- Inside transfer `k`, behind its first datagram and ahead of its last one, the first datagram of
another transfer arrives. -/
def Interrupted (transfer : ι → Transfer) (events : List (ι × Nat)) (k : ι) : Prop :=
  ∃ before between between' later j, j ≠ k ∧
    events = before ++ (k, 0) :: between ++ (j, 0) :: between' ++
      (k, (transfer k).total - 1) :: later

omit [DecidableEq ι] in
/-- A block under the path of transfer `k` was saved by a last datagram that was accepted. -/
theorem exists_of_mem_saves (events : List (ι × Nat)) :
    ∀ {state : SynerState} {w : Text × List Byte}, w ∈ saves state (datagramsOf transfer events) →
      ∃ before k i later, events = before ++ (k, i) :: later ∧ w.1 = (transfer k).path ∧
        i + 1 = (transfer k).total ∧
        (transfer k).accepts i (arriveAll state (datagramsOf transfer before)) := by
  induction events with
  | nil =>
      intro state w hw
      cases hw
  | cons e rest ih =>
      intro state w hw
      rcases e with ⟨k, i⟩
      rcases List.mem_append.mp hw with hfirst | hlater
      · rcases Option.map_eq_some_iff.mp (Option.mem_toList.mp hfirst) with ⟨block, hsaved, rfl⟩
        unfold Transfer.arrive at hsaved
        split at hsaved
        · cases hsaved
        · next haccepts =>
            split at hsaved
            · next hlast => exact ⟨[], k, i, rest, rfl, rfl, hlast, not_not.mp haccepts⟩
            · cases hsaved
      · rcases ih hlater with ⟨before, k', i', later, rfl, hpath, hlast, haccepts⟩
        exact ⟨(k, i) :: before, k', i', later, rfl, hpath, hlast, haccepts⟩

/-- An interrupted transfer is not stored, under no path of its device. -/
theorem not_saved_of_interrupted (hdistinct : Function.Injective fun k => (transfer k).packet)
    (horder : arrived events k = List.range (transfer k).total)
    (hinterrupted : Interrupted transfer events k) {state : SynerState} {flag : Byte}
    {block : List Byte} :
    (synerPathName flag (hextostring (transfer k).packet.toList), block) ∉
      saves state (datagramsOf transfer events) := by
  intro hw
  rcases exists_of_mem_saves events hw with ⟨before, k', i, later, hsplit, hpath, hlast, haccepts⟩
  -- The path tells the device, and the device the transfer.
  obtain rfl : k = k' := hdistinct (deviceId_text_injective (synerPathName_injective hpath))
  rcases hinterrupted with ⟨first, between, between', rest, j, hj, hevents⟩
  rw [← hlast, Nat.add_sub_cancel] at hevents
  have honce := not_mem_of_split horder hsplit
  have hbefore : before = first ++ (k, 0) :: between ++ (j, 0) :: between' := by
    have heq := hsplit.symm.trans hevents
    exact ((List.append_cons_inj_of_notMem honce.1 honce.2).mp heq).1
  have hzero : i ≠ 0 := by
    rintro rfl
    refine honce.1 ?_
    rw [hbefore]
    simp
  -- From the other first datagram on, another device is remembered.
  have hfirst : (k, 0) ∉ between' := by
    have hevents' : events = first ++ (k, 0) ::
        (between ++ (j, 0) :: between' ++ (k, i) :: rest) := by
      rw [hevents]
      simp
    intro hmem
    refine (not_mem_of_split horder hevents').2 ?_
    simp [hmem]
  have hother : (arriveAll state (datagramsOf transfer before)).u8DevId ≠ (transfer k).packet := by
    have hsplit' : datagramsOf transfer before =
        datagramsOf transfer (first ++ (k, 0) :: between ++ [(j, 0)]) ++
          datagramsOf transfer between' := by
      rw [hbefore]
      simp [datagramsOf]
    rw [hsplit', arriveAll, List.foldl_append]
    refine arriveAll_ne hdistinct between' ?_ ?_
    · rintro ⟨k', i'⟩ he hi' rfl
      exact hfirst (hi' ▸ he)
    · rw [datagramsOf, List.map_append, List.foldl_append]
      intro heq
      refine hj (hdistinct (Eq.trans ?_ heq))
      exact ((transfer j).arrive_u8DevId 0 _).symm
  rcases haccepts with h | h
  · exact hzero h
  · exact hother h

/-- The last datagram of a transfer that is not interrupted is accepted. -/
theorem accepts_of_not_interrupted (horder : arrived events k = List.range (transfer k).total)
    (hlast : i + 1 = (transfer k).total) (hsplit : events = before ++ (k, i) :: later)
    (hquiet : ¬ Interrupted transfer events k) (state : SynerState) :
    (transfer k).accepts i (arriveAll state (datagramsOf transfer before)) := by
  by_cases hzero : i = 0
  · exact .inl hzero
  · right
    rcases List.append_of_mem (first_mem_of_split horder hsplit hzero) with
      ⟨first, between, hbefore⟩
    have hsplit' : datagramsOf transfer before =
        datagramsOf transfer (first ++ [(k, 0)]) ++ datagramsOf transfer between := by
      rw [hbefore]
      simp [datagramsOf]
    rw [hsplit', arriveAll, List.foldl_append]
    refine arriveAll_eq between ?_ ?_
    · -- Another first datagram here would interrupt the transfer.
      rintro ⟨j, i'⟩ he hi'
      by_contra hj
      rcases List.append_of_mem he with ⟨left, right, rfl⟩
      refine hquiet ⟨first, left, right, later, j, hj, ?_⟩
      rw [hsplit, hbefore, ← hlast, show i' = 0 from hi']
      simp
    · rw [datagramsOf, List.map_append, List.foldl_append]
      exact (transfer k).arrive_u8DevId 0 _

/-- A transfer that is not interrupted is stored, with its own content. -/
theorem saved_of_not_interrupted (hdistinct : Function.Injective fun k => (transfer k).packet)
    (horder : ∀ k, arrived events k = List.range (transfer k).total)
    (hpos : 0 < (transfer k).content.length) (hquiet : ¬ Interrupted transfer events k)
    (state : SynerState) :
    ((transfer k).path, (transfer k).content) ∈ saves state (datagramsOf transfer events) := by
  have htotal : 0 < (transfer k).total := packetTotal_pos hpos
  obtain ⟨i, hi⟩ : ∃ i, i + 1 = (transfer k).total := ⟨_, Nat.sub_add_cancel htotal⟩
  have hmem : (k, i) ∈ events := by
    apply mem_arrived.mp
    rw [horder k]
    exact List.mem_range.mpr (by omega)
  rcases List.append_of_mem hmem with ⟨before, later, hsplit⟩
  have haccepts := accepts_of_not_interrupted (horder k) hi hsplit hquiet state
  -- The last datagram saves a block under the path of the device.
  obtain ⟨block, hblock⟩ : ∃ block,
      ((transfer k).path, block) ∈ saves state (datagramsOf transfer events) := by
    have hfirst : ((transfer k).arrive i (arriveAll state (datagramsOf transfer before))).1 =
        some (((transfer k).store i (arriveAll state
          (datagramsOf transfer before)).u8SynerBlockData).slice 0
            (transfer k).content.length) := by
      rw [Transfer.arrive, if_neg (not_not.mpr haccepts), if_pos hi]
    have hsplit' : datagramsOf transfer events =
        datagramsOf transfer before ++ (transfer k, i) :: datagramsOf transfer later := by
      rw [hsplit]
      simp [datagramsOf]
    rw [hsplit', saves_append, saves, hfirst]
    exact ⟨_, List.mem_append_right _ (List.mem_append_left _ (List.mem_singleton_self _))⟩
  -- What is saved of interleaved transfers is a file that was sent.
  have hstart : Holds transfer (fun _ => 0) state := by
    intro j _ hpos
    exact absurd hpos (Nat.lt_irrefl 0)
  have horder' : ∀ j, arrived events j = List.range' 0 ((transfer j).total - 0) := by
    intro j
    rw [horder j, List.range_eq_range', Nat.sub_zero]
  rcases saves_interleaved hdistinct events _ state hstart horder' _ hblock with ⟨j, heq⟩
  injection heq with hpath hcontent
  obtain rfl : k = j := hdistinct (deviceId_text_injective (synerPathName_injective hpath))
  rwa [hcontent] at hblock

end Takeover

section Stored

variable {σ : Type} (E : Environment serverInterface σ) (s : σ) {ι : Type} [DecidableEq ι]

/-- The files written while interleaved datagrams arrive. -/
theorem writeDat_mem_iff (transfer : ι → Transfer) {events : List (ι × Nat)}
    (horder : ∀ k, arrived events k = List.range (transfer k).total) (state : SynerState)
    (filename : Text) (data : List Byte) :
    .writeDat filename data ∈
        ((synerRun state (events.map fun e => (transfer e.1).datagram e.2)).run E s).trace ↔
      (filename, data) ∈ saves state (datagramsOf transfer events) := by
  have hevents : ∀ e ∈ datagramsOf transfer events, e.2 < e.1.total := by
    intro e he
    rcases List.mem_map.mp he with ⟨⟨k, i⟩, hki, rfl⟩
    have hmem := mem_arrived.mpr hki
    rw [horder k] at hmem
    exact List.mem_range.mp hmem
  have hrun := (synerRun_run E _ hevents state s).2
  rw [datagramsOf, List.map_map] at hrun
  have htrace : ((synerRun state (events.map fun e => (transfer e.1).datagram e.2)).run E s).trace =
      _ := hrun
  rw [htrace, List.mem_map]
  constructor
  · rintro ⟨w, hw, heq⟩
    injection heq with hname hdata
    rw [← hname, ← hdata]
    exact hw
  · intro hw
    exact ⟨_, hw, rfl⟩

/-- **A delivered transfer is stored exactly when it is not interrupted**: when no other transfer
starts between its first and its last datagram, its file is written; otherwise nothing is written
for its device. -/
theorem synerRun_stored_iff (transfer : ι → Transfer)
    (hdistinct : Function.Injective fun k => (transfer k).packet) (events : List (ι × Nat))
    (horder : ∀ k, arrived events k = List.range (transfer k).total) (state : SynerState) (k : ι)
    (hpos : 0 < (transfer k).content.length) :
    let trace := ((synerRun state (events.map fun e => (transfer e.1).datagram e.2)).run E s).trace
    (¬ Interrupted transfer events k →
        .writeDat (transfer k).path (transfer k).content ∈ trace) ∧
      (Interrupted transfer events k → ∀ flag block,
        .writeDat (synerPathName flag (hextostring (transfer k).packet.toList)) block ∉ trace) := by
  refine ⟨?_, ?_⟩
  · intro hquiet
    apply (writeDat_mem_iff E s transfer horder state _ _).mpr
    exact saved_of_not_interrupted hdistinct horder hpos hquiet state
  · intro hinterrupted flag block hmem
    have hsaved := (writeDat_mem_iff E s transfer horder state _ _).mp hmem
    exact not_saved_of_interrupted hdistinct (horder k) hinterrupted hsaved

/-- Two transfers of two packets: the file of the first is written where the second one comes behind
it, and nothing is written for it where the second one starts inside. -/
theorem synerRun_stored_iff_two :
    let transfer : Fin 2 → Transfer := fun k =>
      .ofTwo (Vector.replicate 8 (UInt8.ofNat k)) (UInt8.ofNat k)
    let state : SynerState := ⟨Cells.fill 0xFF, Vector.replicate 8 0⟩
    let trace := fun events : List (Fin 2 × Nat) =>
      ((synerRun state (events.map fun e => (transfer e.1).datagram e.2)).run world
        World.empty).trace
    .writeDat (transfer 0).path (twoPackets 0) ∈ trace [(0, 0), (0, 1), (1, 0), (1, 1)] ∧
      ∀ block, .writeDat (transfer 0).path block ∉ trace [(0, 0), (1, 0), (0, 1), (1, 1)] := by
  intro transfer state trace
  have htotal : ∀ k, (transfer k).total = 2 := fun _ => Transfer.total_ofTwo _ _
  have horder : ∀ events : List (Fin 2 × Nat), (∀ k, arrived events k = List.range 2) →
      ∀ k, arrived events k = List.range (transfer k).total := fun _ h k => (h k).trans
    (congrArg List.range (htotal k).symm)
  have hpos : 0 < (transfer 0).content.length := Nat.lt_of_lt_of_eq (by decide)
    (length_twoPackets 0).symm
  refine ⟨?_, ?_⟩
  · refine (synerRun_stored_iff world World.empty transfer (by decide) _
      (horder [(0, 0), (0, 1), (1, 0), (1, 1)] (by decide)) state 0 hpos).1 ?_
    rintro ⟨before, between, between', later, j, hj, hsplit⟩
    rw [htotal] at hsplit
    -- The other transfer begins behind the last datagram of this one.
    simp [List.cons_eq_append_iff, List.append_eq_cons_iff] at hsplit
  · refine (synerRun_stored_iff world World.empty transfer (by decide) _
      (horder [(0, 0), (1, 0), (0, 1), (1, 1)] (by decide)) state 0 hpos).2 ?_ multicastTypeAgps
    refine ⟨[], [], [], [(1, 1)], 1, by decide, ?_⟩
    rw [htotal]
    rfl

/-- A transfer of two packets, and one of a single packet that arrives between them: all datagrams
are delivered, and nothing is written for the first device. -/
theorem synerRun_stored_lost :
    let transfer : Fin 2 → Transfer := fun k =>
      ⟨List.replicate (if k = 0 then 993 else 1) 1, Vector.replicate 8 (UInt8.ofNat k),
        multicastTypeAgps, by rw [List.length_replicate]; split <;> decide⟩
    let state : SynerState := ⟨Cells.fill 0, Vector.replicate 8 0⟩
    let events : List (Fin 2 × Nat) := [(0, 0), (1, 0), (0, 1)]
    (Function.Injective fun k => (transfer k).packet) ∧
      (∀ k, arrived events k = List.range (transfer k).total) ∧
      ∀ flag block, .writeDat (synerPathName flag (hextostring (transfer 0).packet.toList)) block ∉
        ((synerRun state (events.map fun e => (transfer e.1).datagram e.2)).run world
          World.empty).trace := by
  intro transfer state events
  have hdistinct : Function.Injective fun k => (transfer k).packet := by decide
  have htotal : ∀ k, (transfer k).total = if k = 0 then 2 else 1 := by
    intro k
    have hlength : (transfer k).content.length = if k = 0 then 993 else 1 := List.length_replicate
    rw [Transfer.total, packetTotal_eq, hlength]
    split
    · rfl
    · rfl
  have horder : ∀ k, arrived events k = List.range (transfer k).total := by
    intro k
    rw [htotal]
    revert k
    decide
  refine ⟨hdistinct, horder, ?_⟩
  intro flag block hmem
  -- The second transfer arrives whole between the two packets of the first.
  have hinterrupted : Interrupted transfer events 0 := by
    refine ⟨[], [], [], [], 1, by decide, ?_⟩
    rw [htotal]
    rfl
  exact not_saved_of_interrupted hdistinct (horder 0) hinterrupted
    ((writeDat_mem_iff world World.empty transfer horder state _ _).mp hmem)

end Stored

end RobotServer
