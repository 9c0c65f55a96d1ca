import RobotServer.Transfer.Datagrams

/-!
# Receiver — what `ApolloSyner` does with the datagrams of transfers

`Transfer.arrive` is the receiver as a function: the remembered device decides whether a datagram
is accepted, an accepted one is stored, and the last one saves and clears the block.
`apolloSyner_arrive` proves that the program makes exactly these steps; `saves` is a whole run.
-/

namespace RobotServer

open CText Memory Interaction

/-! ## A received datagram -/

theorem apolloStrcmp_iff (n : Nat) :
    ∀ str1 str2 : List Byte, str1.length = n → str2.length = n →
      (apolloStrcmp str1 str2 n = true ↔ str1 = str2) := by
  induction n with
  | zero =>
      intro str1 str2 h1 h2
      rw [List.eq_nil_of_length_eq_zero h1, List.eq_nil_of_length_eq_zero h2]
      simp [apolloStrcmp]
  | succ n ih =>
      intro str1 str2 h1 h2
      cases str1 with
      | nil => cases h1
      | cons a str1 =>
          cases str2 with
          | nil => cases h2
          | cons b str2 =>
              have hrest := ih str1 str2 (Nat.succ_inj.mp h1) (Nat.succ_inj.mp h2)
              by_cases hab : a = b
              · simp [apolloStrcmp, hab, hrest]
              · simp [apolloStrcmp, hab]

theorem recvmsg_peek {datagram : List Byte} (h : datagram.length ≤ 1024) {x : Nat}
    (hx : x < 1048) : (recvmsg datagram).peek x = datagram.getD x 0 := by
  have htake : datagram.take lenBlockPacket = datagram := List.take_of_length_le h
  rw [recvmsg, htake]
  rcases Nat.lt_or_ge x datagram.length with hlt | hge
  · have hpeek := Cells.peek_place_add (Cells.fill 0 : Cells 1048 Byte) 0 datagram
      (show 0 + x < 1048 by omega) hlt
    rwa [Nat.zero_add] at hpeek
  · have hpeek : ((Cells.fill 0 : Cells 1048 Byte).place 0 datagram).peek x =
        (Cells.fill 0 : Cells 1048 Byte).peek x := Cells.peek_place_of_le hx (by omega)
    rw [hpeek, Cells.peek_fill hx, List.getD_eq_default _ _ hge]

namespace Transfer

variable (t : Transfer)

theorem recvmsg_holdsPacket (i : Nat) :
    HoldsPacket (recvmsg (t.datagram i)) t.content t.packet i := by
  apply HoldsPacket.of_peek
  intro x hx hne
  have hle := packetAt_length_le t.content t.packet i
  rw [recvmsg_peek (t.datagram_length_le i) (by omega), t.datagram_getD_of_ne hne]

theorem recvmsg_flag (i : Nat) : (recvmsg (t.datagram i)).peek 20 = t.flag := by
  rw [recvmsg_peek (t.datagram_length_le i) (by decide), t.datagram_getD_flag]

theorem content_length_le : t.content.length ≤ lenBlockBuffer :=
  t.length_le.trans (by decide)

theorem recvmsg_blockHeader {i : Nat} (hi : i < t.total) :
    blockHeader (recvmsg (t.datagram i)) = ⟨(packetData t.content i).length, i, t.total⟩ :=
  (t.recvmsg_holdsPacket i).blockHeader_eq hi t.content_length_le

/-- The device id remembered after a datagram. -/
theorem synerDeviceId_eq {i : Nat} (hi : i < t.total) (u8DevId : DeviceId) :
    synerDeviceId u8DevId (recvmsg (t.datagram i)) = if i = 0 then t.packet else u8DevId := by
  have hslice := (t.recvmsg_holdsPacket i).header.slice_deviceId
  have hid : (Vector.ofFn fun k : Fin 8 => (recvmsg (t.datagram i)).peek (1 + k)) = t.packet := by
    apply Vector.toList_inj.mp
    rw [← hslice]
    refine List.ext_getElem (by simp) ?_
    intro k h1 h2
    simp [Cells.slice]
  rw [synerDeviceId, t.recvmsg_blockHeader hi]
  by_cases hzero : i = 0
  · rw [if_pos hzero]
    simpa [hzero] using hid
  · rw [if_neg hzero]
    simp [hzero]

/-! ## One datagram -/

/-- The block with packet `i` of the transfer stored. -/
def store (i : Nat) (block : BlockData) : BlockData :=
  block.place (i * 992) (packetData t.content i)

/-- Packet 0 introduces its device, the others must be of the remembered one. -/
def accepts (i : Nat) (state : SynerState) : Prop :=
  i = 0 ∨ state.u8DevId = t.packet

instance (i : Nat) (state : SynerState) : Decidable (t.accepts i state) :=
  inferInstanceAs (Decidable (_ ∨ _))

/-- What is saved when datagram `i` arrives, and the state after it. -/
def arrive (i : Nat) (state : SynerState) : Option (List Byte) × SynerState :=
  if ¬ t.accepts i state then (none, state)
  else if i + 1 = t.total then
    (some ((t.store i state.u8SynerBlockData).slice 0 t.content.length), ⟨Cells.fill 0, t.packet⟩)
  else (none, ⟨t.store i state.u8SynerBlockData, t.packet⟩)

theorem synerDeviceId_of_accepts {i : Nat} (hi : i < t.total) {state : SynerState}
    (h : t.accepts i state) :
    synerDeviceId state.u8DevId (recvmsg (t.datagram i)) = t.packet := by
  rw [t.synerDeviceId_eq hi]
  rcases h with hzero | hknown
  · rw [if_pos hzero]
  · rw [hknown, ite_self]

theorem synerDeviceId_of_not_accepts {i : Nat} (hi : i < t.total) {state : SynerState}
    (h : ¬ t.accepts i state) :
    synerDeviceId state.u8DevId (recvmsg (t.datagram i)) = state.u8DevId := by
  rw [t.synerDeviceId_eq hi, if_neg (fun hzero => h (.inl hzero))]

/-- `apollo_strcmp` compares the whole device id. -/
theorem strcmp_recvmsg (i : Nat) (u8DevId : DeviceId) :
    apolloStrcmp u8DevId.toList ((recvmsg (t.datagram i)).slice idxDeviceId lenDeviceId)
      lenDeviceId = decide (u8DevId = t.packet) := by
  have hslice : (recvmsg (t.datagram i)).slice idxDeviceId lenDeviceId = t.packet.toList :=
    (t.recvmsg_holdsPacket i).header.slice_deviceId
  have hiff := apolloStrcmp_iff lenDeviceId u8DevId.toList t.packet.toList Vector.length_toList
    Vector.length_toList
  rw [hslice, Bool.eq_iff_iff, hiff, Vector.toList_inj, decide_eq_true_iff]

theorem apolloSyner_rejected {i : Nat} (hi : i < t.total) {state : SynerState}
    (h : ¬ t.accepts i state) : apolloSyner state (t.datagram i) = .ret state := by
  have hzero := (t.recvmsg_holdsPacket i).header.peek_zero
  have hne : state.u8DevId ≠ t.packet := fun heq => h (.inr heq)
  simp only [apolloSyner]
  rw [if_neg (not_not.mpr hzero), t.synerDeviceId_of_not_accepts hi h, t.strcmp_recvmsg,
    decide_eq_false hne]
  rfl

theorem apolloSyner_accepted {i : Nat} (hi : i < t.total) {state : SynerState}
    (h : t.accepts i state) :
    apolloSyner state (t.datagram i) =
      Program.ofOption (storeDatagram state.u8SynerBlockData (recvmsg (t.datagram i))
        (t.datagram i).length) >>= fun block =>
          saveDatagram ⟨block, t.packet⟩ (recvmsg (t.datagram i)) := by
  have hzero := (t.recvmsg_holdsPacket i).header.peek_zero
  have htake : (t.datagram i).take lenBlockPacket = t.datagram i :=
    List.take_of_length_le (t.datagram_length_le i)
  simp only [apolloSyner]
  rw [if_neg (not_not.mpr hzero), t.synerDeviceId_of_accepts hi h, t.strcmp_recvmsg,
    decide_eq_true rfl, htake]
  rfl

/-- A packet before the last one is stored. -/
theorem apolloSyner_stored {i : Nat} (hi : i + 1 < t.total) {state : SynerState}
    (h : t.accepts i state) :
    apolloSyner state (t.datagram i) = .ret ⟨t.store i state.u8SynerBlockData, t.packet⟩ := by
  have hlt : i < t.total := by omega
  have hholds := t.recvmsg_holdsPacket i
  have hlast : ¬ ((blockHeader (recvmsg (t.datagram i))).pktIndex + 1 =
      (blockHeader (recvmsg (t.datagram i))).pktTotal) := by
    rw [hholds.isLast_iff hlt t.content_length_le]
    exact hi.ne
  rw [t.apolloSyner_accepted hlt h, storeDatagram, if_pos ⟨t.datagram_length_of_lt hi, hlast⟩,
    hholds.copyBlockData_eq hlt t.content_length_le (by decide)]
  simp only [Program.ofOption_some, Program.ret_bind]
  rw [saveDatagram, if_neg hlast]
  rfl

/-- The last packet is stored, and the block is saved and cleared. -/
theorem apolloSyner_saved {i : Nat} (hi : i + 1 = t.total) {state : SynerState}
    (h : t.accepts i state) :
    apolloSyner state (t.datagram i) =
      writeDat t.path ((t.store i state.u8SynerBlockData).slice 0 t.content.length) >>= fun _ =>
        .ret ⟨Cells.fill 0, t.packet⟩ := by
  have hlt : i < t.total := by omega
  have hholds := t.recvmsg_holdsPacket i
  have hlast := (hholds.isLast_iff hlt t.content_length_le).mpr hi
  have hid : hextostring ((recvmsg (t.datagram i)).slice idxDeviceId lenDeviceId) =
      hextostring t.packet.toList := congrArg hextostring hholds.header.slice_deviceId
  rw [t.apolloSyner_accepted hlt h, storeDatagram, if_neg (fun hfull => hfull.2 hlast)]
  simp only [Program.ofOption_some, Program.ret_bind]
  rw [saveDatagram, if_pos hlast, hholds.copyBlockData_eq hlt t.content_length_le (by decide)]
  simp only [Program.ofOption_some, Program.ret_bind, hid, t.recvmsg_flag]
  rw [hholds.blockOff_add_dataLength hi t.content_length_le, Cells.upTo?_of_le t.content_length_le]
  rfl

/-- The program makes the steps of `arrive`. -/
theorem apolloSyner_arrive {i : Nat} (hi : i < t.total) (state : SynerState) :
    apolloSyner state (t.datagram i) =
      (match (t.arrive i state).1 with
        | none => .ret ()
        | some block => writeDat t.path block) >>= fun _ => .ret (t.arrive i state).2 := by
  unfold arrive
  by_cases h : t.accepts i state
  · rw [if_neg (not_not.mpr h)]
    by_cases hlast : i + 1 = t.total
    · rw [if_pos hlast]
      exact t.apolloSyner_saved hlast h
    · rw [if_neg hlast]
      exact t.apolloSyner_stored (by omega) h
  · rw [if_pos h]
    exact t.apolloSyner_rejected hi h

end Transfer

/-! ## A run -/

/-- The blocks saved while the datagrams of `events` arrive, each with its path. -/
def saves : SynerState → List (Transfer × Nat) → List (Text × List Byte)
  | _, [] => []
  | state, (t, i) :: rest =>
      ((t.arrive i state).1.map fun block => (t.path, block)).toList ++
        saves (t.arrive i state).2 rest

theorem synerRun_run {σ : Type} (E : Environment serverInterface σ)
    (events : List (Transfer × Nat)) :
    (∀ e ∈ events, e.2 < e.1.total) → ∀ (state : SynerState) (s : σ),
      let outcome := (synerRun state (events.map fun e => e.1.datagram e.2)).run E s
      outcome.result.isSome ∧
        outcome.trace = (saves state events).map fun w => .writeDat w.1 w.2 := by
  induction events with
  | nil =>
      intro _ state s
      exact ⟨rfl, rfl⟩
  | cons e rest ih =>
      intro hevents state s
      rcases e with ⟨t, i⟩
      have hi : i < t.total := hevents (t, i) (by simp)
      have hrest := ih (fun e he => hevents e (by simp [he])) (t.arrive i state).2
      have hstep : synerRun state (((t, i) :: rest).map fun e => e.1.datagram e.2) =
          apolloSyner state (t.datagram i) >>= fun state' =>
            synerRun state' (rest.map fun e => e.1.datagram e.2) := rfl
      rw [hstep, t.apolloSyner_arrive hi, saves]
      cases hsaved : (t.arrive i state).1 with
      | none => simpa [hsaved] using hrest s
      | some block =>
          have hrest' := hrest (E.answer (.writeDat t.path block) s).2
          exact ⟨hrest'.1, congrArg (_ :: ·) hrest'.2⟩

end RobotServer
