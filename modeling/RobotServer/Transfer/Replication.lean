import RobotServer.Transfer.Collection
import RobotServer.Transfer.Upload

/-!
# Replication — sender and receiver together

A peer that receives every datagram of a transfer, the first one first and the last one last,
stores the file under the path the sender read it from (`replication_exact`).  The transfer an
upload starts is not one of the uploaded block: the sender reads the AGPS file of the device and
the receiver writes it (`upload_never_replicated`).
-/

namespace RobotServer

open CText Memory Interaction

/-! ## The device id of a transfer -/

/-- The packed digits of a device id text are its text. -/
theorem hextostring_synerDevId {digits : Text} (hlen : digits.length = 16)
    (hdigits : ∀ b ∈ digits, isDigit b = true) :
    hextostring (synerDevId digits).toList = digits := by
  have hpairs := hextostring_pairs digits hdigits 8 hlen
  have hlist : (synerDevId digits).toList = (List.range 8).map fun i =>
      stringtohex (digits.getD (2 * i) 0) (digits.getD (2 * i + 1) 0) := by
    refine List.ext_getElem (by simp [synerDevId]) ?_
    intro i h1 h2
    simp [synerDevId]
  rw [hlist, hpairs]

/-! ## Complete reception -/

/-- A reception of everything sent: the first datagram first, then datagrams before the last one
among which every other occurs, then the last one. -/
def Delivers (sent received : List (List Byte)) : Prop :=
  (∃ datagram, sent = [datagram] ∧ received = [datagram]) ∨
    ∃ first others last middle, sent = first :: (others ++ [last]) ∧
      received = first :: (middle ++ [last]) ∧ (∀ d ∈ middle, d ∈ first :: others) ∧
      ∀ d ∈ others, d ∈ middle

/-- Values of a function are the image of a list of arguments. -/
theorem exists_eq_map {f : Nat → List Byte} {n : Nat} (l : List (List Byte)) :
    (∀ d ∈ l, ∃ i, i < n ∧ f i = d) → ∃ indices : List Nat, l = indices.map f ∧ ∀ i ∈ indices, i < n := by
  induction l with
  | nil =>
      intro _
      exact ⟨[], rfl, by simp⟩
  | cons d l ih =>
      intro h
      rcases ih fun e he => h e (by simp [he]) with ⟨indices, rfl, hindices⟩
      rcases h d (by simp) with ⟨i, hi, rfl⟩
      refine ⟨i :: indices, rfl, ?_⟩
      intro j hj
      rcases List.mem_cons.mp hj with rfl | hmem
      · exact hi
      · exact hindices j hmem

namespace Transfer

variable {t : Transfer}

theorem datagrams_of_total_eq_one (h : t.total = 1) : t.datagrams = [t.datagram 0] := by
  rw [datagrams, h]
  rfl

/-- The datagrams of a transfer of two or more packets. -/
theorem datagrams_eq {m : Nat} (h : t.total = m + 2) :
    t.datagrams = t.datagram 0 ::
      ((List.range m).map (fun i => t.datagram (i + 1)) ++ [t.datagram (m + 1)]) := by
  rw [datagrams, h, List.range_succ_eq_map, List.map_cons, List.map_map, List.range_succ,
    List.map_append]
  rfl

/-- A complete reception by index. -/
theorem exists_indices_of_delivers {received : List (List Byte)}
    (h : Delivers t.datagrams received) :
    (t.total = 1 ∧ received = [t.datagram 0]) ∨
      ∃ m middle, t.total = m + 2 ∧ received = (0 :: (middle ++ [m + 1])).map t.datagram ∧
        (∀ i ∈ middle, i < m + 1) ∧ ∀ i, i < m → i + 1 ∈ middle := by
  rcases h with ⟨datagram, hsent, hreceived⟩ | ⟨first, others, last, middle, hsent, hreceived,
    hmiddle, hothers⟩
  · left
    have hlen := congrArg List.length hsent
    have htotal : t.total = 1 := by simpa [datagrams] using hlen
    rw [datagrams_of_total_eq_one htotal] at hsent
    exact ⟨htotal, hreceived.trans hsent.symm⟩
  · right
    have hlen := congrArg List.length hsent
    have htotal : t.total = others.length + 2 := by simpa [datagrams] using hlen
    rw [datagrams_eq htotal] at hsent
    injection hsent with hfirst htail
    rcases List.append_inj htail (by simp) with ⟨hothers', hlast⟩
    injection hlast with hlast
    -- Every received datagram has an index.
    have hindex : ∀ d ∈ middle, ∃ i, i < others.length + 1 ∧ t.datagram i = d := by
      intro d hd
      rcases List.mem_cons.mp (hmiddle d hd) with rfl | hmem
      · exact ⟨0, Nat.succ_pos _, hfirst⟩
      · rw [← hothers'] at hmem
        rcases List.mem_map.mp hmem with ⟨i, hi, rfl⟩
        exact ⟨i + 1, Nat.succ_lt_succ (List.mem_range.mp hi), rfl⟩
    rcases exists_eq_map middle hindex with ⟨indices, rfl, hindices⟩
    refine ⟨others.length, indices, htotal, ?_, hindices, ?_⟩
    · rw [hreceived, ← hfirst, ← hlast, List.map_cons, List.map_append]
      rfl
    · intro i hi
      have hmem : t.datagram (i + 1) ∈ others := by
        rw [← hothers']
        exact List.mem_map.mpr ⟨i, List.mem_range.mpr hi, rfl⟩
      rcases List.mem_map.mp (hothers _ hmem) with ⟨j, hj, heq⟩
      have hjm := hindices j hj
      have hji := t.datagram_injective (by omega) (by omega) heq
      rwa [← hji]

/-- A complete reception saves the file, whatever the receiver held before. -/
theorem synerRun_of_delivers {σ : Type} (E : Environment serverInterface σ) (s : σ)
    (state : SynerState) {received : List (List Byte)} (h : Delivers t.datagrams received) :
    ((synerRun state received).run E s).trace = [.writeDat t.path t.content] := by
  rcases exists_indices_of_delivers h with ⟨htotal, rfl⟩ | ⟨m, middle, htotal, rfl, hmiddle, hall⟩
  -- One packet is first and last at once.
  · have hindices : ∀ i ∈ [0], i < t.total := by simp [htotal]
    have hblock : Collected.block t state.u8SynerBlockData
        { Collected.start t state with held := [0] } = t.content :=
      Collected.block_eq_content (by simp [htotal])
    have hrun := synerRun_datagrams E s t state hindices
    have hsaves : Collected.saves t state.u8SynerBlockData (Collected.start t state) [0] =
        [t.content] := by
      rw [Collected.saves, if_pos ⟨.inl rfl, htotal.symm⟩]
      exact congrArg (· :: []) hblock
    rw [hsaves] at hrun
    exact hrun
  -- First the header packet, then the middle ones in any order, then the last.
  · have hindices : ∀ i ∈ 0 :: (middle ++ [m + 1]), i < t.total := by
      intro i hi
      rcases List.mem_cons.mp hi with rfl | hmem
      · omega
      · rcases List.mem_append.mp hmem with hmid | hlast
        · have hlt := hmiddle i hmid
          omega
        · have heq := List.mem_singleton.mp hlast
          omega
    have hblock : Collected.block t state.u8SynerBlockData
        ⟨true, (m + 1) :: (middle.reverse ++ [0]), false⟩ = t.content := by
      apply Collected.block_eq_content
      intro i hi
      cases i with
      | zero => simp
      | succ i =>
          rcases Nat.lt_or_ge i m with hlt | hge
          · simp [hall i hlt]
          · have heq : i = m := by omega
            simp [heq]
    have hrun := synerRun_datagrams E s t state hindices
    have hsaves : Collected.saves t state.u8SynerBlockData (Collected.start t state)
        (0 :: (middle ++ [m + 1])) = [t.content] := by
      have harrive : Collected.arrive t 0 (Collected.start t state) = ⟨true, [0], false⟩ := by
        simp [Collected.arrive, Collected.start, htotal]
      -- With more than one packet, the first cannot complete the block.
      have hfirst : ¬ ((0 = 0 ∨ (Collected.start t state).known = true) ∧ 0 + 1 = t.total) := by
        omega
      rw [Collected.saves, if_neg hfirst, harrive,
        Collected.saves_middle middle fun i hi => by have hlt := hmiddle i hi; omega,
        Collected.saves, if_pos ⟨.inr rfl, htotal.symm⟩]
      exact congrArg (· :: []) hblock
    rw [hsaves] at hrun
    exact hrun

end Transfer

/-- **Replication is exact**: what the sender reads is what a peer stores under the same path,
from every state of the peer and in every order of the datagrams between the first and the last. -/
theorem replication_exact {σ σ' : Type} (E : Environment serverInterface σ) (s : σ)
    (E' : Environment serverInterface σ') (s' : σ') (digits : Text) (hlen : digits.length = 16)
    (hdigits : ∀ b ∈ digits, isDigit b = true) (content : List Byte)
    (hsize : content.length ≤ 31744)
    (hfile : (E.answer (.readDat (genAgpsFilePathName digits)) s).1 =
      (some content : Option (List Byte)))
    (state : SynerState) (received : List (List Byte))
    (hreceived : Delivers
      (sentDatagrams ((apolloSynerAction ⟨digits, multicastTypeAgps⟩).run E s).trace) received) :
    ((synerRun state received).run E' s').trace =
      [.writeDat (genAgpsFilePathName digits) content] := by
  obtain ⟨t, hcontent, hpacket, hflag⟩ : ∃ t : Transfer, t.content = content ∧
      t.packet = synerDevId digits ∧ t.flag = multicastTypeAgps :=
    ⟨⟨content, synerDevId digits, multicastTypeAgps, hsize⟩, rfl, rfl, rfl⟩
  subst hcontent
  have hsent : sentDatagrams ((apolloSynerAction ⟨digits, multicastTypeAgps⟩).run E s).trace =
      t.datagrams := apolloSynerAction_sent E hfile hpacket hflag
  have hpath : t.path = genAgpsFilePathName digits := by
    rw [Transfer.path, hpacket, hextostring_synerDevId hlen hdigits, hflag]
    rfl
  rw [hsent] at hreceived
  rw [t.synerRun_of_delivers E' s' state hreceived, hpath]

/-- An AGPS file of two packets, received by a peer with a dirty buffer, the first packet twice. -/
theorem replication_exact_two_packets :
    let digits := ascii "1234567890123456"
    let sender := World.empty.setFile (genAgpsFilePathName digits) (twoPackets 7)
    let state : SynerState := ⟨Cells.fill 0xFF, Vector.replicate 8 0⟩
    let sent := sentDatagrams
      ((apolloSynerAction ⟨digits, multicastTypeAgps⟩).run world sender).trace
    sent.length = 2 ∧ ((synerRun state (sent.take 1 ++ sent)).run world World.empty).trace =
      [.writeDat (genAgpsFilePathName digits) (twoPackets 7)] := by
  intro digits sender state sent
  let t : Transfer := .ofTwo (synerDevId digits) 7
  have hfile : (world.answer (.readDat (genAgpsFilePathName digits)) sender).1 =
      (some t.content : Option (List Byte)) :=
    World.files_setFile_self World.empty (genAgpsFilePathName digits) (twoPackets 7)
  have hsent : sent = t.datagrams := apolloSynerAction_sent world hfile rfl rfl
  have htwo : sent = [t.datagram 0, t.datagram 1] :=
    hsent.trans (Transfer.datagrams_eq (Transfer.total_ofTwo _ _))
  have hdelivers : Delivers sent (sent.take 1 ++ sent) := by
    rw [htwo]
    exact .inr ⟨t.datagram 0, [], t.datagram 1, [t.datagram 0], rfl, rfl, fun d hd => hd,
      fun d hd => (nomatch hd)⟩
  refine ⟨congrArg List.length htwo, ?_⟩
  exact replication_exact world sender world World.empty digits (by decide) (by decide +kernel)
    (twoPackets 7) ((length_twoPackets 7).le.trans (by decide)) hfile state _ hdelivers

/-! ## The transfer an upload starts -/

/-- What would make the uploaded block the one that is replicated: the sender sends its packets,
and a peer that receives them stores it as a block and does nothing else. -/
def BlockReplicated (packet : DeviceId) (content : List Byte) (sent : List (List Byte))
    (stored : List Op) : Prop :=
  (∃ flag, sent = (packetsOf content packet).map fun datagram => datagram.set 20 flag) ∧
    stored = [.writeDat (genBlockFilePathName (hextostring packet.toList)) content]

/-- A completed upload starts one transfer, of the AGPS file. -/
theorem uploadDone_starts {σ : Type} (E : Environment serverInterface σ) (s : σ)
    (packet : DeviceId) (content : List Byte) (arg : MulticastSynerPacket) :
    .createThread (.apolloSynerAction arg) ∈ ((uploadDone packet content).run E s).trace ↔
      arg = ⟨hextostring packet.toList, multicastTypeAgps⟩ := by
  rw [uploadDone_eq, Program.run_call, Program.run_call]
  generalize E.answer (.writeBuffer (ascii "SETOK%")) _ = reply
  rcases reply with ⟨failed, s'⟩
  cases (failed : Bool) with
  | false => simp
  | true =>
      have hclose : (Program.onlyIf true (perform .closeClient) : Action Unit) =
          Program.call (I := serverInterface) .closeClient .ret := rfl
      rw [hclose]
      simp

/-- Everything a peer stores of an AGPS transfer is stored as an AGPS file. -/
theorem synerRun_agps_ne {σ : Type} (E : Environment serverInterface σ) (s : σ) (t : Transfer)
    (hflag : t.flag = multicastTypeAgps) (state : SynerState) (u8DeviceId : Text)
    (content : List Byte) :
    ((synerRun state t.datagrams).run E s).trace ≠
      [.writeDat (genBlockFilePathName u8DeviceId) content] := by
  intro heq
  have hindices : ∀ i ∈ List.range t.total, i < t.total := fun i hi => List.mem_range.mp hi
  have hrun := synerRun_datagrams E s t state hindices
  have htrace := hrun.symm.trans heq
  have hmem : Op.writeDat (genBlockFilePathName u8DeviceId) content ∈
      [Op.writeDat (genBlockFilePathName u8DeviceId) content] := List.mem_singleton_self _
  rw [← htrace] at hmem
  rcases List.mem_map.mp hmem with ⟨block, -, hwrite⟩
  injection hwrite with hpath
  rw [Transfer.path, hflag] at hpath
  exact genBlockFilePathName_ne_genAgpsFilePathName _ _ hpath.symm

/-- **No upload is replicated**: the transfer it starts is one of the AGPS file of the device,
whatever is stored there, and a peer never stores a block of it. -/
theorem upload_never_replicated {σ σ₁ σ₂ : Type} (E : Environment serverInterface σ) (s : σ)
    {start : BlockBuffer} (hidle : Idle start) (packet : DeviceId) (content : List Byte)
    (hpos : 0 < content.length) (hsize : content.length ≤ lenBlockBuffer) (calls : List Evbuffer)
    (hcalls : calls.flatten.flatten = packetBytes content packet)
    (E₁ : Environment serverInterface σ₁) (s₁ : σ₁) (E₂ : Environment serverInterface σ₂) (s₂ : σ₂)
    (state : SynerState) :
    let trace := ((connection start [] calls).run E s).trace
    (∃ arg, .createThread (.apolloSynerAction arg) ∈ trace) ∧
      ∀ arg, .createThread (.apolloSynerAction arg) ∈ trace →
        let sent := sentDatagrams ((apolloSynerAction arg).run E₁ s₁).trace
        ¬ BlockReplicated packet content sent ((synerRun state sent).run E₂ s₂).trace := by
  intro trace
  -- The trace of the connection is the trace of the one completed upload.
  have htrace : trace = ((uploadDone packet content).run E s).trace := by
    rcases uploadDone_run E packet content s with ⟨hresult, -, -⟩
    have hrun := Program.run_bind_of_result E
      (f := fun _ => Program.ret (uploadEnd start content packet, ([] : Evbuffer))) hresult
    rw [← connection_upload hidle hpos hsize hcalls] at hrun
    simpa using congrArg Outcome.trace hrun
  rw [htrace]
  refine ⟨⟨_, (uploadDone_starts E s packet content _).mpr rfl⟩, ?_⟩
  intro arg harg
  have harg := (uploadDone_starts E s packet content arg).mp harg
  subst harg
  rintro sent ⟨-, hstored⟩
  have hsent := apolloSynerAction_sent_cases E₁ s₁
    ⟨hextostring packet.toList, multicastTypeAgps⟩
  rcases hsent with hnone | ⟨t, -, hflag, hsome⟩
  · -- Nothing was sent, and nothing can have been stored.
    rw [show sent = [] from hnone] at hstored
    cases hstored
  · rw [show sent = t.datagrams from hsome] at hstored
    exact synerRun_agps_ne E₂ s₂ t hflag state _ _ hstored

/-- An upload of one byte is not replicated by a server without any other file. -/
theorem upload_never_replicated_one_byte :
    let packet : DeviceId := Vector.replicate 8 0x11
    let state : SynerState := ⟨Cells.fill 0, Vector.replicate 8 0⟩
    let trace := ((connection BlockBuffer.zero [] [[packetBytes [7] packet]]).run world
      World.empty).trace
    (∃ arg, .createThread (.apolloSynerAction arg) ∈ trace) ∧
      ∀ arg, .createThread (.apolloSynerAction arg) ∈ trace →
        let sent := sentDatagrams ((apolloSynerAction arg).run world World.empty).trace
        ¬ BlockReplicated packet [7] sent ((synerRun state sent).run world World.empty).trace := by
  intro packet state
  have hcalls : ([[packetBytes [7] packet]] : List Evbuffer).flatten.flatten =
      packetBytes [7] packet := by simp
  exact upload_never_replicated world World.empty idle_zero packet [7] (by decide) (by decide) _
    hcalls world World.empty world World.empty state

/-- A device uploads one byte and has one byte of AGPS data: the peer stores the AGPS data under
the AGPS path, and no block. -/
theorem upload_replicated_agps :
    let packet : DeviceId := Vector.replicate 8 0x11
    let digits := hextostring packet.toList
    let server := World.empty.setFile (genAgpsFilePathName digits) [9]
    let outcome := (connection BlockBuffer.zero [] [[packetBytes [7] packet]]).run world server
    let state : SynerState := ⟨Cells.fill 0, Vector.replicate 8 0⟩
    ∃ arg, .createThread (.apolloSynerAction arg) ∈ outcome.trace ∧
      let sent := sentDatagrams ((apolloSynerAction arg).run world outcome.final).trace
      let stored := ((synerRun state sent).run world World.empty).trace
      stored = [.writeDat (genAgpsFilePathName digits) [9]] ∧
        ¬ BlockReplicated packet [7] sent stored := by
  intro packet digits server outcome state
  have hcalls : ([[packetBytes [7] packet]] : List Evbuffer).flatten.flatten =
      packetBytes [7] packet := by simp
  have houtcome : outcome = ((uploadDone packet [7]) >>= fun _ => Program.ret
      (uploadEnd BlockBuffer.zero [7] packet, ([] : Evbuffer))).run world server :=
    congrArg (fun p => p.run world server)
      (connection_upload idle_zero (by decide) (by decide) hcalls)
  have hfinal : outcome.final = server.setFile (genBlockFilePathName digits) [7] := by
    rw [houtcome]
    rfl
  let t : Transfer := ⟨[9], synerDevId digits, multicastTypeAgps, by decide⟩
  -- The saved block leaves the AGPS file alone.
  have hfile : (world.answer (.readDat (genAgpsFilePathName digits)) outcome.final).1 =
      (some t.content : Option (List Byte)) := by
    rw [hfinal]
    have hne := (genBlockFilePathName_ne_genAgpsFilePathName digits digits).symm
    exact (World.files_setFile_of_ne server hne [7]).trans
      (World.files_setFile_self World.empty (genAgpsFilePathName digits) [9])
  have hsent : sentDatagrams ((apolloSynerAction ⟨digits, multicastTypeAgps⟩).run world
      outcome.final).trace = t.datagrams := apolloSynerAction_sent world hfile rfl rfl
  have hpath : t.path = genAgpsFilePathName digits := by
    have hdigits : hextostring (synerDevId digits).toList = digits :=
      hextostring_synerDevId (by decide) (by decide +kernel)
    rw [Transfer.path, show t.packet = synerDevId digits from rfl, hdigits]
    rfl
  have hone := t.datagrams_of_total_eq_one (by decide)
  have hstored : ((synerRun state t.datagrams).run world World.empty).trace =
      [.writeDat (genAgpsFilePathName digits) [9]] := by
    rw [t.synerRun_of_delivers world World.empty state (.inl ⟨t.datagram 0, hone, hone⟩), hpath]
  refine ⟨⟨digits, multicastTypeAgps⟩, ?_, ?_⟩
  · rw [houtcome]
    exact (uploadDone_starts world server packet [7] _).mpr rfl
  · rw [hsent]
    refine ⟨hstored, ?_⟩
    rintro ⟨-, hblock⟩
    exact synerRun_agps_ne world World.empty t rfl state digits [7] hblock

end RobotServer
