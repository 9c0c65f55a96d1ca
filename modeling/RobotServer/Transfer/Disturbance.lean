import RobotServer.Transfer.Insertions

/-!
# Disturbance — when messages between its packets change what an upload saves

`Undisturbed` collects what the messages between the packets of an upload must not do: leave a
header behind that passes for a last one, end the run, or leave bytes of another file where the
upload has arrived.  It is exactly the condition under which the file is saved as without them
(`connection_insertions_iff`).  Without a download request the block buffer is safe
(`undisturbed_iff_of_no_download`), and with one it need not be (`download_disturbs`).
-/

namespace RobotServer

open CText Memory Interaction

/-! ## Runs -/

section Run

variable {σ : Type} (E : Environment serverInterface σ)

/-- The reads behind the messages are quiet, their handlers complete, and what these leave in the
block buffer is the file itself wherever it has arrived. -/
def Undisturbed (s : σ) (content : List Byte) (packet : DeviceId) (i : Nat) (parts : List Part) :
    Prop :=
  QuietFrom content packet i parts ∧ ∃ lefts,
    ((serveParts i parts).run E s).result = some lefts ∧ lefts.foldl overwrite content = content

variable {content : List Byte} {packet : DeviceId}

section Rest

variable {parts : List Part} {i : Nat} {buffer : BlockData} {s : σ}

/-- With quiet reads and handlers that complete, the upload saves what these leave of the file. -/
theorem parse_insertions_run (hsize : content.length ≤ lenBlockBuffer) (hne : parts ≠ [])
    (hinserted : Inserted content packet i parts)
    (hassembled : Assembled content content buffer i) (hquiet : QuietFrom content packet i parts)
    {lefts : List Left} (hlefts : ((serveParts i parts).run E s).result = some lefts) :
    let outcome := (parse ⟨buffer, Cells.fill 0, 0⟩ (parts.flatMap Part.arrival)).effects.run E s
    outcome.trace.filter Op.isWriteDat =
        [.writeDat (genBlockFilePathName (hextostring packet.toList))
          (lefts.foldl overwrite content)] ∧
      outcome.result = some () := by
  intro outcome
  have hinner := (serveParts_performs parts i).trace E s
  have hnone : ((serveParts i parts).run E s).trace.filter Op.isWriteDat = [] := by
    refine List.filter_eq_nil_iff.mpr ?_
    intro o ho hwrite
    rw [hinner o ho] at hwrite
    cases hwrite
  rcases uploadDone_run E packet (lefts.foldl overwrite content)
    ((serveParts i parts).run E s).final with ⟨hdone, hsaved, -⟩
  have houtcome : outcome = _ :=
    (congrArg (fun p => Program.run E p s)
      (parse_insertions hsize parts hne hinserted hassembled hquiet)).trans
      (Program.run_bind_of_result E hlefts)
  rw [houtcome]
  refine ⟨?_, hdone⟩
  rw [List.filter_append, hnone, List.nil_append]
  exact hsaved

/-- Behind its first packets, an upload completes and saves the file once exactly when it is not
disturbed. -/
theorem parse_undisturbed_iff (hsize : content.length ≤ lenBlockBuffer) (hne : parts ≠ [])
    (hinserted : Inserted content packet i parts)
    (hassembled : Assembled content content buffer i) :
    let outcome := (parse ⟨buffer, Cells.fill 0, 0⟩ (parts.flatMap Part.arrival)).effects.run E s
    (outcome.trace.filter Op.isWriteDat =
        [.writeDat (genBlockFilePathName (hextostring packet.toList)) content] ∧
      outcome.result.isSome) ↔ Undisturbed E s content packet i parts := by
  intro outcome
  by_cases hquiet : QuietFrom content packet i parts
  · cases hlefts : ((serveParts i parts).run E s).result with
    | none =>
        -- A handler that does not complete is the end of the run.
        have hnone : outcome.result = none := by
          simp only [outcome, parse_insertions hsize parts hne hinserted hassembled hquiet,
            Program.run_bind, hlefts]
        constructor
        · rintro ⟨-, hsome⟩
          rw [hnone] at hsome
          cases hsome
        · rintro ⟨-, lefts, hsome, -⟩
          cases hlefts.symm.trans hsome
    | some lefts =>
        rcases parse_insertions_run E hsize hne hinserted hassembled hquiet hlefts with
          ⟨hfilter, hdone⟩
        rw [hfilter, hdone]
        constructor
        · rintro ⟨hsame, -⟩
          injection hsame with hop
          injection hop with _ hcontent
          exact ⟨hquiet, lefts, hlefts, hcontent⟩
        · rintro ⟨-, lefts', hlefts', hcontent⟩
          cases hlefts.symm.trans hlefts'
          rw [hcontent]
          exact ⟨rfl, rfl⟩
  · constructor
    · rintro ⟨hfilter, hsome⟩
      have htwo := (parse_insertions_atLeast_two hsize parts hinserted hquiet).length_filter E s
        hsome
      change 2 ≤ (outcome.trace.filter Op.isWriteDat).length at htwo
      rw [hfilter] at htwo
      exact absurd htwo (Nat.not_succ_le_self 1)
    · rintro ⟨h, -⟩
      exact absurd h hquiet

end Rest

/-- Without messages nothing disturbs an upload. -/
theorem undisturbed_withoutMessages (hsize : content.length ≤ lenBlockBuffer) {parts : List Part}
    {i : Nat} (h : Inserted content packet i parts) (s : σ) :
    Undisturbed E s content packet i (parts.map Part.withoutMessages) := by
  refine ⟨quietFrom_withoutMessages hsize h, [], ?_, rfl⟩
  rw [serveParts_withoutMessages]
  rfl

/-- Without a download request, only reads that are not quiet and handlers that do not complete
disturb an upload. -/
theorem undisturbed_iff_of_no_download {parts : List Part} {i : Nat} {s : σ}
    (hinserted : Inserted content packet i parts)
    (hparts : ∀ part ∈ parts, ∀ message ∈ part.messages, ¬ IsDownload message) :
    Undisturbed E s content packet i parts ↔
      QuietFrom content packet i parts ∧ ((serveParts i parts).run E s).result.isSome := by
  constructor
  · rintro ⟨hquiet, lefts, hlefts, -⟩
    rw [hlefts]
    exact ⟨hquiet, rfl⟩
  · rintro ⟨hquiet, hsome⟩
    rcases Option.isSome_iff_exists.mp hsome with ⟨lefts, hlefts⟩
    have hreturns := serveParts_left parts (fun part hpart message hmessage =>
      ⟨(hinserted.isOther part hpart message hmessage).ne_nil,
        hparts part hpart message hmessage⟩) i
    exact ⟨hquiet, lefts, hlefts, foldl_overwrite_nil (hreturns.of_result E hlefts)⟩

section First

variable {start : BlockBuffer} {count : Nat} {first : Evbuffer}

/-- The first packets of an upload are stored, whatever stood in the packet buffer. -/
theorem connection_first (hindex : start.index = 0) (hsize : content.length ≤ lenBlockBuffer)
    (hcount : 0 < count) (hlt : count < packetTotal content.length)
    (hfirst : first.flatten = packetsFrom content packet 0 count) {calls : List Evbuffer}
    {later : Evbuffer} (hcalls : calls.flatten = first ++ later) :
    connection start [] calls =
      earlySaves start.packet content packet 0 start.buffer 0 first >>= fun _ =>
        parse ⟨start.buffer.place 0 (dataFrom content 0 count), Cells.fill 0, 0⟩ later := by
  have hle : start.index ≤ lenBlockPacket := hindex ▸ Nat.zero_le _
  have hstart : start = ⟨start.buffer, start.packet, 0⟩ := by
    rw [← hindex]
  obtain ⟨n, rfl⟩ : ∃ n, count = n + 1 := ⟨count - 1, by omega⟩
  have hparse := parse_packets_store hsize n start.packet start.buffer
    (show 0 + (n + 1) < packetTotal content.length by omega) hfirst
  rw [← hstart, Nat.zero_mul] at hparse
  rw [connection_eq_parse calls hle (parse_nil hle rfl), List.nil_append, hcalls,
    parse_append first.flatten.length hle (Nat.le_refl _), hparse, bind_assoc]
  rfl

theorem connection_first_idle (hidle : Idle start) (hsize : content.length ≤ lenBlockBuffer)
    (hcount : 0 < count) (hlt : count < packetTotal content.length)
    (hfirst : first.flatten = packetsFrom content packet 0 count) {calls : List Evbuffer}
    {later : Evbuffer} (hcalls : calls.flatten = first ++ later) :
    connection start [] calls =
      parse ⟨start.buffer.place 0 (dataFrom content 0 count), Cells.fill 0, 0⟩ later := by
  have hquiet : QuietReads start.packet content packet 0 first :=
    quietReads_of_peek_ne hidle.peek_ne (hcount.trans hlt) hsize first
  rw [connection_first hidle.index_eq hsize hcount hlt hfirst hcalls, hquiet.earlySaves_eq]
  rfl

theorem assembled_first (hsize : content.length ≤ lenBlockBuffer) (buffer : BlockData)
    (count : Nat) :
    Assembled content content (buffer.place 0 (dataFrom content 0 count)) count := by
  have hempty : Assembled content content buffer 0 :=
    ⟨rfl, fun x _ hx => absurd hx (by omega), fun x _ _ => rfl⟩
  have hstored := hempty.store hsize count
  rw [Nat.zero_add, Nat.zero_mul] at hstored
  exact hstored

/-- **Other messages disturb an upload exactly as far as they reach its buffers**: the file is saved
as often and with the same content as without them, and the upload completes, if and only if the
handlers complete, leave the part of the file that has arrived as it is, and no read behind them
passes for a last packet. -/
theorem connection_insertions_iff (s : σ) (hindex : start.index = 0)
    (hsize : content.length ≤ lenBlockBuffer) (hcount : 0 < count)
    (hlt : count < packetTotal content.length)
    (hfirst : first.flatten = packetsFrom content packet 0 count) {parts : List Part}
    (hparts : Inserted content packet count parts) {calls calls' : List Evbuffer}
    (hcalls : calls.flatten = first ++ parts.flatMap Part.arrival)
    (hcalls' : calls'.flatten = first ++ (parts.map Part.withoutMessages).flatMap Part.arrival) :
    let before := (connection start [] [first]).run E s
    let disturbed := (connection start [] calls).run E s
    let plain := (connection start [] calls').run E s
    (disturbed.trace.filter Op.isWriteDat = plain.trace.filter Op.isWriteDat ∧
        (plain.result.isSome → disturbed.result.isSome)) ↔
      (before.result.isSome → Undisturbed E before.final content packet count parts) := by
  intro before disturbed plain
  have hne : parts ≠ [] := by
    rintro rfl
    exact hlt.ne hparts
  have hne' : parts.map Part.withoutMessages ≠ [] := fun hnil => hne (List.map_eq_nil_iff.mp hnil)
  have hassembled := assembled_first hsize start.buffer count
  have hparts' := inserted_withoutMessages hparts
  -- Every run starts with the first packets.
  have hbefore : before = _ := congrArg (fun p => Program.run E p s)
    (connection_first hindex hsize hcount hlt hfirst
      (show [first].flatten = first ++ [] from by simp))
  have hdisturbed : disturbed = _ := congrArg (fun p => Program.run E p s)
    (connection_first hindex hsize hcount hlt hfirst hcalls)
  have hplain : plain = _ := congrArg (fun p => Program.run E p s)
    (connection_first hindex hsize hcount hlt hfirst hcalls')
  cases hresult : ((earlySaves start.packet content packet 0 start.buffer 0 first).run E s).result
    with
  | none =>
      rw [Program.run_bind, hresult] at hbefore hdisturbed hplain
      rw [hbefore, hdisturbed, hplain]
      exact ⟨fun _ hsome => absurd hsome Bool.false_ne_true, fun _ => ⟨rfl, id⟩⟩
  | some value =>
      rw [Program.run_bind_of_result E hresult] at hbefore hdisturbed hplain
      rw [parse_nil (Nat.zero_le _) rfl] at hbefore
      generalize ((earlySaves start.packet content packet 0 start.buffer 0 first).run E s).final = s'
        at hbefore hdisturbed hplain
      have hrest := @parse_undisturbed_iff _ E content packet parts count
        (start.buffer.place 0 (dataFrom content 0 count)) s' hsize hne hparts hassembled
      rcases (@parse_undisturbed_iff _ E content packet _ count
        (start.buffer.place 0 (dataFrom content 0 count)) s' hsize hne' hparts' hassembled).mpr
        (undisturbed_withoutMessages E hsize hparts s') with ⟨hsaved, hdone⟩
      rw [Program.run_effects] at hrest hsaved hdone
      simp only [Option.isSome_map] at hrest hdone
      rw [hbefore, hdisturbed, hplain]
      dsimp only at hsaved ⊢
      rw [List.filter_append, List.filter_append, List.append_cancel_left_eq, hsaved]
      constructor
      · rintro ⟨hsame, hcompletes⟩ -
        exact hrest.mp ⟨hsame, hcompletes hdone⟩
      · intro h
        rcases hrest.mpr (h rfl) with ⟨hsame, hcompletes⟩
        exact ⟨hsame, fun _ => hcompletes⟩

end First

end Run

/-! ## Two insertions -/

section Example

/-- A file of two packets. -/
def insertedFile : List Byte :=
  List.replicate 1000 7

def insertedDevice : DeviceId :=
  Vector.replicate 8 0x11

theorem insertedFile_length : insertedFile.length = 1000 := List.length_replicate

/-- The second packet of the file behind a message. -/
def insertedPart (message : List Byte) : Part where
  messages := [message]
  count := 1
  stretches := [packetAt insertedFile insertedDevice 1]

theorem inserted_insertedPart {message : List Byte} (h : IsOther message) :
    Inserted insertedFile insertedDevice 1 [insertedPart message] := by
  refine ⟨?_, Nat.one_pos, flatten_packetAt _ _ 1, ?_⟩
  · intro m hm
    rw [List.mem_singleton.mp hm]
    exact h
  · change 1 + 1 = packetTotal insertedFile.length
    rw [insertedFile_length]
    rfl

theorem quietFrom_insertedPart (message : List Byte) :
    QuietFrom insertedFile insertedDevice 1 [insertedPart message] := by
  have hheader : lenHeaderLength ≤ (packetAt insertedFile insertedDevice 1).length := by
    rw [packetAt_length]
    exact Nat.le_add_right 32 _
  exact ⟨quietReads_single hheader, trivial⟩

theorem insertedFile_size : insertedFile.length ≤ lenBlockBuffer := by
  rw [insertedFile_length]
  decide

theorem one_lt_insertedFile : 1 < packetTotal insertedFile.length := by
  rw [insertedFile_length]
  decide

/-- A poll between the two packets of a file. -/
theorem connection_insertions_iff_poll :
    let first := [packetAt insertedFile insertedDevice 0]
    let parts := [insertedPart [0x50, 0, 0, 0, 7, 0, 0, 0]]
    let disturbed := (connection BlockBuffer.zero []
      [first, parts.flatMap Part.arrival]).run world World.empty
    let plain := (connection BlockBuffer.zero []
      [first, (parts.map Part.withoutMessages).flatMap Part.arrival]).run world World.empty
    disturbed.trace.filter Op.isWriteDat = plain.trace.filter Op.isWriteDat := by
  intro first parts disturbed plain
  have hfirst := flatten_packetAt insertedFile insertedDevice 0
  have hflatten : ∀ a b : Evbuffer, [a, b].flatten = a ++ b := by simp
  have hbefore : ((connection BlockBuffer.zero [] [first]).run world World.empty).final =
      World.empty := by
    rw [connection_first_idle idle_zero insertedFile_size Nat.one_pos one_lt_insertedFile hfirst
      (show [first].flatten = first ++ [] from by simp), parse_nil (Nat.zero_le _) rfl]
    rfl
  refine ((connection_insertions_iff world World.empty rfl insertedFile_size Nat.one_pos
    one_lt_insertedFile hfirst (inserted_insertedPart ⟨by decide, by decide, by decide⟩)
    (hflatten _ _) (hflatten _ _)).mpr ?_).1
  intro _
  rw [hbefore]
  exact ⟨quietFrom_insertedPart _, [⟨1, []⟩], by decide +kernel, by simp [overwrite]⟩

/-- A download request between the two packets overwrites the first one: the file is saved with the
bytes of the downloaded packet at its head. -/
theorem download_disturbs :
    let filename := genBlockFilePathName (hextostring insertedDevice.toList)
    let s := World.empty.setFile filename [1]
    let request : List Byte := 0x44 :: (insertedDevice.toList ++ List.replicate 7 0x25)
    let first := [packetAt insertedFile insertedDevice 0]
    let last := [packetAt insertedFile insertedDevice 1]
    let disturbed := (connection BlockBuffer.zero [] [first, [request], last]).run world s
    let plain := (connection BlockBuffer.zero [] [first, last]).run world s
    plain.trace.filter Op.isWriteDat = [.writeDat filename insertedFile] ∧
      disturbed.trace.filter Op.isWriteDat =
        [.writeDat filename (packetBytes [1] insertedDevice ++ List.replicate 967 7)] ∧
      insertedFile ≠ packetBytes [1] insertedDevice ++ List.replicate 967 7 := by
  intro filename s request first last disturbed plain
  have hfirst := flatten_packetAt insertedFile insertedDevice 0
  have hinserted : Inserted insertedFile insertedDevice 1 [insertedPart request] :=
    inserted_insertedPart ⟨by decide, by decide, by decide⟩
  have hassembled : Assembled insertedFile insertedFile
      (BlockBuffer.zero.buffer.place 0 (dataFrom insertedFile 0 1)) 1 :=
    assembled_first insertedFile_size BlockBuffer.zero.buffer 1
  have hoverwrite : overwrite insertedFile ⟨1, packetBytes [1] insertedDevice⟩ =
      packetBytes [1] insertedDevice ++ List.replicate 967 7 := by decide +kernel
  -- The request is answered in the buffer that collects the upload.
  have hlefts : ((serveParts 1 [insertedPart request]).run world s).result =
      some [⟨1, packetBytes [1] insertedDevice⟩] := by decide +kernel
  have hdisturbed := (parse_insertions_run world insertedFile_size (List.cons_ne_nil _ _) hinserted
    hassembled (quietFrom_insertedPart request) hlefts).1
  have hne : [insertedPart request].map Part.withoutMessages ≠ [] := List.cons_ne_nil _ _
  -- Without the request the same two packets are stored as they came.
  have hplain := (parse_insertions_run world insertedFile_size hne
    (inserted_withoutMessages hinserted) hassembled
    (quietFrom_withoutMessages insertedFile_size hinserted)
    (congrArg Outcome.result (congrArg (fun p => Program.run world p s)
      (serveParts_withoutMessages [insertedPart request] 1)))).1
  rw [Program.run_effects, List.foldl_nil] at hplain
  rw [Program.run_effects, List.foldl_cons, List.foldl_nil, hoverwrite] at hdisturbed
  dsimp only at hplain hdisturbed
  have hcalls : ([first, [request], last] : List Evbuffer).flatten =
      first ++ [insertedPart request].flatMap Part.arrival := by
    simp [insertedPart, Part.arrival, last]
  have hcalls' : ([first, last] : List Evbuffer).flatten =
      first ++ ([insertedPart request].map Part.withoutMessages).flatMap Part.arrival := by
    simp [insertedPart, Part.arrival, Part.withoutMessages, last]
  have hrun : disturbed = _ := congrArg (fun p => Program.run world p s)
    (connection_first_idle idle_zero insertedFile_size Nat.one_pos one_lt_insertedFile hfirst hcalls)
  have hrun' : plain = _ := congrArg (fun p => Program.run world p s)
    (connection_first_idle idle_zero insertedFile_size Nat.one_pos one_lt_insertedFile hfirst
      hcalls')
  rw [hrun, hrun']
  exact ⟨hplain, hdisturbed, by decide +kernel⟩

end Example

end RobotServer
