import RobotServer.Relay.Clients

/-!
# Peers — a file on two servers

A peer that receives the whole transfer of the AGPS data of a device answers the downloads of the
device as the sender does, whatever it does afterwards to everything else (`download_replicated`).
-/

namespace RobotServer

open CText Memory Interaction

/-! ## Complete receptions -/

/-- Everything in a complete reception was sent. -/
theorem Delivers.mem_sent {sent received : List (List Byte)} (h : Delivers sent received) :
    ∀ d ∈ received, d ∈ sent := by
  intro d hd
  rcases h with ⟨datagram, rfl, rfl⟩ | ⟨first, others, last, middle, rfl, rfl, hmiddle, -⟩
  · exact hd
  · rcases List.mem_cons.mp hd with rfl | hd
    · exact List.mem_cons_self
    · rcases List.mem_append.mp hd with hd | hd
      · have hfirst : d ∈ first :: others ++ [last] := List.mem_append_left [last] (hmiddle d hd)
        exact hfirst
      · exact List.mem_cons_of_mem _ (List.mem_append_right others hd)

section Reception

variable {t : Transfer} {received : List (List Byte)} {b : ServerBoard} {w : World}

/-- A receiver of a whole transfer writes its file, and nothing else. -/
theorem Transfer.synerRun_yields (h : Delivers t.datagrams received) (state : SynerState)
    (w : World) :
    ∃ state', Yields (synerRun state received) w [] state' (w.setFile t.path t.content) := by
  have hindex : ∀ d ∈ received, ∃ i, i < t.total ∧ t.datagram i = d := by
    intro d hd
    obtain ⟨i, hi, rfl⟩ := List.mem_map.mp (h.mem_sent d hd)
    exact ⟨i, List.mem_range.mp hi, rfl⟩
  obtain ⟨indices, hreceived, hindices⟩ := exists_eq_map received hindex
  -- By their indices, the datagrams are those of a run of the receiver.
  have harrived : received = (indices.map fun i => (t, i)).map fun e => e.1.datagram e.2 := by
    rw [hreceived, List.map_map]
    rfl
  have hsent : ∀ e ∈ indices.map fun i => (t, i), e.2 < e.1.total := by
    intro e he
    obtain ⟨i, hi, rfl⟩ := List.mem_map.mp he
    exact hindices i hi
  have hresult := (synerRun_run world (indices.map fun i => (t, i)) hsent state w).1
  rw [← harrived] at hresult
  obtain ⟨state', hresult⟩ := Option.isSome_iff_exists.mp hresult
  have htrace := t.synerRun_of_delivers world w state h
  have hfinal := Program.final_eq_foldl world (synerRun state received) w
  rw [htrace] at hfinal
  -- The one operation is the write, so nothing is sent to a client.
  refine ⟨state', state', hresult, ?_, rfl, hfinal⟩
  rw [htrace]
  rfl

theorem Transfer.synerRun_shows (h : Delivers t.datagrams received) (state : SynerState)
    (hshows : Shows b w) :
    ∃ w', worldAfter world (synerRun state received).effects w = some w' ∧
      Shows (b.save t.fileName t.content) w' := by
  obtain ⟨state', hyields⟩ := t.synerRun_yields h state w
  have hsaved : Shows (b.save t.fileName t.content) (w.setFile t.path t.content) := by
    rw [← t.path_fileName]
    exact hshows.save t.fileName t.content
  have hstore : b.step (.store [(t.fileName, t.content)]) = some (b.save t.fileName t.content) :=
    rfl
  obtain ⟨w', hw', hshows', -⟩ := (hyields.effects.follows hstore hsaved rfl).worldAfter hstore
  exact ⟨w', hw', hshows'⟩

end Reception

/-! ## Transfers of AGPS data -/

/-- The transfer of the AGPS data of a device. -/
def agpsTransfer (d : DeviceId) (content : List Byte) (hshort : content.length ≤ 31744) :
    Transfer where
  content := content
  packet := d
  flag := multicastTypeAgps
  length_le := hshort

theorem fileName_agpsTransfer (d : DeviceId) (content : List Byte)
    (hshort : content.length ≤ 31744) : (agpsTransfer d content hshort).fileName = .agps d :=
  if_pos rfl

/-- A device id of decimal digits is sent as it is. -/
theorem synerDevId_deviceKey {d : DeviceId} (hdigits : ∀ c ∈ deviceKey d, isDigit c = true) :
    synerDevId (deviceKey d) = d :=
  deviceKey_injective (hextostring_synerDevId (deviceKey_length d) hdigits)

section Peers

variable {formatCommand : Text → Option (List Text)} {json : SyncData.JsonC}
  (hformat : SyncData.HiredisFormats formatCommand)
  (hjson : ∀ binding, json.ReadsBinding (bindingRecord binding))

include hformat hjson

/-- **A file is the same on every server**: behind a complete reception of the AGPS data of a
device, a peer sends the device what the sender would, through all steps that leave the file
alone. -/
theorem download_replicated {b bPeer : ServerBoard} {w wPeer : World} (h : Shows b w)
    (hPeer : Shows bPeer wPeer) {d : DeviceId} {content : List Byte}
    (hstored : b.file (.agps d) = some content) (hshort : content.length ≤ 31744)
    (hdigits : ∀ c ∈ deviceKey d, isDigit c = true) (state : SynerState)
    {received : List (List Byte)}
    (hreceived : Delivers
      (sentDatagrams ((apolloSynerAction ⟨deviceKey d, multicastTypeAgps⟩).run world w).trace)
      received) :
    ∃ wStored, worldAfter world (synerRun state received).effects wPeer = some wStored ∧
      ∀ steps wLater, serverRun formatCommand json wStored steps = some wLater →
        (∀ s ∈ steps, ¬ s.event.Writes (FileName.agps d)) →
          ∀ m : SingleMessage, m.event = .download (.agps d) →
            (ServerStep.message m).replies w = packetsOf content d ∧
              (ServerStep.message m).replies wLater = packetsOf content d := by
  have hread : w.files (genAgpsFilePathName (deviceKey d)) = some content :=
    (h.file (.agps d)).trans hstored
  have hsent : sentDatagrams ((apolloSynerAction ⟨deviceKey d, multicastTypeAgps⟩).run world
      w).trace = (agpsTransfer d content hshort).datagrams :=
    apolloSynerAction_sent world hread (synerDevId_deviceKey hdigits).symm rfl
  rw [hsent] at hreceived
  -- What was sent is the transfer of the file, under the device id itself.
  obtain ⟨wStored, hw, hshows⟩ := Transfer.synerRun_shows hreceived state hPeer
  rw [fileName_agpsTransfer] at hshows
  refine ⟨wStored, hw, ?_⟩
  intro steps wLater hrun hwrites m hevent
  obtain ⟨bLater, hb, hlater⟩ := serverRun_shows hformat hjson hshows hrun
  -- The file is still the one that was received.
  have hkept : bLater.file (.agps d) = some content := by
    have hsaved : (bPeer.save (.agps d) content).file (.agps d) = some content :=
      Function.update_self _ _ _
    rw [← hsaved]
    refine Relay.Board.run_file_of_not_writes ?_ hb
    intro e he
    obtain ⟨s, hs, rfl⟩ := List.mem_map.mp he
    exact hwrites s hs
  have hsender := download_stored hformat hjson h m hevent hstored hshort
  have hpeer := download_stored hformat hjson hlater m hevent hkept hshort
  exact ⟨hsender, hpeer⟩

omit hformat hjson in
/-- Two packets of AGPS data, downloaded from the peer that received them, the first one twice. -/
theorem download_replicated_two_packets :
    let digits := deviceKey sampleDevice
    let sender := World.empty.setFile (genAgpsFilePathName digits) (twoPackets 7)
    let sent := sentDatagrams
      ((apolloSynerAction ⟨digits, multicastTypeAgps⟩).run world sender).trace
    let request : SingleMessage :=
      ⟨⟨.zero, 0x44 :: sampleDevice.toList ++ [0, 0, 0, 0, 0x61, 0, 0x44]⟩, rfl, by decide,
        by decide, by decide⟩
    ∃ wPeer, worldAfter world (synerRun ⟨Cells.fill 0xFF, Vector.replicate 8 0⟩
        (sent.take 1 ++ sent)).effects .empty = some wPeer ∧
      (ServerStep.message request).replies sender = packetsOf (twoPackets 7) sampleDevice ∧
      (ServerStep.message request).replies wPeer = packetsOf (twoPackets 7) sampleDevice := by
  intro digits sender sent request
  have hshort : (twoPackets 7).length ≤ 31744 := (length_twoPackets 7).le.trans (by decide)
  have hdigits : ∀ c ∈ digits, isDigit c = true := by decide +kernel
  have hshows : Shows (Relay.Board.empty.save (FileName.agps sampleDevice) (twoPackets 7)) sender :=
    shows_empty.save (.agps sampleDevice) (twoPackets 7)
  let t := agpsTransfer sampleDevice (twoPackets 7) hshort
  have hsent : sent = t.datagrams :=
    apolloSynerAction_sent world (hshows.file (.agps sampleDevice))
      (synerDevId_deviceKey hdigits).symm rfl
  have htwo : sent = [t.datagram 0, t.datagram 1] :=
    hsent.trans (Transfer.datagrams_eq (Transfer.total_ofTwo sampleDevice 7))
  have hdelivers : Delivers sent (sent.take 1 ++ sent) := by
    rw [htwo]
    exact .inr ⟨t.datagram 0, [], t.datagram 1, [t.datagram 0], rfl, rfl, fun d hd => hd,
      fun d hd => (nomatch hd)⟩
  obtain ⟨wPeer, hw, hreplies⟩ := download_replicated SyncData.hiredisFormat_formats
    (fun binding => SyncData.bindingJson_reads (bindingRecord binding)) hshows shows_empty
    (Function.update_self _ _ _) hshort hdigits ⟨Cells.fill 0xFF, .replicate 8 0⟩ hdelivers
  refine ⟨wPeer, hw, ?_⟩
  exact hreplies [] wPeer rfl (fun s hs => (nomatch hs)) request rfl

end Peers

end RobotServer
