import RobotServer.Interaction.Machine
import RobotServer.Relay.Threads

/-!
# Runs — the server refines the board

A `ServerStep` happens to a server as a whole and while nothing fails: a message in one read on a
connection between messages, an upload on an idle connection, a response of the location service
with values that redis takes as they are, a download of AGPS data, datagrams of other servers,
bindings.  `server_refines`: through every run of such steps the server shows the board of the
events, and what it replies is what the board answers; it has no result where the board is stuck.
-/

namespace RobotServer

open CText Memory Interaction

/-! ## Steps -/

/-- A message in one read, on a connection between messages. -/
structure SingleMessage where
  arrival : Arrival
  index_eq : arrival.client.index = 0
  ne_nil : arrival.message ≠ []
  length_le : arrival.message.length ≤ lenBlockPacket
  header_ne : arrival.message.headD 0 ≠ hdrBlockDataRecv

def SingleMessage.event (m : SingleMessage) : ServerEvent :=
  messageEvent m.arrival.packet m.arrival.message.length

inductive ServerStep where
  | message (m : SingleMessage)
  | upload (u : Upload)
  | reading (r : Reading)
  | assistance (g : Assistance)
  | reception (r : Reception)
  /-- The relationship table is loaded. -/
  | load (bindings : List (UserId × DeviceId))
  /-- Jobs bring bindings. -/
  | jobs (bindings : List (UserId × DeviceId))

/-- The world behind a program that returns. -/
def worldAfter {I : Interface} {α : Type} (E : Environment I World) (p : Program I α) (w : World) :
    Option World :=
  (p.run E w).result.map fun _ => (p.run E w).final

namespace ServerStep

def event : ServerStep → ServerEvent
  | .message m => m.event
  | .upload u => u.event
  | .reading r => r.event
  | .assistance g => g.event
  | .reception r => r.event
  | .load bindings | .jobs bindings => .bind bindings

/-- What a step sends to the client of its connection. -/
def replies (w : World) : ServerStep → List (List Byte)
  | .message m => repliesOf (m.arrival.serve.run world w).trace
  | .upload u => repliesOf (u.receive.run world w).trace
  | .reading r => repliesOf (r.handle.run world w).trace
  | .assistance g => repliesOf (g.download.run g.surroundings w).trace
  | .reception r => repliesOf (r.receive.run world w).trace
  | .load _ | .jobs _ => []

section Next

variable (formatCommand : Text → Option (List Text)) (json : SyncData.JsonC)

def next (w : World) : ServerStep → Option World
  | .message m => worldAfter world m.arrival.serve w
  | .upload u => worldAfter world u.receive w
  | .reading r => worldAfter world r.handle w
  | .assistance g => worldAfter g.surroundings g.download w
  | .reception r => worldAfter world r.receive w
  | .load bindings =>
      worldAfter (syncWorld ((bindings.map bindingRecord).map SyncData.Binding.row))
        (SyncData.initUserAndDeviceRelationshipList formatCommand) w
  | .jobs bindings =>
      worldAfter (syncWorld [])
        (SyncData.syncJobs formatCommand json
          ((bindings.map bindingRecord).map SyncData.Binding.workload)) w

end Next

end ServerStep

/-- The step of the board of a server. -/
def boardStep (b : ServerBoard) (e : ServerEvent) : Option ServerBoard :=
  b.step e

/-- The board behind the events of steps. -/
def boardRun (b : ServerBoard) (steps : List ServerStep) : Option ServerBoard :=
  Machine.run boardStep b (steps.map ServerStep.event)

section Server

variable (keep : ServerEvent → Bool)

/-- What the board answers to the steps with the events that are kept, one after another. -/
def boardAnswers (b : ServerBoard) (steps : List ServerStep) : List ServerAnswer :=
  Machine.trace boardStep (fun b e => if keep e then [b.answer e] else []) b
    (steps.map ServerStep.event)

variable (formatCommand : Text → Option (List Text)) (json : SyncData.JsonC)

/-- The world behind steps. -/
def serverRun (w : World) (steps : List ServerStep) : Option World :=
  Machine.run (ServerStep.next formatCommand json) w steps

/-- What the server replies to the steps with the events that are kept, one after another. -/
def serverReplies (w : World) (steps : List ServerStep) : List (List (List Byte)) :=
  Machine.trace (ServerStep.next formatCommand json)
    (fun w s => if keep s.event then [s.replies w] else []) w steps

end Server

theorem Follows.worldAfter {α : Type} {E : Environment serverInterface World} {p : Action α}
    {b b' : ServerBoard} {w : World} {e : ServerEvent} (h : Follows E p b w e)
    (hstep : b.step e = some b') :
    ∃ w', worldAfter E p w = some w' ∧ Shows b' w' ∧
      Renders (b.answer e) (repliesOf (p.run E w).trace) := by
  obtain ⟨a, hresult, hshows, hrenders⟩ := h b' hstep
  refine ⟨_, ?_, hshows, hrenders⟩
  rw [RobotServer.worldAfter, hresult]
  rfl

/-! ## One step -/

section Step

variable {formatCommand : Text → Option (List Text)} {json : SyncData.JsonC}
  (hformat : SyncData.HiredisFormats formatCommand)
  (hjson : ∀ binding, json.ReadsBinding (bindingRecord binding))

include hformat hjson

/-- Every step of the server is the one of its event. -/
theorem next_follows (s : ServerStep) {b b' : ServerBoard} {w : World} (h : Shows b w)
    (hstep : b.step s.event = some b') :
    ∃ w', s.next formatCommand json w = some w' ∧ Shows b' w' ∧
      Renders (b.answer s.event) (s.replies w) := by
  cases s with
  | message m =>
      exact (message_follows h m.index_eq m.ne_nil m.length_le m.header_ne).worldAfter hstep
  | upload u => exact (Upload.follows h).worldAfter hstep
  | reading r => exact (Reading.follows h).worldAfter hstep
  | assistance g => exact (Assistance.follows h).worldAfter hstep
  | reception r => exact (Reception.follows h).worldAfter hstep
  | load bindings =>
      cases hstep
      -- The query hands the loader the rows of the table.
      have hrows := SyncData.relationshipRows_entersAll hformat
        (syncWorld_redis ((bindings.map bindingRecord).map SyncData.Binding.row))
        (syncWorld_writes _) (bindings.map bindingRecord) w
      obtain ⟨hresult, hshows⟩ := entersAll_shows h bindings hrows
      exact ⟨_, congrArg (Option.map _) hresult, hshows, rfl⟩
  | jobs bindings =>
      cases hstep
      have hread : ∀ record ∈ bindings.map bindingRecord, json.ReadsBinding record := by
        intro record hmem
        obtain ⟨binding, -, rfl⟩ := List.mem_map.mp hmem
        exact hjson binding
      have hjobs := SyncData.syncJobs_entersAll hformat (syncWorld_redis []) (syncWorld_writes [])
        (bindings.map bindingRecord) hread w
      obtain ⟨hresult, hshows⟩ := entersAll_shows h bindings hjobs
      exact ⟨_, congrArg (Option.map _) hresult, hshows, rfl⟩

omit hformat hjson in
/-- Where the board is stuck the server runs into undefined behaviour. -/
theorem next_stuck (s : ServerStep) {b : ServerBoard} {w : World} (h : Shows b w)
    (hstuck : b.step s.event = none) : s.next formatCommand json w = none := by
  obtain ⟨name, hevent, -⟩ := Relay.Board.exists_download_of_stuck hstuck
  cases s with
  | message m =>
      have hfault := message_faults h m.index_eq m.ne_nil m.length_le m.header_ne hstuck
      exact congrArg (Option.map _) hfault
  | reading r =>
      change (if _ then _ else _) = _ at hevent
      split at hevent
      · cases hevent
      · cases hevent
  | _ => cases hevent

/-! ## Runs -/

theorem serverRun_follows (keep : ServerEvent → Bool) (steps : List ServerStep)
    {b b' : ServerBoard} {w : World} (h : Shows b w) (hrun : boardRun b steps = some b') :
    ∃ w', serverRun formatCommand json w steps = some w' ∧ Shows b' w' ∧
      List.Forall₂ Renders (boardAnswers keep b steps)
        (serverReplies keep formatCommand json w steps) := by
  refine Machine.run_lockstep ?_ steps h hrun
  intro b w s b' h hstep
  obtain ⟨w', hnext, hshows, hrenders⟩ := next_follows hformat hjson s h hstep
  refine ⟨w', hnext, hshows, ?_⟩
  cases keep s.event with
  | false => exact .nil
  | true => exact .cons hrenders .nil

theorem boardRun_isSome (steps : List ServerStep) {b : ServerBoard} {w : World} (h : Shows b w)
    (hrun : (serverRun formatCommand json w steps).isSome) : (boardRun b steps).isSome := by
  refine @Machine.run_isSome_of_lockstep _ _ _ _ _ _ Shows _ ?_ ?_ steps _ _ h hrun
  · intro b w s b' h hstep
    obtain ⟨w', hnext, hshows, -⟩ := next_follows hformat hjson s h hstep
    exact ⟨w', hnext, hshows⟩
  · exact fun b w s h hstuck => next_stuck s h hstuck

/-- What a run of the server leaves shows what the events leave of the board. -/
theorem serverRun_shows {steps : List ServerStep} {b : ServerBoard} {w w' : World} (h : Shows b w)
    (hrun : serverRun formatCommand json w steps = some w') :
    ∃ b', boardRun b steps = some b' ∧ Shows b' w' := by
  obtain ⟨b', hb'⟩ := Option.isSome_iff_exists.mp
    (boardRun_isSome hformat hjson steps h (Option.isSome_of_eq_some hrun))
  obtain ⟨w₁, hw₁, hshows, -⟩ := serverRun_follows hformat hjson (fun _ => true) steps h hb'
  obtain rfl : w' = w₁ := Option.some.inj (hrun.symm.trans hw₁)
  exact ⟨b', hb', hshows⟩

/-- **The server is a relay**: from a world that shows a board, a run of any steps returns exactly
when the board can take their events; then the world shows the board behind them, and every reply
is the answer of the board. -/
theorem server_refines (keep : ServerEvent → Bool) (steps : List ServerStep) {b : ServerBoard}
    {w : World} (h : Shows b w) :
    ((serverRun formatCommand json w steps).isSome ↔ (boardRun b steps).isSome) ∧
      ∀ b', boardRun b steps = some b' → ∃ w', serverRun formatCommand json w steps = some w' ∧
        Shows b' w' ∧ List.Forall₂ Renders (boardAnswers keep b steps)
          (serverReplies keep formatCommand json w steps) := by
  refine ⟨⟨boardRun_isSome hformat hjson steps h, fun hrun => ?_⟩, fun b' hrun =>
    serverRun_follows hformat hjson keep steps h hrun⟩
  obtain ⟨b', hb'⟩ := Option.isSome_iff_exists.mp hrun
  obtain ⟨w', hw', -⟩ := serverRun_follows hformat hjson keep steps h hb'
  exact Option.isSome_of_eq_some hw'

end Step

/-! ## A sample -/

def sampleDevice : DeviceId := Vector.replicate 8 0x11

def sampleUser : UserId := ⟨7, by decide⟩

def sampleCommand : DeviceCommand :=
  ⟨cmdPhoneDeviceFamilynumberSet, 1, #v[0x00, 0x86, 0x18, 0x87, 0x41, 0x87, 0x42, 0x90], by decide⟩

/-- The packet of a phone for the command. -/
def sampleCommandMessage : SingleMessage where
  arrival := ⟨.zero, [0x43, 0x00, 0x00, 0x00, 0x07] ++
    sampleCommand.code :: sampleCommand.index :: sampleCommand.number.toList ++ [0x43]⟩
  index_eq := rfl
  ne_nil := by decide
  length_le := by decide
  header_ne := by decide

def sampleHeartbeat : SingleMessage where
  arrival := ⟨.zero, 0x48 :: sampleDevice.toList ++ List.replicate 23 0⟩
  index_eq := rfl
  ne_nil := by decide
  length_le := by decide
  header_ne := by decide

def sampleSteps : List ServerStep :=
  [.load [(sampleUser, sampleDevice)], .message sampleCommandMessage, .message sampleHeartbeat]

/-- A phone leaves a command for its device, and the next heartbeat is answered with it. -/
theorem server_refines_sample :
    let formatCommand := SyncData.hiredisFormat
    let json := SyncData.bindingJson
    (serverRun formatCommand json .empty sampleSteps).isSome ∧
      serverReplies (fun _ => true) formatCommand json .empty sampleSteps =
        [[], [], [sampleCommand.reply]] := by
  obtain ⟨hiff, hrun⟩ := server_refines SyncData.hiredisFormat_formats
    (fun binding => SyncData.bindingJson_reads (bindingRecord binding)) (fun _ => true)
    sampleSteps shows_empty
  have hboard : (boardRun .empty sampleSteps).isSome := rfl
  have hanswers : boardAnswers (fun _ => true) .empty sampleSteps =
      [.silence, .silence, .command (some sampleCommand)] := rfl
  obtain ⟨b', hb'⟩ := Option.isSome_iff_exists.mp hboard
  obtain ⟨w', -, -, hreplies⟩ := hrun b' hb'
  rw [hanswers] at hreplies
  refine ⟨hiff.mpr hboard, ?_⟩
  -- Three answers, one for each step.
  rcases hreplies with _ | ⟨hload, _ | ⟨hcommand, _ | ⟨hheartbeat, ⟨⟩⟩⟩⟩
  exact List.cons_eq_cons.mpr ⟨hload, List.cons_eq_cons.mpr ⟨hcommand,
    List.cons_eq_cons.mpr ⟨hheartbeat, rfl⟩⟩⟩

end RobotServer
