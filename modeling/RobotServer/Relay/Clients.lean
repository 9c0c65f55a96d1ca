import RobotServer.Relay.Runs

/-!
# Clients — what the clients of a server can rely on

What a server replies depends on what was left last: the command for a device, the report for a
user, the file of a name (`replies_latest`).  And what it replies to a user and a device depends on
nothing that others do (`circle_apart`).
-/

namespace RobotServer

open CText Memory Interaction

/-! ## Histories -/

section Histories

variable (steps : List ServerStep)

/-- The commands that were left for devices, and the heartbeats that took them. -/
def commandHistory : List (Slots.Event DeviceId DeviceCommand) :=
  Machine.trace boardStep Relay.Board.commandEvents .empty (steps.map ServerStep.event)

/-- The reports that were made for users. -/
def reportHistory : List (Slots.Event UserId Report) :=
  Machine.trace boardStep Relay.Board.reportEvents .empty (steps.map ServerStep.event)

/-- The files that were stored. -/
def fileHistory : List (Slots.Event FileName (List Byte)) :=
  Machine.trace boardStep Relay.Board.fileEvents .empty (steps.map ServerStep.event)

end Histories

/-- The board holds what waits. -/
theorem eq_some_iff_waits {κ ν : Type} [DecidableEq κ] {slots : κ → Option ν}
    {history : List (Slots.Event κ ν)} (h : slots = Slots.after (fun _ => none) history) (key : κ)
    (value : ν) : slots key = some value ↔ Slots.Waits history key value := by
  rw [h]
  exact Slots.mem_after_iff history key value

theorem eq_none_iff_waits {κ ν : Type} [DecidableEq κ] {slots : κ → Option ν}
    {history : List (Slots.Event κ ν)} (h : slots = Slots.after (fun _ => none) history) (key : κ) :
    slots key = none ↔ ∀ value, ¬ Slots.Waits history key value := by
  rw [Option.eq_none_iff_forall_ne_some]
  exact forall_congr' fun value => not_congr (eq_some_iff_waits h key value)

section Clients

variable {formatCommand : Text → Option (List Text)} {json : SyncData.JsonC}
  (hformat : SyncData.HiredisFormats formatCommand)
  (hjson : ∀ binding, json.ReadsBinding (bindingRecord binding))

include hformat hjson

/-- A run of a new server shows the board of its histories. -/
theorem exists_board {steps : List ServerStep} {w : World}
    (hrun : serverRun formatCommand json .empty steps = some w) :
    ∃ b : ServerBoard, Shows b w ∧
      b.command = Slots.after (fun _ => none) (commandHistory steps) ∧
        b.report = Slots.after (fun _ => none) (reportHistory steps) ∧
          b.file = Slots.after (fun _ => none) (fileHistory steps) := by
  obtain ⟨b, hb, hshows⟩ := serverRun_shows hformat hjson shows_empty hrun
  exact ⟨b, hshows, Relay.Board.run_command hb, Relay.Board.run_report hb,
    Relay.Board.run_file hb⟩

section Message

variable {b : ServerBoard} {w : World} (hshows : Shows b w) (m : SingleMessage)

include hshows

theorem message_renders {b' : ServerBoard} {e : ServerEvent} (hevent : m.event = e)
    (hstep : b.step e = some b') : Renders (b.answer e) ((ServerStep.message m).replies w) := by
  subst hevent
  obtain ⟨w', -, -, hrenders⟩ := next_follows hformat hjson (.message m) hshows hstep
  exact hrenders

theorem heartbeat_latest {history : List (Slots.Event DeviceId DeviceCommand)}
    (hcommand : b.command = Slots.after (fun _ => none) history) {d : DeviceId} {r : Report}
    (hevent : m.event = .heartbeat d r) :
    ∃ reply, (ServerStep.message m).replies w = [reply] ∧
      if (w.redis (ascii "R_" ++ deviceKey d)).isSome then
        (∀ c, Slots.Waits history d c → reply = c.reply) ∧
          ((∀ c, ¬ Slots.Waits history d c) → IsTimePacket reply)
      else IsTimePacket reply := by
  have hrenders : Renders (.command ((b.owner d).bind fun _ => b.command d)) _ :=
    message_renders hformat hjson hshows m hevent rfl
  have howner : w.redis (ascii "R_" ++ deviceKey d) = (b.owner d).map UserId.text :=
    hshows.redis (.owner d)
  rw [howner, Option.isSome_map]
  cases hbound : b.owner d with
  | none =>
      -- A device without a user is told the time, whatever waits for it.
      rw [hbound] at hrenders
      exact hrenders
  | some u =>
      rw [hbound, Option.bind_some] at hrenders
      cases hwaits : b.command d with
      | none =>
          rw [hwaits] at hrenders
          obtain ⟨reply, hreply, htime⟩ := hrenders
          refine ⟨reply, hreply, fun c hc => ?_, fun _ => htime⟩
          exact absurd hc ((eq_none_iff_waits hcommand d).mp hwaits c)
      | some c =>
          rw [hwaits] at hrenders
          refine ⟨c.reply, hrenders, fun c' hc' => ?_, fun hnone => ?_⟩
          · have hsame := (eq_some_iff_waits hcommand d c').mpr hc'
            rw [hwaits] at hsame
            rw [Option.some.inj hsame]
          · exact absurd ((eq_some_iff_waits hcommand d c).mp hwaits) (hnone c)

theorem poll_latest {history : List (Slots.Event UserId Report)}
    (hreport : b.report = Slots.after (fun _ => none) history) {u : UserId}
    (hevent : m.event = .poll u) :
    (∀ r, Slots.Waits history u r → (ServerStep.message m).replies w = [ascii "RET:" ++ r.text]) ∧
      ((∀ r, ¬ Slots.Waits history u r) → (ServerStep.message m).replies w = [ascii "RET:"]) := by
  have hrenders : (ServerStep.message m).replies w =
      [ascii "RET:" ++ ((b.report u).map Report.text).getD []] :=
    message_renders hformat hjson hshows m hevent rfl
  refine ⟨fun r hr => ?_, fun hnone => ?_⟩
  · rw [hrenders, (eq_some_iff_waits hreport u r).mpr hr]
    rfl
  · rw [hrenders, (eq_none_iff_waits hreport u).mpr hnone]
    rfl

theorem download_stored {name : FileName} {content : List Byte} (hevent : m.event = .download name)
    (hstored : b.file name = some content) (hshort : content.length ≤ 31744) :
    (ServerStep.message m).replies w = packetsOf content name.deviceId := by
  have hsend : b.step (.download name) = some b := by
    change (if _ then some b else none) = some b
    rw [hstored]
    exact if_pos (decide_eq_true hshort)
  have hrenders : Renders ((b.file name).elim _ _) _ :=
    message_renders hformat hjson hshows m hevent hsend
  rw [hstored] at hrenders
  exact hrenders

end Message

/-- **What a server replies is what was left last.** A heartbeat of a bound device brings the
command that waits for it, or else the time; a poll brings the report that was made last for its
user; a download brings the file that was stored last. -/
theorem replies_latest {steps : List ServerStep} {w : World}
    (hrun : serverRun formatCommand json .empty steps = some w) (m : SingleMessage) :
    let replies := (ServerStep.message m).replies w
    (∀ d r, m.event = .heartbeat d r → ∃ reply, replies = [reply] ∧
      if (w.redis (ascii "R_" ++ deviceKey d)).isSome then
        (∀ c, Slots.Waits (commandHistory steps) d c → reply = c.reply) ∧
          ((∀ c, ¬ Slots.Waits (commandHistory steps) d c) → IsTimePacket reply)
      else IsTimePacket reply) ∧
    (∀ u, m.event = .poll u →
      (∀ r, Slots.Waits (reportHistory steps) u r → replies = [ascii "RET:" ++ r.text]) ∧
        ((∀ r, ¬ Slots.Waits (reportHistory steps) u r) → replies = [ascii "RET:"])) ∧
    ∀ name content, m.event = .download name → Slots.Waits (fileHistory steps) name content →
      content.length ≤ 31744 → replies = packetsOf content name.deviceId := by
  obtain ⟨b, hshows, hcommand, hreport, hfile⟩ := exists_board hformat hjson hrun
  refine ⟨?_, ?_, ?_⟩
  · exact fun d r hevent => heartbeat_latest hformat hjson hshows m hcommand hevent
  · exact fun u hevent => poll_latest hformat hjson hshows m hreport hevent
  · intro name content hevent hcontent
    have hstored : b.file name = some content := (eq_some_iff_waits hfile name content).mpr hcontent
    exact download_stored hformat hjson hshows m hevent hstored

omit hformat hjson in
/-- A heartbeat of the device behind a command. -/
theorem replies_latest_sample :
    ∃ w, serverRun SyncData.hiredisFormat SyncData.bindingJson .empty (sampleSteps.take 2) = some w ∧
      (ServerStep.message sampleHeartbeat).replies w = [sampleCommand.reply] := by
  have hread := fun binding => SyncData.bindingJson_reads (bindingRecord binding)
  have hboard : boardRun .empty (sampleSteps.take 2) = some _ := rfl
  obtain ⟨w, hw, hshows, -⟩ := serverRun_follows SyncData.hiredisFormat_formats hread
    (fun _ => true) (sampleSteps.take 2) shows_empty hboard
  have hevent : sampleHeartbeat.event = .heartbeat sampleDevice _ := rfl
  obtain ⟨reply, hreply, hlatest⟩ :=
    (replies_latest SyncData.hiredisFormat_formats hread hw sampleHeartbeat).1 _ _ hevent
  have hbound : (w.redis (ascii "R_" ++ deviceKey sampleDevice)).isSome :=
    Option.isSome_of_eq_some (hshows.redis (.owner sampleDevice))
  rw [if_pos hbound] at hlatest
  have hwaits : Slots.Waits (commandHistory (sampleSteps.take 2)) sampleDevice sampleCommand :=
    ⟨0, rfl, fun m hm e he => by cases (List.getElem?_eq_none hm).symm.trans he⟩
  exact ⟨w, hw, hreply.trans (congrArg (fun reply => [reply]) (hlatest.1 _ hwaits))⟩

/-! ## Circles -/

/-- **Nobody else is heard.** From worlds that agree on a user, a device and its files, a run and
the part of it that concerns them give the same answers to them, if every binding is one of both or
of neither. -/
theorem circle_apart (c : Relay.Circle serverVocabulary) {b b₂ : ServerBoard} {w w₂ : World}
    (h : Shows b w) (h₂ : Shows b₂ w₂) (hagree : c.Agree b b₂) (hclosed : c.Closed b)
    {steps : List ServerStep} (hrespects : ∀ s ∈ steps, c.Respects s.event)
    (hrun : (serverRun formatCommand json w steps).isSome) :
    let own := steps.filter fun s => c.concerns s.event
    (serverRun formatCommand json w₂ own).isSome ∧
      ∃ answers, List.Forall₂ Renders answers
          (serverReplies c.concerns formatCommand json w steps) ∧
        List.Forall₂ Renders answers
          (serverReplies (fun _ => true) formatCommand json w₂ own) := by
  intro own
  obtain ⟨b', hb'⟩ := Option.isSome_iff_exists.mp (boardRun_isSome hformat hjson steps h hrun)
  -- Leaving out steps leaves out their events.
  have hevents : own.map ServerStep.event = (steps.map ServerStep.event).filter c.concerns := by
    rw [List.filter_map]
    rfl
  obtain ⟨b₂', hb₂', -, hanswers⟩ := Relay.Circle.run_circle hagree hclosed (by
    intro e he
    obtain ⟨s, hs, rfl⟩ := List.mem_map.mp he
    exact hrespects s hs) hb'
  rw [← hevents] at hb₂' hanswers
  obtain ⟨w', -, -, hreplies⟩ := serverRun_follows hformat hjson c.concerns steps h hb'
  obtain ⟨w₂', hw₂', -, hreplies₂⟩ := serverRun_follows hformat hjson (fun _ => true) own h₂ hb₂'
  refine ⟨Option.isSome_of_eq_some hw₂', boardAnswers c.concerns b steps, hreplies, ?_⟩
  have hsame : boardAnswers (fun _ => true) b₂ own = boardAnswers c.concerns b steps := hanswers
  rw [← hsame]
  exact hreplies₂

omit hformat hjson in
/-- Another user and another device are bound in between. -/
theorem circle_apart_sample :
    let c : Relay.Circle serverVocabulary :=
      ⟨sampleUser, sampleDevice, fun name => name.deviceId = sampleDevice⟩
    let steps := .load [(⟨8, by decide⟩, Vector.replicate 8 0x12)] :: sampleSteps
    ∃ answers, List.Forall₂ Renders answers
        (serverReplies c.concerns SyncData.hiredisFormat SyncData.bindingJson .empty steps) ∧
      List.Forall₂ Renders answers
        (serverReplies (fun _ => true) SyncData.hiredisFormat SyncData.bindingJson .empty
          sampleSteps) := by
  intro c steps
  have hread := fun binding => SyncData.bindingJson_reads (bindingRecord binding)
  have hclosed : c.Closed .empty := ⟨fun _ _ h => (nomatch h), fun _ _ h => (nomatch h)⟩
  have hrespects : ∀ s ∈ steps, c.Respects s.event := by decide
  have hboard : boardRun .empty steps = some _ := rfl
  obtain ⟨w, hw, -⟩ := serverRun_follows SyncData.hiredisFormat_formats hread (fun _ => true) steps
    shows_empty hboard
  exact (circle_apart SyncData.hiredisFormat_formats hread c shows_empty shows_empty (.refl _)
    hclosed hrespects (Option.isSome_of_eq_some hw)).2

end Clients

end RobotServer
