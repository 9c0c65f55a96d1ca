import RobotServer.Interaction.Machine
import RobotServer.Interaction.Slots

/-!
# Relay — a board between users and devices

A relay keeps the command that waits for a device and the last report for a user, the last place
of a device, and files.  A user commands the device it is bound to, and a device reports to the
user it is bound to; one event sets both bindings, and neither looks at the other.

- a command waits until it is taken (`run_command`), a report until the next one (`run_report`), a
  file until the next one of its name (`run_file`);
- `run_circle`: a user, a device and the names of its files are answered alike when everybody else
  is left out of the run.
-/

namespace Relay

open Interaction

/-- What a relay speaks of. -/
structure Vocabulary where
  User : Type
  Device : Type
  Command : Type
  Report : Type
  Place : Type
  Name : Type
  File : Type
  /-- The commands that ask for the last place of a device. -/
  asksPlace : Command → Bool
  /-- The report of a place that is asked for. -/
  known : Place → Report
  /-- The files that can be sent. -/
  canSend : File → Bool

structure Board (V : Vocabulary) where
  device : V.User → Option V.Device
  owner : V.Device → Option V.User
  command : V.Device → Option V.Command
  report : V.User → Option V.Report
  place : V.Device → Option V.Place
  file : V.Name → Option V.File

inductive Event (V : Vocabulary) where
  | bind (bindings : List (V.User × V.Device))
  | command (user : V.User) (c : V.Command)
  | heartbeat (device : V.Device) (r : V.Report)
  | poll (user : V.User)
  /-- A device tells its place. -/
  | position (device : V.Device) (p : V.Place) (r : V.Report)
  /-- The place of a device is found for it. -/
  | located (device : V.Device) (p : V.Place) (r : V.Report)
  | upload (name : V.Name) (f : V.File)
  /-- Files that come from other relays. -/
  | store (files : List (V.Name × V.File))
  | download (name : V.Name)
  /-- A file for a device is written over, and a command tells the device. -/
  | assist (device : V.Device) (name : V.Name) (change : Option V.File → V.File) (c : V.Command)
  | other

/-- The event stores a file under the name. -/
def Event.Writes {V : Vocabulary} (name : V.Name) : Event V → Prop
  | .upload name' _ | .assist _ name' _ _ => name' = name
  | .store files => ∃ f, (name, f) ∈ files
  | .bind _ | .command _ _ | .heartbeat _ _ | .poll _ | .position _ _ _ | .located _ _ _
  | .download _ | .other => False

/-- What the sender of an event is told. -/
inductive Answer (V : Vocabulary) where
  | silence
  | command (c : Option V.Command)
  | report (r : Option V.Report)
  | received
  | saved
  | file (name : V.Name) (f : V.File)
  | anything

namespace Board

variable {V : Vocabulary}

/-- A board before its first event. -/
def empty : Board V :=
  ⟨fun _ => none, fun _ => none, fun _ => none, fun _ => none, fun _ => none, fun _ => none⟩

section Steps

variable [DecidableEq V.User] [DecidableEq V.Device] [DecidableEq V.Name]

def bindTo (b : Board V) (binding : V.User × V.Device) : Board V :=
  { b with
    device := Function.update b.device binding.1 (some binding.2)
    owner := Function.update b.owner binding.2 (some binding.1) }

def leave (b : Board V) (device : V.Device) (c : V.Command) : Board V :=
  { b with command := Function.update b.command device (some c) }

def post (b : Board V) (user : V.User) (r : V.Report) : Board V :=
  { b with report := Function.update b.report user (some r) }

def save (b : Board V) (name : V.Name) (f : V.File) : Board V :=
  { b with file := Function.update b.file name (some f) }

/-- The report that a command calls for at once. -/
def asked (b : Board V) (device : V.Device) (c : V.Command) : Option V.Report :=
  if V.asksPlace c then (b.place device).map V.known else none

def tell (b : Board V) (user : V.User) (c : V.Command) : Board V :=
  match b.device user with
  | none => b
  | some device => ((b.asked device c).elim b (b.post user)).leave device c

def beat (b : Board V) (device : V.Device) (r : V.Report) : Board V :=
  match b.owner device with
  | none => b
  | some user => { b.post user r with command := Function.update b.command device none }

def locate (b : Board V) (device : V.Device) (p : V.Place) (r : V.Report) : Board V :=
  match b.owner device with
  | none => b
  | some user => { b.post user r with place := Function.update b.place device (some p) }

/-- A file that is not there, or cannot be sent, has no download. -/
def step (b : Board V) : Event V → Option (Board V)
  | .bind bindings => some (bindings.foldl bindTo b)
  | .command user c => some (b.tell user c)
  | .heartbeat device r => some (b.beat device r)
  | .poll _ => some b
  | .position device p r => some (b.locate device p r)
  | .located device p r => some (b.locate device p r)
  | .upload name f => some (b.save name f)
  | .store files => some (files.foldl (fun b file => b.save file.1 file.2) b)
  | .download name => if (b.file name).any V.canSend then some b else none
  | .assist device name change c => some ((b.save name (change (b.file name))).leave device c)
  | .other => some b

end Steps

def answer (b : Board V) : Event V → Answer V
  | .heartbeat device _ => .command ((b.owner device).bind fun _ => b.command device)
  | .poll user => .report (b.report user)
  | .position _ _ _ => .received
  | .upload _ _ => .saved
  | .download name => (b.file name).elim .anything (.file name)
  | .other => .anything
  | .bind _ | .command _ _ | .located _ _ _ | .store _ | .assist _ _ _ _ => .silence

/-! ## Slots of the board -/

section Slots

variable [DecidableEq V.User] [DecidableEq V.Device] [DecidableEq V.Name]

/-- What an event does to the commands that wait. -/
def commandEvents (b : Board V) : Event V → List (Slots.Event V.Device V.Command)
  | .command user c => ((b.device user).map fun device => Slots.Event.put device c).toList
  | .heartbeat device _ => ((b.owner device).map fun _ => Slots.Event.take device).toList
  | .assist device _ _ c => [.put device c]
  | _ => []

/-- What an event does to the reports. -/
def reportEvents (b : Board V) : Event V → List (Slots.Event V.User V.Report)
  | .command user c =>
      (((b.device user).bind fun device => b.asked device c).map (Slots.Event.put user)).toList
  | .heartbeat device r | .position device _ r | .located device _ r =>
      ((b.owner device).map fun user => Slots.Event.put user r).toList
  | _ => []

/-- What an event does to the files. -/
def fileEvents (b : Board V) : Event V → List (Slots.Event V.Name V.File)
  | .upload name f => [.put name f]
  | .store files => files.map fun file => .put file.1 file.2
  | .assist _ name change _ => [.put name (change (b.file name))]
  | _ => []

omit [DecidableEq V.User] [DecidableEq V.Device] [DecidableEq V.Name] in
theorem writes_of_mem_fileEvents {b : Board V} {e : Event V} {put : Slots.Event V.Name V.File}
    (h : put ∈ b.fileEvents e) : e.Writes put.key := by
  cases e with
  | upload name f => rw [List.mem_singleton.mp h]; rfl
  | assist device name change c => rw [List.mem_singleton.mp h]; rfl
  | store files =>
      obtain ⟨file, hfile, rfl⟩ := List.mem_map.mp h
      exact ⟨file.2, hfile⟩
  | _ => cases h

omit [DecidableEq V.Name] in
/-- Bindings leave everything else alone. -/
theorem bindAll_kept (bindings : List (V.User × V.Device)) (b : Board V) :
    let b' := bindings.foldl bindTo b
    b'.command = b.command ∧ b'.report = b.report ∧ b'.place = b.place ∧ b'.file = b.file := by
  induction bindings generalizing b with
  | nil => exact ⟨rfl, rfl, rfl, rfl⟩
  | cons binding rest ih => exact ih (b.bindTo binding)

omit [DecidableEq V.User] [DecidableEq V.Device] in
/-- Files leave everything else alone. -/
theorem saveAll_kept (files : List (V.Name × V.File)) (b : Board V) :
    let b' := files.foldl (fun b file => b.save file.1 file.2) b
    b'.device = b.device ∧ b'.owner = b.owner ∧ b'.command = b.command ∧ b'.report = b.report ∧
      b'.place = b.place := by
  induction files generalizing b with
  | nil => exact ⟨rfl, rfl, rfl, rfl, rfl⟩
  | cons file rest ih => exact ih (b.save file.1 file.2)

omit [DecidableEq V.User] [DecidableEq V.Device] in
theorem saveAll_file (files : List (V.Name × V.File)) (b : Board V) :
    (files.foldl (fun b file => b.save file.1 file.2) b).file =
      Slots.after b.file (files.map fun file => .put file.1 file.2) := by
  induction files generalizing b with
  | nil => rfl
  | cons file rest ih => exact ih (b.save file.1 file.2)

/-- A download changes nothing. -/
theorem eq_of_download {b b' : Board V} {name : V.Name} (h : b.step (.download name) = some b') :
    b' = b := by
  change (if _ then some b else none) = some b' at h
  split at h
  · exact (Option.some.inj h).symm
  · cases h

/-- What is downloaded is there, and can be sent. -/
theorem exists_of_download {b b' : Board V} {name : V.Name}
    (h : b.step (.download name) = some b') : ∃ f, b.file name = some f ∧ V.canSend f = true := by
  change (if _ then some b else none) = some b' at h
  split at h
  · next hsend => exact (Option.any_eq_true _ _).mp hsend
  · cases h

/-- Only a download can be stuck. -/
theorem exists_download_of_stuck {b : Board V} {e : Event V} (h : b.step e = none) :
    ∃ name, e = .download name ∧ ∀ f, b.file name = some f → V.canSend f = false := by
  cases e with
  | download name =>
      refine ⟨name, rfl, fun f hf => ?_⟩
      change (if (b.file name).any V.canSend then some b else none) = none at h
      rw [hf] at h
      split at h
      · cases h
      · next hsend => exact Bool.eq_false_iff.mpr hsend
  | _ => cases h

/-- What an event makes of the commands, the reports and the files. -/
theorem step_slots {b b' : Board V} {e : Event V} (h : b.step e = some b') :
    b'.command = Slots.after b.command (b.commandEvents e) ∧
      b'.report = Slots.after b.report (b.reportEvents e) ∧
        b'.file = Slots.after b.file (b.fileEvents e) := by
  cases e with
  | download name =>
      rw [eq_of_download h]
      exact ⟨rfl, rfl, rfl⟩
  | bind bindings =>
      cases h
      obtain ⟨hcommand, hreport, -, hfile⟩ := bindAll_kept bindings b
      exact ⟨hcommand, hreport, hfile⟩
  | command user c =>
      cases h
      dsimp only [tell, commandEvents, reportEvents]
      cases b.device user with
      | none => exact ⟨rfl, rfl, rfl⟩
      | some device =>
          -- A command that asks for a place that is known is answered with a report at once.
          dsimp only [Option.bind_some]
          cases b.asked device c with
          | none => exact ⟨rfl, rfl, rfl⟩
          | some r => exact ⟨rfl, rfl, rfl⟩
  | heartbeat device r =>
      cases h
      dsimp only [beat, commandEvents, reportEvents]
      cases b.owner device with
      | none => exact ⟨rfl, rfl, rfl⟩
      | some user => exact ⟨rfl, rfl, rfl⟩
  | position device p r | located device p r =>
      cases h
      dsimp only [locate, reportEvents]
      cases b.owner device with
      | none => exact ⟨rfl, rfl, rfl⟩
      | some user => exact ⟨rfl, rfl, rfl⟩
  | poll user => cases h; exact ⟨rfl, rfl, rfl⟩
  | upload name f => cases h; exact ⟨rfl, rfl, rfl⟩
  | store files =>
      cases h
      obtain ⟨-, -, hcommand, hreport, -⟩ := saveAll_kept files b
      exact ⟨hcommand, hreport, saveAll_file files b⟩
  | assist device name change c => cases h; exact ⟨rfl, rfl, rfl⟩
  | other => cases h; exact ⟨rfl, rfl, rfl⟩

/-- A part of the board that each event changes by slot events holds what these leave of it. -/
theorem run_slots {κ ν : Type} [DecidableEq κ] {part : Board V → κ → Option ν}
    {partEvents : Board V → Event V → List (Slots.Event κ ν)}
    (hstep : ∀ {b b' : Board V} {e}, b.step e = some b' →
      part b' = Slots.after (part b) (partEvents b e))
    {events : List (Event V)} {b b' : Board V} (hrun : Machine.run step b events = some b') :
    part b' = Slots.after (part b) (Machine.trace step partEvents b events) := by
  have hsim : ∀ (slots : κ → Option ν) (b : Board V) (e : Event V) (b' : Board V),
      slots = part b → b.step e = some b' →
        ∃ slots', Machine.run (fun slots e => some (Slots.step slots e)) slots
          (partEvents b e) = some slots' ∧ slots' = part b' := by
    rintro slots b e b' rfl h
    exact ⟨_, Machine.run_some Slots.step _ _, (hstep h).symm⟩
  obtain ⟨slots', hslots, rfl⟩ := Machine.run_simulates hsim events rfl hrun
  rw [Machine.run_some] at hslots
  exact (Option.some.inj hslots).symm

section Run

variable {events : List (Event V)} {b b' : Board V} (hrun : Machine.run step b events = some b')

include hrun

theorem run_command :
    b'.command = Slots.after b.command (Machine.trace step commandEvents b events) :=
  run_slots (fun h => (step_slots h).1) hrun

theorem run_report :
    b'.report = Slots.after b.report (Machine.trace step reportEvents b events) :=
  run_slots (fun h => (step_slots h).2.1) hrun

theorem run_file : b'.file = Slots.after b.file (Machine.trace step fileEvents b events) :=
  run_slots (fun h => (step_slots h).2.2) hrun

end Run

/-- What is stored under a name stays while nothing is written to it. -/
theorem run_file_of_not_writes {events : List (Event V)} {b b' : Board V} {name : V.Name}
    (hwrites : ∀ e ∈ events, ¬ e.Writes name) (hrun : Machine.run step b events = some b') :
    b'.file name = b.file name := by
  induction events generalizing b with
  | nil =>
      injection hrun with hrun
      rw [hrun]
  | cons e rest ih =>
      obtain ⟨b₁, hstep, hrest⟩ := Machine.run_cons_iff.mp hrun
      have hkept : b₁.file name = b.file name := by
        rw [(step_slots hstep).2.2]
        refine Slots.after_of_ne fun put hput hkey => hwrites e List.mem_cons_self ?_
        exact hkey ▸ writes_of_mem_fileEvents hput
      rw [ih (fun e' he' => hwrites e' (List.mem_cons_of_mem _ he')) hrest, hkept]

end Slots

end Board

/-! ## A user, a device and their files -/

structure Circle (V : Vocabulary) where
  user : V.User
  device : V.Device
  name : V.Name → Bool

namespace Circle

open Board

variable {V : Vocabulary} [DecidableEq V.User] [DecidableEq V.Device] [DecidableEq V.Name]
  (c : Circle V)

/-- The events of the circle. -/
def concerns : Event V → Bool
  | .bind bindings => bindings.any fun binding => binding.1 = c.user
  | .command user _ | .poll user => user = c.user
  | .heartbeat device _ | .position device _ _ | .located device _ _ => device = c.device
  | .upload name _ | .download name => c.name name
  | .store files => files.any fun file => c.name file.1
  | .assist device _ _ _ => device = c.device
  | .other => false

/-- An event does not mix the circle with others. -/
def Respects : Event V → Prop
  | .bind bindings => ∀ binding ∈ bindings, binding.1 = c.user ↔ binding.2 = c.device
  | .assist device name _ _ => device = c.device ↔ c.name name
  | _ => True

instance : (e : Event V) → Decidable (c.Respects e)
  | .bind bindings => inferInstanceAs
      (Decidable (∀ binding ∈ bindings, binding.1 = c.user ↔ binding.2 = c.device))
  | .assist device name _ _ => inferInstanceAs (Decidable (device = c.device ↔ c.name name))
  | .command _ _ | .heartbeat _ _ | .poll _ | .position _ _ _ | .located _ _ _ | .upload _ _
  | .store _ | .download _ | .other => .isTrue trivial

/-- The user and the device of the circle are bound to each other, if at all. -/
structure Closed (b : Board V) : Prop where
  device : ∀ user device, b.device user = some device → (user = c.user ↔ device = c.device)
  owner : ∀ device user, b.owner device = some user → (device = c.device ↔ user = c.user)

/-- Two boards hold the same for the circle. -/
structure Agree (b b' : Board V) : Prop where
  device : b.device c.user = b'.device c.user
  owner : b.owner c.device = b'.owner c.device
  command : b.command c.device = b'.command c.device
  report : b.report c.user = b'.report c.user
  place : b.place c.device = b'.place c.device
  file : ∀ name, c.name name → b.file name = b'.file name

variable {c} {b b' b₂ : Board V} {e : Event V}

omit [DecidableEq V.User] [DecidableEq V.Device] [DecidableEq V.Name] in
theorem Agree.refl (b : Board V) : c.Agree b b :=
  ⟨rfl, rfl, rfl, rfl, rfl, fun _ _ => rfl⟩

omit [DecidableEq V.User] [DecidableEq V.Device] [DecidableEq V.Name] in
theorem Agree.trans {b'' : Board V} (h : c.Agree b b') (h' : c.Agree b' b'') : c.Agree b b'' where
  device := h.device.trans h'.device
  owner := h.owner.trans h'.owner
  command := h.command.trans h'.command
  report := h.report.trans h'.report
  place := h.place.trans h'.place
  file := fun name hname => (h.file name hname).trans (h'.file name hname)

/-! ## Bindings -/

omit [DecidableEq V.Name] in
theorem Closed.bindTo (h : c.Closed b) {binding : V.User × V.Device}
    (hbinding : binding.1 = c.user ↔ binding.2 = c.device) : c.Closed (b.bindTo binding) where
  device := by
    intro user device hdevice
    change Function.update b.device binding.1 (some binding.2) user = some device at hdevice
    by_cases hu : user = binding.1
    · rw [hu, Function.update_self] at hdevice
      rw [hu, ← Option.some.inj hdevice]
      exact hbinding
    · rw [Function.update_of_ne hu] at hdevice
      exact h.device user device hdevice
  owner := by
    intro device user howner
    change Function.update b.owner binding.2 (some binding.1) device = some user at howner
    by_cases hd : device = binding.2
    · rw [hd, Function.update_self] at howner
      rw [hd, ← Option.some.inj howner]
      exact hbinding.symm
    · rw [Function.update_of_ne hd] at howner
      exact h.owner device user howner

omit [DecidableEq V.Name] in
theorem Closed.bindAll {bindings : List (V.User × V.Device)} : ∀ {b : Board V}, c.Closed b →
    (∀ binding ∈ bindings, binding.1 = c.user ↔ binding.2 = c.device) →
      c.Closed (bindings.foldl Board.bindTo b) := by
  induction bindings with
  | nil => exact fun h _ => h
  | cons binding rest ih =>
      intro b h hrespects
      exact ih (h.bindTo (hrespects binding List.mem_cons_self)) fun binding' hmem =>
        hrespects binding' (List.mem_cons_of_mem _ hmem)

/-- Only bindings change who is bound. -/
theorem step_bound (h : b.step e = some b') (he : ∀ bindings, e ≠ .bind bindings) :
    b'.device = b.device ∧ b'.owner = b.owner := by
  cases e with
  | download name =>
      rw [eq_of_download h]
      exact ⟨rfl, rfl⟩
  | bind bindings => exact absurd rfl (he bindings)
  | command user cmd =>
      cases h
      dsimp only [Board.tell]
      cases b.device user with
      | none => exact ⟨rfl, rfl⟩
      | some device =>
          dsimp only
          cases b.asked device cmd with
          | none => exact ⟨rfl, rfl⟩
          | some r => exact ⟨rfl, rfl⟩
  | heartbeat device r =>
      cases h
      dsimp only [beat]
      cases b.owner device with
      | none => exact ⟨rfl, rfl⟩
      | some user => exact ⟨rfl, rfl⟩
  | position device p r | located device p r =>
      cases h
      dsimp only [locate]
      cases b.owner device with
      | none => exact ⟨rfl, rfl⟩
      | some user => exact ⟨rfl, rfl⟩
  | poll user => cases h; exact ⟨rfl, rfl⟩
  | upload name f => cases h; exact ⟨rfl, rfl⟩
  | store files =>
      cases h
      obtain ⟨hdevice, howner, -⟩ := saveAll_kept files b
      exact ⟨hdevice, howner⟩
  | assist device name change cmd => cases h; exact ⟨rfl, rfl⟩
  | other => cases h; exact ⟨rfl, rfl⟩

/-- Every event that does not mix keeps the circle closed. -/
theorem Closed.step (hclosed : c.Closed b) (hrespects : c.Respects e)
    (h : b.step e = some b') : c.Closed b' := by
  by_cases he : ∃ bindings, e = .bind bindings
  · obtain ⟨bindings, rfl⟩ := he
    cases h
    exact hclosed.bindAll hrespects
  · obtain ⟨hdevice, howner⟩ := step_bound h (not_exists.mp he)
    exact ⟨hdevice ▸ hclosed.device, howner ▸ hclosed.owner⟩

omit [DecidableEq V.User] [DecidableEq V.Device] [DecidableEq V.Name] in
/-- The device of another has another owner. -/
theorem Closed.user_ne (h : c.Closed b) {device : V.Device} {user : V.User}
    (hbound : b.owner device = some user) (hdevice : device ≠ c.device) : user ≠ c.user :=
  fun heq => hdevice ((h.owner device user hbound).mpr heq)

/-! ## The events of others -/

omit [DecidableEq V.Name] in
theorem agree_bindAll_other {bindings : List (V.User × V.Device)} : ∀ {b : Board V},
    (∀ binding ∈ bindings, binding.1 ≠ c.user ∧ binding.2 ≠ c.device) →
      c.Agree (bindings.foldl Board.bindTo b) b := by
  induction bindings with
  | nil => exact fun _ => .refl _
  | cons binding rest ih =>
      intro b hothers
      obtain ⟨huser, hdevice⟩ := hothers binding List.mem_cons_self
      have hrest := @ih (b.bindTo binding) fun binding' hmem =>
        hothers binding' (List.mem_cons_of_mem _ hmem)
      refine hrest.trans ⟨?_, ?_, rfl, rfl, rfl, fun _ _ => rfl⟩
      · exact Function.update_of_ne huser.symm _ _
      · exact Function.update_of_ne hdevice.symm _ _

omit [DecidableEq V.Device] [DecidableEq V.Name] in
theorem agree_post_other {user : V.User} (h : user ≠ c.user) (b : Board V) (r : V.Report) :
    c.Agree (b.post user r) b :=
  ⟨rfl, rfl, rfl, Function.update_of_ne h.symm _ _, rfl, fun _ _ => rfl⟩

omit [DecidableEq V.User] [DecidableEq V.Name] in
theorem agree_leave_other {device : V.Device} (h : device ≠ c.device) (b : Board V)
    (cmd : V.Command) : c.Agree (b.leave device cmd) b :=
  ⟨rfl, rfl, Function.update_of_ne h.symm _ _, rfl, rfl, fun _ _ => rfl⟩

omit [DecidableEq V.User] [DecidableEq V.Device] in
theorem agree_save_other {name : V.Name} (h : c.name name = false) (b : Board V) (f : V.File) :
    c.Agree (b.save name f) b :=
  ⟨rfl, rfl, rfl, rfl, rfl, fun name' hname' => by
    refine Function.update_of_ne ?_ _ _
    rintro rfl
    exact absurd (hname'.symm.trans h) (by decide)⟩

omit [DecidableEq V.User] [DecidableEq V.Device] in
theorem agree_saveAll_other {files : List (V.Name × V.File)} : ∀ {b : Board V},
    (∀ file ∈ files, c.name file.1 = false) →
      c.Agree (files.foldl (fun b file => b.save file.1 file.2) b) b := by
  induction files with
  | nil => exact fun _ => .refl _
  | cons file rest ih =>
      intro b hothers
      have hrest := @ih (b.save file.1 file.2) fun file' hmem =>
        hothers file' (List.mem_cons_of_mem _ hmem)
      exact hrest.trans (agree_save_other (hothers file List.mem_cons_self) b file.2)

/-- What others do is not seen in the circle. -/
theorem agree_of_not_concerns (hclosed : c.Closed b) (hrespects : c.Respects e)
    (he : c.concerns e = false) (h : b.step e = some b') : c.Agree b' b := by
  cases e with
  | download name =>
      rw [eq_of_download h]
      exact .refl _
  | bind bindings =>
      cases h
      refine agree_bindAll_other fun binding hmem => ?_
      -- Neither half of the binding is in the circle.
      have huser : binding.1 ≠ c.user := by
        have hall := List.any_eq_false.mp he binding hmem
        exact fun heq => hall (decide_eq_true heq)
      exact ⟨huser, fun hdevice => huser ((hrespects binding hmem).mpr hdevice)⟩
  | command user cmd =>
      cases h
      have huser : user ≠ c.user := of_decide_eq_false he
      dsimp only [Board.tell]
      cases hbound : b.device user with
      | none => exact .refl _
      | some device =>
          have hdevice : device ≠ c.device := fun heq =>
            huser ((hclosed.device user device hbound).mpr heq)
          dsimp only
          cases b.asked device cmd with
          | none => exact agree_leave_other hdevice b cmd
          | some r => exact (agree_leave_other hdevice _ cmd).trans (agree_post_other huser b r)
  | heartbeat device r =>
      cases h
      have hdevice : device ≠ c.device := of_decide_eq_false he
      dsimp only [beat]
      cases hbound : b.owner device with
      | none => exact .refl _
      | some user =>
          have huser : user ≠ c.user := hclosed.user_ne hbound hdevice
          exact ⟨rfl, rfl, Function.update_of_ne hdevice.symm _ _,
            Function.update_of_ne huser.symm _ _, rfl, fun _ _ => rfl⟩
  | position device p r | located device p r =>
      cases h
      have hdevice : device ≠ c.device := of_decide_eq_false he
      dsimp only [locate]
      cases hbound : b.owner device with
      | none => exact .refl _
      | some user =>
          have huser : user ≠ c.user := hclosed.user_ne hbound hdevice
          exact ⟨rfl, rfl, rfl, Function.update_of_ne huser.symm _ _,
            Function.update_of_ne hdevice.symm _ _, fun _ _ => rfl⟩
  | poll user => cases h; exact .refl _
  | upload name f =>
      cases h
      exact agree_save_other he b f
  | store files =>
      cases h
      exact agree_saveAll_other fun file hmem =>
        Bool.eq_false_iff.mpr (List.any_eq_false.mp he file hmem)
  | assist device name change cmd =>
      cases h
      have hdevice : device ≠ c.device := of_decide_eq_false he
      -- The file of another device is no file of the circle.
      have hname : c.name name = false := by
        cases hname : c.name name with
        | false => rfl
        | true => exact absurd (hrespects.mpr hname) hdevice
      exact (agree_leave_other hdevice _ cmd).trans (agree_save_other hname b _)
  | other => cases h; exact .refl _

/-! ## The events of the circle -/

theorem update_self_eq {κ ν : Type} [DecidableEq κ] (f g : κ → ν) (key : κ) (v : ν) :
    Function.update f key v key = Function.update g key v key := by
  rw [Function.update_self, Function.update_self]

/-- Functions that agree at a key still do when both are updated alike. -/
theorem update_congr_at {κ ν : Type} [DecidableEq κ] {f g : κ → ν} {k : κ} (h : f k = g k)
    (key : κ) (v : ν) : Function.update f key v k = Function.update g key v k := by
  by_cases hk : k = key
  · rw [hk, Function.update_self, Function.update_self]
  · rw [Function.update_of_ne hk, Function.update_of_ne hk, h]

omit [DecidableEq V.Name] in
theorem Agree.bindAll {bindings : List (V.User × V.Device)} : ∀ {b b₂ : Board V},
    c.Agree b b₂ → c.Agree (bindings.foldl Board.bindTo b) (bindings.foldl Board.bindTo b₂) := by
  induction bindings with
  | nil => exact fun h => h
  | cons binding rest ih =>
      intro b b₂ h
      exact ih ⟨update_congr_at h.device _ _, update_congr_at h.owner _ _, h.command, h.report,
        h.place, h.file⟩

omit [DecidableEq V.Device] [DecidableEq V.Name] in
theorem Agree.post (h : c.Agree b b₂) (r : V.Report) :
    c.Agree (b.post c.user r) (b₂.post c.user r) where
  __ := h
  report := update_self_eq _ _ _ _

omit [DecidableEq V.User] [DecidableEq V.Name] in
theorem Agree.leave (h : c.Agree b b₂) (cmd : V.Command) :
    c.Agree (b.leave c.device cmd) (b₂.leave c.device cmd) where
  __ := h
  command := update_self_eq _ _ _ _

omit [DecidableEq V.User] [DecidableEq V.Device] in
theorem Agree.save (h : c.Agree b b₂) (name : V.Name) (f : V.File) :
    c.Agree (b.save name f) (b₂.save name f) where
  __ := h
  file := fun name' hname' => update_congr_at (h.file name' hname') _ _

omit [DecidableEq V.User] [DecidableEq V.Device] in
theorem Agree.saveAll {files : List (V.Name × V.File)} : ∀ {b b₂ : Board V}, c.Agree b b₂ →
    c.Agree (files.foldl (fun b file => b.save file.1 file.2) b)
      (files.foldl (fun b file => b.save file.1 file.2) b₂) := by
  induction files with
  | nil => exact fun h => h
  | cons file rest ih => exact fun h => ih (h.save file.1 file.2)

/-- Boards that agree on a circle answer its events alike, and still agree. -/
theorem Agree.step (hagree : c.Agree b b₂) (hclosed : c.Closed b) (he : c.concerns e)
    (hrespects : c.Respects e) (h : b.step e = some b') :
    ∃ b₂', b₂.step e = some b₂' ∧ c.Agree b' b₂' ∧ b.answer e = b₂.answer e := by
  cases e with
  | download name =>
      have hfile := hagree.file name he
      refine ⟨b₂, ?_, ?_, ?_⟩
      · change (if _ then some b₂ else none) = some b₂
        rw [← hfile]
        change (if _ then some b else none) = some b' at h
        split at h
        · next hsend => rw [if_pos hsend]
        · cases h
      · rw [eq_of_download h]
        exact hagree
      · dsimp only [answer]
        rw [hfile]
  | bind bindings => cases h; exact ⟨_, rfl, hagree.bindAll, rfl⟩
  | command user cmd =>
      cases h
      obtain rfl : user = c.user := of_decide_eq_true he
      refine ⟨_, rfl, ?_, rfl⟩
      dsimp only [Board.tell]
      rw [← hagree.device]
      cases hbound : b.device c.user with
      | none => exact hagree
      | some device =>
          obtain rfl : device = c.device := (hclosed.device _ device hbound).mp rfl
          have hasked : b₂.asked c.device cmd = b.asked c.device cmd := by
            unfold asked
            rw [hagree.place]
          dsimp only
          rw [hasked]
          cases b.asked c.device cmd with
          | none => exact hagree.leave cmd
          | some r => exact (hagree.post r).leave cmd
  | heartbeat device r =>
      cases h
      obtain rfl : device = c.device := of_decide_eq_true he
      refine ⟨_, rfl, ?_, ?_⟩
      · dsimp only [beat]
        rw [← hagree.owner]
        cases hbound : b.owner c.device with
        | none => exact hagree
        | some user =>
            obtain rfl : user = c.user := (hclosed.owner _ user hbound).mp rfl
            exact { hagree.post r with
              command := update_self_eq _ _ _ _ }
      · dsimp only [answer]
        rw [hagree.owner, hagree.command]
  | position device p r | located device p r =>
      cases h
      obtain rfl : device = c.device := of_decide_eq_true he
      refine ⟨_, rfl, ?_, rfl⟩
      dsimp only [locate]
      rw [← hagree.owner]
      cases hbound : b.owner c.device with
      | none => exact hagree
      | some user =>
          obtain rfl : user = c.user := (hclosed.owner _ user hbound).mp rfl
          exact { hagree.post r with
            place := update_self_eq _ _ _ _ }
  | poll user =>
      cases h
      obtain rfl : user = c.user := of_decide_eq_true he
      exact ⟨_, rfl, hagree, congrArg Answer.report hagree.report⟩
  | upload name f => cases h; exact ⟨_, rfl, hagree.save name f, rfl⟩
  | store files => cases h; exact ⟨_, rfl, hagree.saveAll, rfl⟩
  | assist device name change cmd =>
      cases h
      obtain rfl : device = c.device := of_decide_eq_true he
      -- The file that is written over is one of the circle.
      have hfile := hagree.file name (hrespects.mp rfl)
      refine ⟨_, rfl, ?_, rfl⟩
      rw [← hfile]
      exact (hagree.save name _).leave cmd
  | other => cases he

/-- The answers to the events of the circle. -/
def answers (c : Circle V) (b : Board V) (e : Event V) : List (Answer V) :=
  if c.concerns e then [b.answer e] else []

/-- Without the events of the others, a run answers the circle alike. -/
theorem run_circle {events : List (Event V)} : ∀ {b b' b₂ : Board V}, c.Agree b b₂ →
    c.Closed b → (∀ e ∈ events, c.Respects e) → Machine.run Board.step b events = some b' →
      ∃ b₂', Machine.run Board.step b₂ (events.filter c.concerns) = some b₂' ∧ c.Agree b' b₂' ∧
        Machine.trace Board.step (fun b e => [b.answer e]) b₂ (events.filter c.concerns) =
          Machine.trace Board.step c.answers b events := by
  induction events with
  | nil =>
      intro b b' b₂ hagree _ _ hrun
      injection hrun with hrun
      subst hrun
      exact ⟨b₂, rfl, hagree, rfl⟩
  | cons e rest ih =>
      intro b b'' b₂ hagree hclosed hrespects hrun
      obtain ⟨b', hstep, hrest⟩ := Machine.run_cons_iff.mp hrun
      have hown : c.Respects e := hrespects e List.mem_cons_self
      have hothers : ∀ e' ∈ rest, c.Respects e' := fun e' hmem =>
        hrespects e' (List.mem_cons_of_mem _ hmem)
      have hclosed' : c.Closed b' := hclosed.step hown hstep
      cases he : c.concerns e with
      | false =>
          -- The event of another is left out.
          have hagree' := (agree_of_not_concerns hclosed hown he hstep).trans hagree
          obtain ⟨b₂'', hrun₂, hagree'', htrace⟩ := ih hagree' hclosed' hothers hrest
          have hskip : c.answers b e = [] := by rw [answers, he]; rfl
          rw [List.filter_cons_of_neg (by rw [he]; decide)]
          refine ⟨b₂'', hrun₂, hagree'', ?_⟩
          rw [Machine.trace_cons hstep, hskip, htrace]
          rfl
      | true =>
          obtain ⟨b₂', hstep₂, hagree', hanswer⟩ := hagree.step hclosed he hown hstep
          obtain ⟨b₂'', hrun₂, hagree'', htrace⟩ := ih hagree' hclosed' hothers hrest
          have hkeep : c.answers b e = [b.answer e] := by rw [answers, he]; rfl
          rw [List.filter_cons_of_pos he]
          refine ⟨b₂'', Machine.run_cons_iff.mpr ⟨b₂', hstep₂, hrun₂⟩, hagree'', ?_⟩
          rw [Machine.trace_cons hstep, Machine.trace_cons hstep₂, hkeep, htrace, hanswer]

end Circle

end Relay
