import RobotServer.Interaction.Interleaving
import RobotServer.Mailbox.Delivery
import RobotServer.Serving.Messages

/-!
# Races — handlers that share the mailbox of a device

Heartbeats, phone commands and AGPS downloads run concurrently, one redis operation at a time.
A heartbeat reads the key of its device and deletes it in two steps; a command stored in between
is deleted unread.  `command_kept_iff` proves that this is the only way to lose one: a run keeps
every command exactly when no handler deletes the key while its newest value is `Unread`.
-/

namespace RobotServer

open CText Memory Interaction

/-! ## Handlers -/

/-- The handlers and threads that use the key of a device. -/
inductive Handler where
  | heartbeat (packet : PacketBuffer) (length : Nat)
  | phoneCommand (packet : PacketBuffer) (length : Nat)
  | agpsDownload (locationInfo : LocationInfo)

namespace Handler

def program : Handler → Action Unit
  | heartbeat packet length => do
      let (result, setValueBuf) ← deviceHeartPacket packet length (Cells.fill 0)
      heartReply result setValueBuf
  | phoneCommand packet length => (phoneCommandPacket packet length).effects
  | agpsDownload locationInfo => ubloxDownloadApgs locationInfo

/-- A heartbeat of device `d`. -/
def IsHeartbeatOf (d : DeviceId) : Handler → Prop
  | heartbeat packet _ => deviceIdAt packet = d
  | _ => False

end Handler

/-- Only the heartbeats of a device read its key. -/
def ReadBy (handler : Handler) (o : Op) : Prop :=
  ∀ d, o = .redisGet (deviceKey d) → handler.IsHeartbeatOf d

theorem readBy_relation (handler : Handler) {key : Text} (h : IsRelation key) :
    ReadBy handler (.redisGet key) := by
  intro d hd
  injection hd with hkey
  exact absurd (hkey ▸ h) (deviceKey_not_relation d)

/-- A write reads no key. -/
theorem setKeyToredis_readBy (handler : Handler) (key value : Text) :
    (setKeyToredis key value).Performs (ReadBy handler) :=
  setKeyToredis_performs fun d hd => by cases hd

theorem takeDeviceCommand_performs (packet : PacketBuffer) (length : Nat) (info : HeartInfo) :
    (takeDeviceCommand (deviceIdText packet) info).Performs
      (ReadBy (.heartbeat packet length)) := by
  have hdel : (delRedisKey (deviceIdText packet)).Performs (ReadBy (.heartbeat packet length)) :=
    Program.performs_perform fun d hd => by cases hd
  unfold takeDeviceCommand
  refine (getValueFromredis_performs ?_).bind ?_
  · intro d hd
    injection hd with hkey
    rw [deviceIdText_eq] at hkey
    exact deviceId_text_injective hkey
  · intro value
    cases value with
    | none => trivial
    | some value =>
        dsimp only
        split
        · exact hdel.bind fun _ => trivial
        · exact (Program.performs_ofOption _).bind fun _ => hdel.bind fun _ => trivial

theorem heartbeat_performs (packet : PacketBuffer) (length : Nat) :
    (Handler.heartbeat packet length).program.Performs (ReadBy (.heartbeat packet length)) := by
  -- No reply reads a mailbox.
  have hreply : ∀ result info, (heartReply result info).Performs
      (ReadBy (.heartbeat packet length)) := by
    intro result info
    have hsend : ∀ buffer, (apolloReturnPacket buffer).Performs
        (ReadBy (.heartbeat packet length)) := fun buffer =>
      apolloReturnPacket_performs (fun d hd => by cases hd) fun d hd => by cases hd
    unfold heartReply
    split
    · split
      · exact hsend _
      · exact hsend _
    · split
      · exact ⟨(fun d hd => by cases hd), fun _ => hsend _⟩
      · trivial
  unfold Handler.program deviceHeartPacket
  refine Program.Performs.bind ?_ fun r => hreply r.1 r.2
  split
  · trivial
  · refine (getValueFromredis_performs (readBy_relation _ (isRelation_device _))).bind ?_
    intro user
    cases user with
    | none => trivial
    | some user =>
        dsimp only
        refine (Program.performs_onlyIf (Program.performs_perform fun d hd => by cases hd)).bind ?_
        intro _
        refine (setKeyToredis_readBy _ _ _).bind ?_
        intro result
        split
        · trivial
        · exact takeDeviceCommand_performs packet length _

theorem phoneCommand_performs (packet : PacketBuffer) (length : Nat) :
    (Handler.phoneCommand packet length).program.Performs
      (ReadBy (.phoneCommand packet length)) := by
  have hlocation : ∀ u8DeviceId userId, (selectLocationNewItem u8DeviceId userId).Performs
      (ReadBy (.phoneCommand packet length)) := by
    intro u8DeviceId userId
    rw [selectLocationNewItem, perform_bind]
    refine ⟨(fun d hd => by cases hd), ?_⟩
    intro result
    dsimp only
    split
    · trivial
    · exact (setKeyToredis_readBy _ _ _).bind fun _ => trivial
    · trivial
  unfold Handler.program phoneCommandPacket
  refine Program.Performs.bind ?_ fun _ => trivial
  split
  · trivial
  · refine (getValueFromredis_performs (readBy_relation _ (isRelation_phone _))).bind ?_
    intro u8DeviceId
    cases u8DeviceId with
    | none => trivial
    | some u8DeviceId =>
        dsimp only
        split
        · exact (setKeyToredis_readBy _ _ _).bind fun _ => trivial
        · split
          · trivial
          · split
            · trivial
            · split
              · refine (Program.performs_onlyIf (hlocation _ _)).bind ?_
                intro _
                exact (setKeyToredis_readBy _ _ _).bind fun _ => trivial
              · trivial

theorem agpsDownload_performs (locationInfo : LocationInfo) :
    (Handler.agpsDownload locationInfo).program.Performs (ReadBy (.agpsDownload locationInfo)) := by
  have hafter : (do
      perform (.system (ascii "chmod 777 " ++ genAgpsFilePathName locationInfo.u8DeviceId))
      let result ← setKeyToredis locationInfo.u8DeviceId
        (natText cmdPhoneDeviceAgpsDownload.toNat)
      if result = -1 then pure ()
      else startApolloSynerAction ⟨locationInfo.u8DeviceId, multicastTypeAgps⟩ :
        Action Unit).Performs (ReadBy (.agpsDownload locationInfo)) := by
    refine ⟨(fun d hd => by cases hd), fun _ => ?_⟩
    refine (setKeyToredis_readBy _ _ _).bind ?_
    intro result
    split
    · trivial
    · exact Program.performs_perform fun d hd => by cases hd
  unfold Handler.program ubloxDownloadApgs
  refine ⟨(fun d hd => by cases hd), ?_⟩
  intro opened
  cases (opened : Bool) with
  | false => trivial
  | true =>
      refine ⟨(fun d hd => by cases hd), ?_⟩
      intro downloaded
      cases (downloaded : Option (List Byte)) with
      | none => exact hafter
      | some payload =>
          refine ⟨(fun d hd => by cases hd), fun _ => ?_⟩
          exact ⟨(fun d hd => by cases hd), fun _ => hafter⟩

theorem Handler.performs (handler : Handler) : handler.program.Performs (ReadBy handler) := by
  cases handler with
  | heartbeat packet length => exact heartbeat_performs packet length
  | phoneCommand packet length => exact phoneCommand_performs packet length
  | agpsDownload locationInfo => exact agpsDownload_performs locationInfo

/-! ## Commands in a history -/

section History

variable {ι : Type}

/-- What became of every command that was stored under `key`: it is still there, or another one
took its place, or a handler of `readers` read it. -/
def Kept (readers : ι → Prop) (key : Text) (value : Option Text)
    (history : List (Event ι serverInterface)) : Prop :=
  ∀ before e after command, history = before ++ e :: after → e.op = .redisSet key command →
    value = some command ∨ (∃ e' ∈ after, ∃ command', e'.op = .redisSet key command') ∨
      ∃ i, readers i ∧ ⟨i, .redisGet key, (some command : Option Text)⟩ ∈ after

/-- The newest command stored under `key` was not read. -/
def Unread (key : Text) (history : List (Event ι serverInterface)) : Prop :=
  ∃ before e after command, history = before ++ e :: after ∧ e.op = .redisSet key command ∧
    ∀ e' ∈ after, e'.op ≠ .redisGet key ∧ ∀ command', e'.op ≠ .redisSet key command'

/-- The invariant of a run that keeps its commands: one that was not read is still there. -/
def Tracked (key : Text) (value : Option Text) (history : List (Event ι serverInterface)) :
    Prop :=
  ∀ before e after command, history = before ++ e :: after → e.op = .redisSet key command →
    (∃ e' ∈ after, ∃ command', e'.op = .redisSet key command') ∨
      (∃ i, ⟨i, .redisGet key, (some command : Option Text)⟩ ∈ after) ∨
        value = some command ∧ ∀ e' ∈ after, e'.op ≠ .redisGet key

variable {key : Text} {value value' : Option Text} {history : List (Event ι serverInterface)}

/-- One more event keeps the invariant, unless it deletes a command that was not read. -/
theorem Tracked.append (h : Tracked key value history) {last : Event ι serverInterface}
    (hset : ∀ command, last.op = .redisSet key command → value' = some command)
    (hget : last.op = .redisGet key → ∃ i, last = ⟨i, .redisGet key, value⟩)
    (hdel : last.op = .redisDel key → ¬ Unread key history)
    (hother : last.op ≠ .redisDel key → (∀ command, last.op ≠ .redisSet key command) →
      value' = value) :
    Tracked key value' (history ++ [last]) := by
  intro before e after command hsplit hop
  -- The command is the last event, or it was tracked before it.
  rcases append_singleton_cases hsplit with ⟨rfl, rfl⟩ | ⟨after', rfl, hhistory⟩
  · exact .inr (.inr ⟨hset command hop, by simp⟩)
  · by_cases hnew : ∃ e' ∈ after' ++ [last], ∃ command', e'.op = .redisSet key command'
    · exact .inl hnew
    · right
      have hkeep : ∀ e' ∈ after', ∀ command', e'.op ≠ .redisSet key command' :=
        fun e' he' command' hc =>
          hnew ⟨e', List.mem_append_left _ he', command', hc⟩
      have hlast : ∀ command', last.op ≠ .redisSet key command' := fun command' hc =>
        hnew ⟨last, by simp, command', hc⟩
      rcases h before e after' command hhistory hop with
        ⟨e', he', command', hc⟩ | ⟨i, hread⟩ | ⟨hvalue, hunread⟩
      · exact absurd hc (hkeep e' he' command')
      · exact .inl ⟨i, List.mem_append_left _ hread⟩
      -- A deletion would take a command that nobody has read.
      · have hnotdel : last.op ≠ .redisDel key := fun hd =>
          hdel hd ⟨before, e, after', command, hhistory, hop, fun e' he' =>
            ⟨hunread e' he', hkeep e' he'⟩⟩
        by_cases hreads : last.op = .redisGet key
        · rcases hget hreads with ⟨i, rfl⟩
          exact .inl ⟨i, by simp [hvalue]⟩
        · refine .inr ⟨(hother hnotdel hlast).trans hvalue, ?_⟩
          intro e' he'
          rcases List.mem_append.mp he' with hold | hnew'
          · exact hunread e' hold
          · rw [List.mem_singleton.mp hnew']
            exact hreads

/-- A deleted command that was not read is lost. -/
theorem Unread.not_kept (h : Unread key history) (readers : ι → Prop)
    (last : Event ι serverInterface) (hlast : last.op = .redisDel key) :
    ¬ Kept readers key none (history ++ [last]) := by
  intro hkept
  rcases h with ⟨before, e, after, command, hhistory, hop, hafter⟩
  have hsplit : history ++ [last] = before ++ e :: (after ++ [last]) := by
    rw [hhistory, List.append_assoc]
    rfl
  have hbehind : ∀ e' ∈ after ++ [last], e'.op ≠ .redisGet key ∧
      ∀ command', e'.op ≠ .redisSet key command' := by
    intro e' he'
    rcases List.mem_append.mp he' with hold | hnew
    · exact hafter e' hold
    · rw [List.mem_singleton.mp hnew, hlast]
      exact ⟨nofun, nofun⟩
  rcases hkept before e _ command hsplit hop with hvalue | ⟨e', he', command', hc⟩ | ⟨i, -, hread⟩
  · cases hvalue
  · exact (hbehind e' he').2 command' hc
  · exact (hbehind _ hread).1 rfl

/-- Behind a read of the key nothing that was stored under it is unread. -/
theorem not_unread_append_get {last : Event ι serverInterface} (hlast : last.op = .redisGet key) :
    ¬ Unread key (history ++ [last]) := by
  rintro ⟨before, e, after, command, hsplit, hop, hafter⟩
  rcases append_singleton_cases hsplit with ⟨rfl, rfl⟩ | ⟨after', rfl, -⟩
  · rw [hlast] at hop
    cases hop
  · exact (hafter last (by simp)).1 hlast

end History

/-! ## Interleavings -/

section Interleavings

variable {σ ι : Type} [DecidableEq ι] {E : Environment serverInterface σ}
  {store : σ → Text → Option Text}

/-- An operation that neither sets nor deletes a key leaves its value alone. -/
theorem LawfulRedis.store_key (hredis : LawfulRedis E store) {o : Op} {key : Text}
    (hdel : o ≠ .redisDel key) (hset : ∀ command, o ≠ .redisSet key command) (s : σ) :
    store (E.answer o s).2 key = store s key := by
  cases o with
  | redisSet key' command =>
      have hne : key ≠ key' := fun h => hset command (by rw [h])
      rw [hredis.store_set, Function.update_of_ne hne]
  | redisDel key' =>
      have hne : key ≠ key' := fun h => hdel (by rw [h])
      rw [hredis.store_del, Function.update_of_ne hne]
  | _ => rw [hredis.store_other s _ rfl]

/-- No step deletes a command that was not read. -/
def DeletesRead (E : Environment serverInterface σ) (key : Text)
    (start : Config ι serverInterface σ) (schedule : List ι) : Prop :=
  ∀ (n : Nat) i, schedule[n]? = some i →
    (start.run E (schedule.take n)).next i = some (.redisDel key) →
      ¬ Unread key (start.run E (schedule.take n)).history

theorem DeletesRead.take {key : Text} {start : Config ι serverInterface σ} {schedule : List ι}
    (h : DeletesRead E key start schedule) (m : Nat) :
    DeletesRead E key start (schedule.take m) := by
  intro n i hi
  have hlt : n < m := by
    have hbound := (List.getElem?_eq_some_iff.mp hi).1
    rw [List.length_take] at hbound
    omega
  rw [List.getElem?_take_of_lt hlt] at hi
  rw [List.take_take, Nat.min_eq_left hlt.le]
  exact h n i hi

/-- A run that deletes only what was read tracks its commands. -/
theorem run_tracked (hredis : LawfulRedis E store) (key : Text) (pool : ι → Action Unit) (s : σ)
    (schedule : List ι) : DeletesRead E key (.start pool s) schedule →
      Tracked key (store ((Config.start pool s).run E schedule).state key)
        ((Config.start pool s).run E schedule).history := by
  induction schedule using List.reverseRecOn with
  | nil =>
      intro _ before e after command hsplit _
      cases before <;> cases hsplit
  | append_singleton schedule i ih =>
      intro hdel
      -- The promise about the deletions holds of the schedule without its last step.
      have hprevious : DeletesRead E key (.start pool s) schedule := by
        have htake := hdel.take schedule.length
        rwa [List.take_left] at htake
      have htracked := ih hprevious
      rw [Config.run_concat]
      rcases Config.step_cases (E := E) ((Config.start pool s).run E schedule) i with
        hsame | ⟨o, hnext⟩
      · rw [hsame]
        exact htracked
      · rcases Config.step_of_next (E := E) hnext with ⟨hstate, hhistory⟩
        rw [hstate, hhistory]
        refine htracked.append ?_ ?_ ?_ ?_
        · intro command hop
          dsimp only at hop
          rw [hop, hredis.store_set, Function.update_self]
        · intro hop
          dsimp only at hop
          subst hop
          -- A read sees what the store holds at that moment.
          exact ⟨i, by rw [hredis.get]⟩
        · intro hop
          dsimp only at hop
          subst hop
          have hlast := hdel schedule.length i (by simp)
          rw [List.take_left] at hlast
          exact hlast hnext
        · intro hnotdel hnotset
          exact hredis.store_key hnotdel hnotset _

/-- **When no command is lost**: a run of concurrent handlers keeps every command that was stored
for a device, at every point, exactly when no handler deletes the key of the device while the
newest command stored there was not read. -/
theorem command_kept_iff (hredis : LawfulRedis E store) (handlers : ι → Handler) (d : DeviceId)
    (s : σ) (schedule : List ι) :
    (∀ n : Nat, Kept (fun i => (handlers i).IsHeartbeatOf d) (deviceKey d)
        (store ((Config.start (fun i => (handlers i).program) s).run E
          (schedule.take n)).state (deviceKey d))
        ((Config.start (fun i => (handlers i).program) s).run E (schedule.take n)).history) ↔
      DeletesRead E (deviceKey d) (.start (fun i => (handlers i).program) s) schedule := by
  constructor
  · intro hkept n i hi hnext hunread
    have hstep : schedule.take (n + 1) = schedule.take n ++ [i] := by
      rw [List.take_add_one, hi]
      rfl
    have hlost := hkept (n + 1)
    rcases Config.step_of_next (E := E) hnext with ⟨hstate, hhistory⟩
    rw [hstep, Config.run_concat, hstate, hhistory, hredis.store_del, Function.update_self] at hlost
    exact hunread.not_kept _ _ rfl hlost
  · intro hdel n before e after command hsplit hop
    have htracked := run_tracked hredis (deviceKey d) _ s _ (hdel.take n)
    rcases htracked before e after command hsplit hop with hset | ⟨i, hread⟩ | ⟨hvalue, -⟩
    · exact .inr (.inl hset)
    · have hmem := List.mem_append_right before (List.mem_cons_of_mem e hread)
      rw [← hsplit] at hmem
      have hperforms := (Config.run_performs (E := E) (P := fun i => ReadBy (handlers i))
        (fun i => (handlers i).performs) s (schedule.take n)).2 _ hmem
      exact .inr (.inr ⟨i, hperforms d rfl, hread⟩)
    · exact .inl hvalue

/-- A phone leaves a command, and the heartbeat behind it reads and deletes it. -/
theorem command_kept_iff_handover :
    let d : DeviceId := Vector.replicate 8 0
    let handlers : Bool → Handler := fun i =>
      if i then .phoneCommand ((Cells.fill 0).place 5 [0x08]) 16 else .heartbeat (Cells.fill 0) 32
    let w := (World.empty.setRedis (ascii "RP_0") (some (deviceKey d))).setRedis
      (ascii "R_0000000000000000") (some (ascii "0"))
    let start : Config Bool serverInterface World := .start (fun i => (handlers i).program) w
    let schedule := [true, true, false, false, false, false]
    (start.run world schedule).state.redis (deviceKey d) = none ∧
      ∀ n : Nat, Kept (fun i => (handlers i).IsHeartbeatOf d) (deviceKey d)
        ((start.run world (schedule.take n)).state.redis (deviceKey d))
        (start.run world (schedule.take n)).history := by
  intro d handlers w start schedule
  refine ⟨by decide, (command_kept_iff world_lawfulRedis handlers d w schedule).mpr ?_⟩
  intro n i hi hnext
  have hlt : n < 6 := (List.getElem?_eq_some_iff.mp hi).1
  have hbefore : ∀ n < 5, ∀ i, schedule[n]? = some i →
      (start.run world (schedule.take n)).next i ≠ some (.redisDel (deviceKey d)) := by decide
  by_cases hn : n < 5
  · exact absurd hnext (hbefore n hn i hi)
  · -- The only DEL is the last step, right behind the GET.
    obtain rfl : n = 5 := by omega
    have hget : (start.run world (schedule.take 4)).next false =
        some (.redisGet (deviceKey d)) := by decide
    have hread := (Config.step_of_next (E := world) hget).2
    have hhistory : (start.run world (schedule.take 5)).history = _ := hread
    rw [hhistory]
    exact not_unread_append_get rfl

/-- A heartbeat reads command 9; before it deletes the key, a phone stores command 8, which is
deleted unread. -/
theorem command_lost :
    let d : DeviceId := Vector.replicate 8 0
    let handlers : Bool → Handler := fun i =>
      if i then .phoneCommand ((Cells.fill 0).place 5 [0x08]) 16 else .heartbeat (Cells.fill 0) 32
    let w := ((World.empty.setRedis (ascii "RP_0") (some (deviceKey d))).setRedis
      (ascii "R_0000000000000000") (some (ascii "0"))).setRedis (deviceKey d) (some (ascii "9"))
    let start : Config Bool serverInterface World := .start (fun i => (handlers i).program) w
    let config := start.run world [false, false, false, true, true, false]
    config.state.redis (deviceKey d) = none ∧
      ¬ Kept (fun i => (handlers i).IsHeartbeatOf d) (deviceKey d)
        (config.state.redis (deviceKey d)) config.history := by
  intro d handlers w start config
  have hset : (start.run world [false, false, false, true]).next true =
      some (.redisSet (deviceKey d) (ascii "8")) := by decide
  have hdel : (start.run world [false, false, false, true, true]).next false =
      some (.redisDel (deviceKey d)) := by decide
  have hnone : config.state.redis (deviceKey d) = none := by decide
  have hstored := (Config.step_of_next (E := world) hset).2
  have hdeleted := (Config.step_of_next (E := world) hdel).2
  have hunread : Unread (deviceKey d)
      (start.run world [false, false, false, true, true]).history :=
    ⟨_, _, [], ascii "8", hstored, rfl, fun e' he' => by cases he'⟩
  refine ⟨hnone, ?_⟩
  rw [hnone]
  have hhistory : config.history = _ := hdeleted
  rw [hhistory]
  exact hunread.not_kept _ _ rfl

end Interleavings

end RobotServer
