import RobotServer.Maps.TwoWay
import RobotServer.Sync.Bindings

/-!
# Inverse — the two binding maps over a run of jobs and loads

`RP_<user>` holds the device of a user and `R_<device>` the user of a device.  A binding writes both
keys one after the other and removes no old pair, so a binding keeps the two maps inverse exactly
when `Keeps` holds of it: its writes both fail, or both succeed on sides that are free, or the
second one fails where the first one changed nothing.  A run is the list of its `Step`s, one for
each job and one for each row of a load.
-/

namespace RobotServer

namespace SyncData

open CText Memory Interaction TwoWay

/-! ## The two maps -/

def userMap (store : Text → Option Text) (userId : Nat) : Option Text :=
  store (ascii "RP_" ++ natText userId)

def deviceMap (store : Text → Option Text) (deviceId : DeviceId) : Option Text :=
  store (ascii "R_" ++ deviceId.text)

/-- A device has a user exactly when the user has the device. -/
def Inverse (store : Text → Option Text) : Prop :=
  Paired natText DeviceId.text (deviceMap store) (userMap store)

theorem natText_injective : Function.Injective natText :=
  fun _ _ h => natText_inj h

theorem userKey_ne_deviceKey (userId : Nat) (deviceId : DeviceId) :
    ascii "RP_" ++ natText userId ≠ ascii "R_" ++ deviceId.text := by
  intro h
  have hsecond := congrArg (fun t : Text => t.getD 1 0) h
  exact absurd hsecond (by change ((0x50 : Byte) ≠ 0x5F); decide)

section Maps

variable (store : Text → Option Text) (b : Binding) (value : Text)

theorem userMap_update_userKey :
    userMap (Function.update store b.userKey (some value)) =
      Function.update (userMap store) b.userId (some value) := by
  funext u
  by_cases hu : u = b.userId
  · subst hu
    rw [Function.update_self]
    exact Function.update_self _ _ _
  · rw [Function.update_of_ne hu]
    exact Function.update_of_ne (fun h => hu (natText_inj (List.append_cancel_left h))) _ _

theorem deviceMap_update_userKey :
    deviceMap (Function.update store b.userKey (some value)) = deviceMap store :=
  funext fun d => Function.update_of_ne (userKey_ne_deviceKey b.userId d).symm _ _

theorem userMap_update_deviceKey :
    userMap (Function.update store b.deviceKey (some value)) = userMap store :=
  funext fun u => Function.update_of_ne (userKey_ne_deviceKey u b.deviceId) _ _

theorem deviceMap_update_deviceKey :
    deviceMap (Function.update store b.deviceKey (some value)) =
      Function.update (deviceMap store) b.deviceId (some value) := by
  funext d
  by_cases hd : d = b.deviceId
  · subst hd
    rw [Function.update_self]
    exact Function.update_self _ _ _
  · rw [Function.update_of_ne hd]
    exact Function.update_of_ne
      (fun h => hd (DeviceId.text_injective (List.append_cancel_left h))) _ _

end Maps

/-! ## One binding -/

section OneBinding

variable {formatCommand : Text → Option (List Text)} {σ : Type}

/-- The state a program leaves behind when it returns. -/
def reached {α : Type} (out : Outcome syncInterface σ α) : Option σ :=
  out.result.map fun _ => out.final

variable (E : Environment syncInterface σ) (store : σ → Text → Option Text)

/-- The reply to the first write of a binding. -/
def userWrite (b : Binding) (s : σ) : Bool × σ :=
  E.answer (.redisCommand [ascii "set", b.userKey, b.deviceId.text]) s

/-- The reply to the second write. -/
def deviceWrite (b : Binding) (s : σ) : Bool × σ :=
  E.answer (.redisCommand [ascii "set", b.deviceKey, natText b.userId]) (userWrite E b s).2

/-- What keeps the maps inverse over a binding: its id fits, and the first write fails, or both
succeed and neither side is bound to another one, or only the second fails and the user had the
device already. -/
def Keeps (b : Binding) (s : σ) : Prop :=
  b.Fits ∧
    ((userWrite E b s).1 = false ∨
      ((deviceWrite E b s).1 = true ∧
        Free natText DeviceId.text (deviceMap (store s)) (userMap (store s)) b.userId b.deviceId) ∨
      ((deviceWrite E b s).1 = false ∧ userMap (store s) b.userId = some b.deviceId.text))

variable {E} {store}

/-- A binding stops at a first write that fails, and returns in any case. -/
theorem reached_bind (hformat : HiredisFormats formatCommand) {b : Binding} (hfits : b.Fits)
    (s : σ) :
    reached ((b.bind formatCommand).run E s) =
      some (if (userWrite E b s).1 then (deviceWrite E b s).2 else (userWrite E b s).2) := by
  rw [Binding.bind_of_fits hformat hfits]
  cases huser : (userWrite E b s).1 with
  | false =>
      unfold userWrite at huser ⊢
      simp only [reached, Program.run_call, huser, Bool.false_eq_true, if_false, Program.run_ret,
        Option.map_some]
  | true =>
      cases hdevice : (deviceWrite E b s).1 with
      | false =>
          unfold deviceWrite userWrite at *
          simp only [reached, Program.run_call, huser, hdevice, Bool.false_eq_true, if_true,
            if_false, Program.run_ret, Option.map_some]
      | true =>
          unfold deviceWrite userWrite at *
          simp only [reached, Program.run_call, huser, hdevice, if_true, Program.run_ret,
            Option.map_some]

/-- A binding keeps inverse maps inverse exactly when `Keeps` holds. -/
theorem bind_inverse_iff (hformat : HiredisFormats formatCommand) (hredis : RedisServer E store)
    (b : Binding) {s : σ} (hs : Inverse (store s)) :
    (∃ s', reached ((b.bind formatCommand).run E s) = some s' ∧ Inverse (store s')) ↔
      Keeps E store b s := by
  by_cases hfits : b.Fits
  · rw [reached_bind hformat hfits, Keeps, and_iff_right hfits]
    have hsome : ∀ s₀ : σ, (∃ s', some s₀ = some s' ∧ Inverse (store s')) ↔ Inverse (store s₀) := by
      intro s₀
      refine ⟨?_, fun h => ⟨s₀, rfl, h⟩⟩
      rintro ⟨s', heq, hs'⟩
      injection heq with heq
      exact heq ▸ hs'
    rw [hsome]
    rcases hredis.set s b.userKey b.deviceId.text with ⟨huser, hstore⟩ | ⟨huser, hstore⟩
    · change (userWrite E b s).1 = true at huser
      change store (userWrite E b s).2 = _ at hstore
      rw [huser, if_pos rfl]
      rcases hredis.set (userWrite E b s).2 b.deviceKey (natText b.userId) with
        ⟨hdevice, hstore'⟩ | ⟨hdevice, hstore'⟩
      · -- Both keys are written.
        change (deviceWrite E b s).1 = true at hdevice
        change store (deviceWrite E b s).2 = _ at hstore'
        rw [hdevice, Inverse, hstore', hstore, deviceMap_update_deviceKey,
          deviceMap_update_userKey, userMap_update_deviceKey, userMap_update_userKey,
          paired_update_iff natText_injective DeviceId.text_injective hs]
        simp
      · -- Only the key of the user is written.
        change (deviceWrite E b s).1 = false at hdevice
        change store (deviceWrite E b s).2 = _ at hstore'
        rw [hdevice, Inverse, hstore', hstore, deviceMap_update_userKey, userMap_update_userKey,
          paired_update_right_iff hs]
        simp
    · -- Nothing is written.
      change (userWrite E b s).1 = false at huser
      change store (userWrite E b s).2 = _ at hstore
      rw [huser, if_neg (by decide), hstore]
      exact iff_of_true hs (.inl rfl)
  · rw [Binding.bind_of_not_fits hfits]
    refine iff_of_false ?_ fun h => hfits h.1
    rintro ⟨s', hreached, -⟩
    cases hreached

end OneBinding

/-! ## Runs -/

/-- What the server does for the bindings: a job, or the load at its start. -/
inductive Task where
  | job (b : Binding)
  | load

/-- One binding of a run: the state before it, and the state after it when it completes. -/
structure Step (σ : Type) where
  before : σ
  binding : Binding
  after : Option σ

section Runs

variable (formatCommand : Text → Option (List Text)) (json : JsonC) {σ : Type}
  (E : Environment syncInterface σ) (table : σ → List Binding)

def Task.program : Task → Job Unit
  | .job b => (syncUserAndDeviceRelationShip formatCommand json b.workload).effects
  | .load => initUserAndDeviceRelationshipList formatCommand

/-- The rows of a load up to the first one whose write fails. -/
def rowSteps : List Binding → σ → List (Step σ)
  | [], _ => []
  | b :: rows, s =>
      let out := (b.bind formatCommand).run E s
      ⟨s, b, reached out⟩ :: match out.result with
        | some result => if result = -1 then [] else rowSteps rows out.final
        | none => []

def Task.steps : Task → σ → List (Step σ)
  | .job b, s => [⟨s, b, reached (((Task.job b).program formatCommand json).run E s)⟩]
  | .load, s =>
      rowSteps formatCommand E (table s) (E.answer (.executeQuery .selectRelationshipList) s).2

/-- The steps of the tasks one after the other, as long as they complete. -/
def runSteps : List Task → σ → List (Step σ)
  | [], _ => []
  | task :: tasks, s =>
      task.steps formatCommand json E table s ++
        match reached ((task.program formatCommand json).run E s) with
        | some s' => runSteps tasks s'
        | none => []

variable {formatCommand} {json} {E} {table} {store : σ → Text → Option Text}

theorem runSteps_cons_of_reached {task : Task} (tasks : List Task) {s s' : σ}
    (h : reached ((task.program formatCommand json).run E s) = some s') :
    runSteps formatCommand json E table (task :: tasks) s =
      task.steps formatCommand json E table s ++
        runSteps formatCommand json E table tasks s' := by
  rw [runSteps, h]

theorem reached_bind_ret {α β : Type} (p : Job α) (f : α → β) (s : σ) :
    reached ((p >>= fun a => .ret (f a)).run E s) = reached (p.run E s) := by
  unfold reached
  rw [Program.run_bind]
  cases (p.run E s).result with
  | none => rfl
  | some a => rfl

/-- A job reaches what its binding reaches. -/
theorem reached_job {b : Binding} (h : json.ReadsBinding b) (s : σ) :
    reached (((Task.job b).program formatCommand json).run E s) =
      reached ((b.bind formatCommand).run E s) := by
  rw [Task.program, syncUserAndDeviceRelationShip_workload formatCommand h, Program.effects,
    reached_bind_ret, reached_bind_ret]

/-- A load ends where its last row ended. -/
theorem reached_relationshipRows (rows : List Binding) (s : σ) :
    reached ((relationshipRows formatCommand (rows.map Binding.row)).run E s) =
      ((rowSteps formatCommand E rows s).map Step.after).getLastD (some s) := by
  induction rows generalizing s with
  | nil => rfl
  | cons b rows ih =>
      have hloop : relationshipRows formatCommand ((b :: rows).map Binding.row) =
          b.bind formatCommand >>= fun result => if result = -1 then .ret ()
            else relationshipRows formatCommand (rows.map Binding.row) := rfl
      rw [hloop, rowSteps, List.map_cons, List.getLastD_cons]
      cases hresult : ((b.bind formatCommand).run E s).result with
      | none =>
          rw [reached, Program.run_bind, hresult, reached, hresult]
          rfl
      | some result =>
          have hafter : reached ((b.bind formatCommand).run E s) =
              some ((b.bind formatCommand).run E s).final := by
            rw [reached, hresult]
            rfl
          rw [reached, Program.run_bind_of_result E hresult, hafter]
          by_cases hfailed : result = -1
          · simp only [if_pos hfailed]
            rfl
          · simp only [if_neg hfailed]
            exact ih ((b.bind formatCommand).run E s).final

/-- The property of a step: it completes with inverse maps. -/
def Step.LeavesInverse (store : σ → Text → Option Text) (step : Step σ) : Prop :=
  ∃ s', step.after = some s' ∧ Inverse (store s')

/-- `Keeps`, where the step begins. -/
def Step.Keeps (E : Environment syncInterface σ) (store : σ → Text → Option Text)
    (step : Step σ) : Prop :=
  SyncData.Keeps E store step.binding step.before

theorem rowSteps_inverse_iff (hformat : HiredisFormats formatCommand)
    (hredis : RedisServer E store) (rows : List Binding) {s : σ} (hs : Inverse (store s)) :
    (∀ step ∈ rowSteps formatCommand E rows s, step.LeavesInverse store) ↔
      ∀ step ∈ rowSteps formatCommand E rows s, step.Keeps E store := by
  induction rows generalizing s with
  | nil => exact iff_of_true (List.forall_mem_nil _) (List.forall_mem_nil _)
  | cons b rows ih =>
      rw [rowSteps, List.forall_mem_cons, List.forall_mem_cons]
      refine (and_congr_right ?_).trans (and_congr_left' (bind_inverse_iff hformat hredis b hs))
      rintro ⟨s', hreached, hs'⟩
      -- The next row starts in the state that was reached.
      rcases Option.map_eq_some_iff.mp hreached with ⟨result, hresult, rfl⟩
      simp only [hresult]
      by_cases hfailed : result = -1
      · rw [if_pos hfailed]
        exact iff_of_true (List.forall_mem_nil _) (List.forall_mem_nil _)
      · rw [if_neg hfailed]
        exact ih hs'

theorem Task.steps_inverse_iff (hformat : HiredisFormats formatCommand)
    (hredis : RedisServer E store) {task : Task} (hjson : ∀ b, task = .job b → json.ReadsBinding b)
    {s : σ} (hs : Inverse (store s)) :
    (∀ step ∈ task.steps formatCommand json E table s, step.LeavesInverse store) ↔
      ∀ step ∈ task.steps formatCommand json E table s, step.Keeps E store := by
  cases task with
  | job b =>
      rw [Task.steps, List.forall_mem_singleton, List.forall_mem_singleton,
        reached_job (hjson b rfl)]
      exact bind_inverse_iff hformat hredis b hs
  | load =>
      refine rowSteps_inverse_iff hformat hredis _ ?_
      rw [hredis.query]
      exact hs

/-- The state behind a task, when its steps leave inverse maps. -/
theorem Task.reached_inverse (hredis : RedisServer E store)
    (htable : ∀ s, (E.answer (.executeQuery .selectRelationshipList) s).1 =
      (table s).map Binding.row)
    {task : Task} {s : σ} (hs : Inverse (store s))
    (hsteps : ∀ step ∈ task.steps formatCommand json E table s, step.LeavesInverse store) :
    ∃ s', reached ((task.program formatCommand json).run E s) = some s' ∧ Inverse (store s') := by
  cases task with
  | job b => exact hsteps _ List.mem_cons_self
  | load =>
      have hload : reached ((Task.load.program formatCommand json).run E s) =
          reached ((relationshipRows formatCommand ((table s).map Binding.row)).run E
            (E.answer (.executeQuery .selectRelationshipList) s).2) := by
        rw [← htable]
        rfl
      rw [hload, reached_relationshipRows]
      rcases List.mem_cons.mp (List.getLastD_mem_cons
        (l := (rowSteps formatCommand E (table s) _).map Step.after)) with hlast | hlast
      · refine ⟨_, hlast, ?_⟩
        rw [hredis.query]
        exact hs
      · rcases List.mem_map.mp hlast with ⟨step, hstep, hafter⟩
        rw [← hafter]
        exact hsteps step hstep

/-- Over a run from inverse maps, every job and every row leaves inverse maps exactly when `Keeps`
holds of each. -/
theorem runSteps_inverse_iff (hformat : HiredisFormats formatCommand)
    (hredis : RedisServer E store)
    (htable : ∀ s, (E.answer (.executeQuery .selectRelationshipList) s).1 =
      (table s).map Binding.row)
    (tasks : List Task) (hjson : ∀ b, .job b ∈ tasks → json.ReadsBinding b) {s : σ}
    (hs : Inverse (store s)) :
    (∀ step ∈ runSteps formatCommand json E table tasks s, step.LeavesInverse store) ↔
      ∀ step ∈ runSteps formatCommand json E table tasks s, step.Keeps E store := by
  induction tasks generalizing s with
  | nil => exact iff_of_true (List.forall_mem_nil _) (List.forall_mem_nil _)
  | cons task tasks ih =>
      have hjob : ∀ b, task = .job b → json.ReadsBinding b :=
        fun b hb => hjson b (by rw [hb]; exact List.mem_cons_self)
      have htask : (∀ step ∈ task.steps formatCommand json E table s, step.LeavesInverse store) ↔
          ∀ step ∈ task.steps formatCommand json E table s, step.Keeps E store :=
        Task.steps_inverse_iff hformat hredis hjob hs
      have htasks := fun b hb => hjson b (List.mem_cons_of_mem task hb)
      rw [runSteps, List.forall_mem_append, List.forall_mem_append]
      refine (and_congr_right ?_).trans (and_congr_left' htask)
      intro hsteps
      rcases Task.reached_inverse hredis htable hs hsteps with ⟨s', hreached, hs'⟩
      simp only [hreached]
      exact ih htasks hs'

end Runs

theorem inverse_empty : Inverse fun _ => none :=
  fun _ _ => iff_of_false (fun h => Option.some_ne_none _ (Eq.symm h))
    (fun h => Option.some_ne_none _ (Eq.symm h))

/-- A device and a user that are bound before, with the load of a table that says the same. -/
theorem runSteps_inverse_iff_rows :
    let b : Binding := ⟨7, .repeated 0x61 rfl⟩
    let steps := runSteps hiredisFormat bindingJson (mapServer [b.row]) (fun _ => [b])
      [.job b, .load] fun _ => none
    (∀ step ∈ steps, step.LeavesInverse fun s => s) ↔
      ∀ step ∈ steps, step.Keeps (mapServer [b.row]) fun s => s :=
  runSteps_inverse_iff hiredisFormat_formats
    (mapServer_redis [Binding.row ⟨7, .repeated 0x61 rfl⟩]) (fun _ => rfl)
    [.job ⟨7, .repeated 0x61 rfl⟩, .load] (fun b _ => bindingJson_reads b) inverse_empty

theorem mapServer_reached_job {b : Binding} (hfits : b.Fits) (rows : List (List Text))
    (store : Text → Option Text) :
    reached (((Task.job b).program hiredisFormat bindingJson).run (mapServer rows) store) =
      some (b.enter store) := by
  rw [reached_job (bindingJson_reads b), reached_bind hiredisFormat_formats hfits]
  rfl

/-- A user with a second device: the first device keeps the user. -/
theorem rebinding_leaves_device :
    ¬ ∀ step ∈ runSteps hiredisFormat bindingJson (mapServer []) (fun _ => [])
        [.job ⟨7, .repeated 0x61 rfl⟩, .job ⟨7, .repeated 0x62 rfl⟩] (fun _ => none),
      step.LeavesInverse fun s => s := by
  intro hsteps
  have hfits : ∀ d, (⟨7, d⟩ : Binding).Fits := fun d => (by decide : (natText 7).length ≤ 16)
  rw [runSteps_cons_of_reached _ (mapServer_reached_job (hfits _) _ _),
    runSteps_cons_of_reached _ (mapServer_reached_job (hfits _) _ _), Task.steps, Task.steps,
    mapServer_reached_job (hfits _), mapServer_reached_job (hfits _)] at hsteps
  rcases hsteps _ (List.mem_append_right _ List.mem_cons_self) with ⟨s', hafter, hs'⟩
  cases hafter
  have hold := (hs' 7 (.repeated 0x61 rfl)).mp (by decide +kernel)
  exact absurd hold (by decide +kernel)

end SyncData

end RobotServer
