import RobotServer.Sync.Records

/-!
# Bindings — the two ways a binding gets into redis

A binding of a user and a device comes as a row of the relationship table or as the workload of a
gearman job.  Both set `RP_<user>` and then `R_<device>`: a job does what a row does
(`syncUserAndDeviceRelationShip_workload`), and with writes that succeed a list of either leaves
the store with the bindings entered in order.
-/

namespace RobotServer

namespace SyncData

open CText Memory Interaction

/-! ## Bindings -/

def isHexChar (c : Byte) : Bool :=
  isDigit c || (decide (0x41 ≤ c) && decide (c ≤ 0x46)) || (decide (0x61 ≤ c) && decide (c ≤ 0x66))

/-- The device ids of the table: 16 hex characters. -/
structure DeviceId where
  text : Text
  length_text : text.length = 16
  isHexChar_text : ∀ c ∈ text, isHexChar c = true

structure Binding where
  userId : Nat
  deviceId : DeviceId

theorem DeviceId.text_injective : Function.Injective DeviceId.text := by
  rintro ⟨t, _, _⟩ ⟨u, _, _⟩ h
  cases h
  rfl

instance : DecidableEq DeviceId := fun d d' =>
  decidable_of_iff (d.text = d'.text) ⟨fun h => DeviceId.text_injective h, fun h => h ▸ rfl⟩

theorem isHexChar_not_special (c : Byte) :
    isHexChar c = true → c ≠ 0 ∧ c ≠ 0x20 ∧ c ≠ 0x22 ∧ c ≠ 0x25 := by
  revert c
  exact forall_byte (by decide +kernel)

theorem DeviceId.notMem (d : DeviceId) :
    (0 : Byte) ∉ d.text ∧ (0x20 : Byte) ∉ d.text ∧ (0x22 : Byte) ∉ d.text ∧
      (0x25 : Byte) ∉ d.text := by
  have hchar := fun c hc => isHexChar_not_special c (d.isHexChar_text c hc)
  exact ⟨fun h => (hchar _ h).1 rfl, fun h => (hchar _ h).2.1 rfl, fun h => (hchar _ h).2.2.1 rfl,
    fun h => (hchar _ h).2.2.2 rfl⟩

theorem DeviceId.isArgument (d : DeviceId) : IsArgument d.text where
  ne_nil := by
    intro h
    have hlen := d.length_text
    rw [h] at hlen
    cases hlen
  no_space := d.notMem.2.1
  no_percent := d.notMem.2.2.2

namespace Binding

/-- The row of the table, as `ResultSet_getString` gives its columns. -/
def row (b : Binding) : List Text :=
  [natText b.userId, b.deviceId.text]

/-- The JSON text of the binding. -/
def workload (b : Binding) : List Byte :=
  ascii "\x7b\"UserId\":" ++ natText b.userId ++ ascii ",\"DeviceId\":\"" ++ b.deviceId.text ++
    ascii "\"\x7d"

def userKey (b : Binding) : Text :=
  ascii "RP_" ++ natText b.userId

def deviceKey (b : Binding) : Text :=
  ascii "R_" ++ b.deviceId.text

/-- The key of the user fits its buffer. -/
def Fits (b : Binding) : Prop :=
  (natText b.userId).length ≤ 16

instance (b : Binding) : Decidable b.Fits :=
  inferInstanceAs (Decidable (_ ≤ _))

theorem fits_of_lt {b : Binding} (h : b.userId < 10 ^ 16) : b.Fits :=
  natText_length_le (by decide) h

/-- What a row and a job do. -/
def bind (formatCommand : Text → Option (List Text)) (b : Binding) : Job Int :=
  setRelationship formatCommand (natText b.userId) b.deviceId.text

/-- The store with both keys of the binding. -/
def enter (b : Binding) (store : Text → Option Text) : Text → Option Text :=
  Function.update (Function.update store b.userKey (some b.deviceId.text)) b.deviceKey
    (some (natText b.userId))

end Binding

/-! ## One binding -/

section Writes

variable {formatCommand : Text → Option (List Text)} (hformat : HiredisFormats formatCommand)

theorem length_append_ascii_RP (t : Text) : (ascii "RP_" ++ t).length = t.length + 3 := by
  rw [List.length_append, Nat.add_comm]
  rfl

theorem length_append_ascii_R (t : Text) : (ascii "R_" ++ t).length = t.length + 2 := by
  rw [List.length_append, Nat.add_comm]
  rfl

theorem Binding.bind_of_not_fits {b : Binding} (h : ¬ b.Fits) :
    b.bind formatCommand = .fault := by
  have hlong : ¬ (ascii "RP_" ++ natText b.userId).length < 20 := by
    rw [length_append_ascii_RP]
    unfold Binding.Fits at h
    omega
  rw [Binding.bind, setRelationship, sprintf, if_neg hlong]
  rfl

include hformat in
/-- The two writes: the second one is tried when the first one succeeded. -/
theorem Binding.bind_of_fits {b : Binding} (h : b.Fits) :
    b.bind formatCommand =
      .call (I := syncInterface) (.redisCommand [ascii "set", b.userKey, b.deviceId.text])
        fun ok => if (ok : Bool) then
          .call (I := syncInterface) (.redisCommand [ascii "set", b.deviceKey, natText b.userId])
            fun ok => if (ok : Bool) then .ret 0 else .ret (-1)
        else .ret (-1) := by
  have huser : b.userKey.length = (natText b.userId).length + 3 := length_append_ascii_RP _
  have hdevice : b.deviceKey.length = 18 := by
    rw [Binding.deviceKey, length_append_ascii_R, b.deviceId.length_text]
  unfold Binding.Fits at h
  have hRP : sprintf (ascii "RP_" ++ natText b.userId) = some b.userKey :=
    if_pos (by change b.userKey.length < 20; omega)
  have hR : sprintf (ascii "R_" ++ b.deviceId.text) = some b.deviceKey :=
    if_pos (by change b.deviceKey.length < 20; omega)
  -- Neither key has a blank or a directive, so each command has the words it was built from.
  have huserKey : IsArgument b.userKey :=
    (by decide : IsArgument (ascii "RP_")).append (isArgument_natText _)
  have hdeviceKey : IsArgument b.deviceKey :=
    (by decide : IsArgument (ascii "R_")).append b.deviceId.isArgument
  have hlen := b.deviceId.length_text
  rw [Binding.bind, setRelationship, hRP, hR]
  simp only [Program.ofOption_some, Program.ret_bind]
  rw [setKeyToredis_plain hformat huserKey b.deviceId.isArgument (by omega),
    setKeyToredis_plain hformat hdeviceKey (isArgument_natText _) (by omega), Program.call_bind]
  refine congrArg (Program.call _) (funext fun ok => ?_)
  cases (ok : Bool) with
  | false => rfl
  | true =>
      refine congrArg (Program.call _) (funext fun ok => ?_)
      cases (ok : Bool) with
      | false => rfl
      | true => rfl

/-- With writes that succeed the binding is entered. -/
theorem Binding.bind_ensures {σ : Type} {E : Environment syncInterface σ}
    {store : σ → Text → Option Text} (hformat : HiredisFormats formatCommand)
    (hredis : RedisServer E store) (hwrites : WritesSucceed E) {b : Binding} (h : b.Fits) (s : σ) :
    Program.Ensures E (b.bind formatCommand) s fun _ result s' =>
      result = 0 ∧ store s' = b.enter (store s) := by
  rw [Binding.bind_of_fits hformat h]
  refine Program.Ensures.call ?_
  rw [hwrites]
  refine Program.Ensures.call ?_
  rw [hwrites]
  refine Program.Ensures.ret ⟨rfl, ?_⟩
  rw [hredis.store_set hwrites, hredis.store_set hwrites]
  rfl

end Writes

/-! ## The job of a binding -/

/-- json-c reads the workload: the number is printed in decimal, the string between quotes. -/
def JsonC.ReadsBinding (json : JsonC) (b : Binding) : Prop :=
  ∃ object id device, json.parse b.workload = some object ∧
    json.objectGet object (ascii "UserId") = some id ∧
    json.objectGet object (ascii "DeviceId") = some device ∧
    json.toJsonString id = natText b.userId ∧
    json.toJsonString device = 0x22 :: (b.deviceId.text ++ [0x22])

theorem zero_notMem_natText (n : Nat) : (0 : Byte) ∉ natText n :=
  fun h => absurd (isDigit_natText n _ h) (by decide)

theorem Binding.zero_notMem_workload (b : Binding) : (0 : Byte) ∉ b.workload := by
  have hhead : (0 : Byte) ∉ ascii "\x7b\"UserId\":" := by decide
  have hmiddle : (0 : Byte) ∉ ascii ",\"DeviceId\":\"" := by decide
  have htail : (0 : Byte) ∉ ascii "\"\x7d" := by decide
  simp only [Binding.workload, List.mem_append, not_or]
  exact ⟨⟨⟨⟨hhead, zero_notMem_natText _⟩, hmiddle⟩, b.deviceId.notMem.1⟩, htail⟩

theorem Binding.length_workload (b : Binding) :
    b.workload.length = (natText b.userId).length + 41 := by
  have hhead : (ascii "\x7b\"UserId\":").length = 10 := by decide
  have hmiddle : (ascii ",\"DeviceId\":\"").length = 13 := by decide
  have htail : (ascii "\"\x7d").length = 2 := by decide
  simp only [Binding.workload, List.length_append, hhead, hmiddle, htail, b.deviceId.length_text]
  omega

/-- The fields a job finds in the workload of a binding. -/
theorem JsonC.ReadsBinding.parser {json : JsonC} {b : Binding} (h : json.ReadsBinding b) :
    parserJsonTokener json b.workload .userAndDeviceRelationship =
      if (natText b.userId).length < 20 then some (natText b.userId, b.deviceId.text) else none := by
  rcases h with ⟨object, id, device, hparse, hid, hdevice, hidText, hdeviceText⟩
  have hlen : (0x22 :: (b.deviceId.text ++ [0x22]) : Text).length < 20 := by
    rw [List.length_cons, List.length_append, b.deviceId.length_text]
    decide
  have hprintId : json.print (json.objectGet object (ascii "UserId")) = natText b.userId := by
    rw [hid]
    exact hidText
  have hprintDevice : json.print (json.objectGet object
      (nameField .userAndDeviceRelationship)) = 0x22 :: (b.deviceId.text ++ 0x22 :: []) := by
    change json.print (json.objectGet object (ascii "DeviceId")) = _
    rw [hdevice]
    exact hdeviceText
  have hnotMem := b.deviceId.notMem
  rw [parserJsonTokener_printed hparse hprintDevice hprintId hnotMem.2.2.1 hnotMem.1
    (zero_notMem_natText _)]
  exact if_congr (and_iff_right hlen) rfl rfl

/-- A job does what a row does. -/
theorem syncUserAndDeviceRelationShip_workload (formatCommand : Text → Option (List Text))
    {json : JsonC} {b : Binding} (h : json.ReadsBinding b) :
    syncUserAndDeviceRelationShip formatCommand json b.workload =
      b.bind formatCommand >>= fun result => .ret (if result = -1 then false else true) := by
  by_cases hroom : FitsJsonBuffer b.workload
  · rw [syncUserAndDeviceRelationShip, jsonBuffer, if_pos hroom,
      cstr_eq_self b.zero_notMem_workload, Program.ofOption_some, Program.ret_bind, h.parser]
    by_cases hid : (natText b.userId).length < 20
    · rw [if_pos hid]
      change (b.bind formatCommand >>= fun result => if result = -1 then pure false
        else pure true) = _
      refine congrArg (b.bind formatCommand >>= ·) (funext fun result => ?_)
      split <;> rfl
    · have hfits : ¬ b.Fits := by
        unfold Binding.Fits
        omega
      rw [if_neg hid, Binding.bind_of_not_fits hfits]
      rfl
  · -- An id of so many digits does not fit the key of the user either.
    have hfits : ¬ b.Fits := by
      have hlong : ¬ b.workload.length < 128 := fun hshort => hroom (.inl hshort)
      rw [b.length_workload] at hlong
      unfold Binding.Fits
      omega
    rw [syncUserAndDeviceRelationShip, jsonBuffer, if_neg hroom, Binding.bind_of_not_fits hfits]
    rfl

/-! ## Lists of bindings -/

section Lists

variable (formatCommand : Text → Option (List Text)) (json : JsonC)

/-- The jobs one after the other, as a worker is handed them. -/
def syncJobs : List (List Byte) → Job Unit
  | [] => .ret ()
  | workload :: workloads => do
      let _ ← syncUserAndDeviceRelationShip formatCommand json workload
      syncJobs workloads

end Lists

/-- The store after the bindings are entered in order; the first one that does not fit ends it. -/
def enterAll : List Binding → (Text → Option Text) → Text → Option Text
  | [], store => store
  | b :: bindings, store => if b.Fits then enterAll bindings (b.enter store) else store

section Loading

variable {formatCommand : Text → Option (List Text)} {json : JsonC} {σ : Type}
  {E : Environment syncInterface σ} {store : σ → Text → Option Text}

/-- A run that enters the bindings, and completes when all of them fit. -/
def EntersAll (E : Environment syncInterface σ) (store : σ → Text → Option Text) (p : Job Unit)
    (bindings : List Binding) (s : σ) : Prop :=
  (p.run E s).result = (if ∀ b ∈ bindings, b.Fits then some () else none) ∧
    store (p.run E s).final = enterAll bindings (store s)

/-- One binding, and the program for the others behind it. -/
theorem entersAll_cons (hformat : HiredisFormats formatCommand) (hredis : RedisServer E store)
    (hwrites : WritesSucceed E) {b : Binding} {bindings : List Binding} {f : Int → Job Unit}
    (hf : ∀ s, EntersAll E store (f 0) bindings s) (s : σ) :
    EntersAll E store (b.bind formatCommand >>= f) (b :: bindings) s := by
  by_cases hfits : b.Fits
  · rcases Binding.bind_ensures hformat hredis hwrites hfits s with ⟨result, hresult, rfl, hstore⟩
    have hall : (∀ b' ∈ b :: bindings, b'.Fits) ↔ ∀ b' ∈ bindings, b'.Fits :=
      List.forall_mem_cons.trans (and_iff_right hfits)
    have hrest := hf ((b.bind formatCommand).run E s).final
    refine ⟨?_, ?_⟩
    · rw [Program.run_bind_of_result E hresult]
      refine hrest.1.trans ?_
      rw [if_congr hall rfl rfl]
    · rw [Program.run_bind_of_result E hresult, enterAll, if_pos hfits, ← hstore]
      exact hrest.2
  · rw [Binding.bind_of_not_fits hfits]
    refine ⟨?_, ?_⟩
    · rw [if_neg fun hall => hfits (hall b List.mem_cons_self)]
      rfl
    · rw [enterAll, if_neg hfits]
      rfl

theorem relationshipRows_entersAll (hformat : HiredisFormats formatCommand)
    (hredis : RedisServer E store) (hwrites : WritesSucceed E) (bindings : List Binding) (s : σ) :
    EntersAll E store (relationshipRows formatCommand (bindings.map Binding.row)) bindings s := by
  induction bindings generalizing s with
  | nil => exact ⟨rfl, rfl⟩
  | cons b bindings ih => exact entersAll_cons hformat hredis hwrites ih s

theorem syncJobs_entersAll (hformat : HiredisFormats formatCommand) (hredis : RedisServer E store)
    (hwrites : WritesSucceed E) (bindings : List Binding)
    (hjson : ∀ b ∈ bindings, json.ReadsBinding b) (s : σ) :
    EntersAll E store (syncJobs formatCommand json (bindings.map Binding.workload)) bindings s := by
  induction bindings generalizing s with
  | nil => exact ⟨rfl, rfl⟩
  | cons b bindings ih =>
      have hrest := ih fun b' hb' => hjson b' (List.mem_cons_of_mem b hb')
      rw [List.map_cons, syncJobs, syncUserAndDeviceRelationShip_workload formatCommand
        (hjson b List.mem_cons_self), Program.bind_assoc_eq]
      exact entersAll_cons hformat hredis hwrites hrest s

/-- Loading the table and running the jobs for its rows end in one store. -/
theorem loaders_agree (hformat : HiredisFormats formatCommand) (hredis : RedisServer E store)
    (hwrites : WritesSucceed E) (bindings : List Binding)
    (hjson : ∀ b ∈ bindings, json.ReadsBinding b) {s s' : σ} (hstart : store s = store s')
    (htable : (E.answer (.executeQuery .selectRelationshipList) s).1 =
      bindings.map Binding.row) :
    let init := (initUserAndDeviceRelationshipList formatCommand).run E s
    let sync := (syncJobs formatCommand json (bindings.map Binding.workload)).run E s'
    store init.final = store sync.final ∧ init.result = sync.result ∧
      ((∀ b ∈ bindings, b.userId < 10 ^ 16) → init.result = some ()) := by
  intro init sync
  have hrows := relationshipRows_entersAll hformat hredis hwrites bindings
    (E.answer (.executeQuery .selectRelationshipList) s).2
  rw [← htable] at hrows
  have hjobs : EntersAll E store _ bindings s' :=
    syncJobs_entersAll hformat hredis hwrites bindings hjson s'
  refine ⟨?_, ?_, ?_⟩
  · refine hrows.2.trans (Eq.trans ?_ hjobs.2.symm)
    rw [hredis.query, hstart]
  · exact hrows.1.trans hjobs.1.symm
  · intro hids
    refine hrows.1.trans (if_pos ?_)
    exact fun b hb => Binding.fits_of_lt (hids b hb)

end Loading

/-- The device id of one character. -/
def DeviceId.repeated (c : Byte) (h : isHexChar c = true) : DeviceId where
  text := List.replicate 16 c
  length_text := List.length_replicate
  isHexChar_text := by
    intro c' hc'
    rw [List.eq_of_mem_replicate hc']
    exact h

/-- json-c for the workloads of bindings. -/
def bindingJson : JsonC :=
  recordJson (ascii "DeviceId") fun c => [c]

theorem bindingJson_reads (b : Binding) : bindingJson.ReadsBinding b := by
  have hdevice : ∀ c ∈ b.deviceId.text, c ≠ 0x22 :=
    fun c hc => (isHexChar_not_special c (b.deviceId.isHexChar_text c hc)).2.2.1
  have hparse := recordJson_parse (ascii "DeviceId") (fun c => [c])
    (ascii "\"DeviceId\":\"") rfl b.userId hdevice
  refine ⟨_, .inr (natText b.userId), .inr (0x22 :: (b.deviceId.text ++ [0x22])), hparse, rfl,
    ?_, rfl, rfl⟩
  refine congrArg (fun t => some (Sum.inr (0x22 :: (t ++ [0x22])))) ?_
  exact List.flatMap_singleton' b.deviceId.text

/-- A user that is bound twice has the second device on both ways. -/
theorem loaders_agree_rebound :
    let bindings : List Binding := [⟨7, .repeated 0x61 rfl⟩, ⟨7, .repeated 0x62 rfl⟩]
    let init := (initUserAndDeviceRelationshipList hiredisFormat).run
      (mapServer (bindings.map Binding.row)) fun _ => none
    let sync := (syncJobs hiredisFormat bindingJson (bindings.map Binding.workload)).run
      (mapServer (bindings.map Binding.row)) fun _ => none
    init.result = some () ∧ sync.result = some () ∧ init.final = sync.final ∧
      sync.final (ascii "RP_7") = some (List.replicate 16 0x62) := by
  intro bindings init sync
  obtain ⟨hfinal, hresult, hids⟩ := loaders_agree hiredisFormat_formats (mapServer_redis _)
    (mapServer_writes _) bindings (fun b _ => bindingJson_reads b) (s := fun _ => none) rfl rfl
  have hinit : init.result = some () := hids (by decide)
  have hlast : init.final (ascii "RP_7") = some (List.replicate 16 0x62) := by decide +kernel
  exact ⟨hinit, hresult.symm.trans hinit, hfinal, (congrFun hfinal _).symm.trans hlast⟩

end SyncData

end RobotServer
