import RobotServer.Sync.Records

/-!
# BadWorkload — jobs without the fields they need

The jobs do not look at the return value of `parserJsonTokener`.  Behind a parse error both texts
are empty, and redis refuses the command that is made of them; a missing field is the text `null`,
in which the loop that takes quotes off finds none and leaves its array (`unquote_of_no_quote`), or
which is stored as the user id.  `changesNothing_userInfo_iff` and
`changesNothing_relationship_iff` say when a job leaves redis alone all the same.
-/

namespace RobotServer

namespace SyncData

open CText Memory Interaction Words

/-! ## Fields that are missing -/

/-- json-c prints C strings. -/
def JsonC.PrintsText (json : JsonC) : Prop :=
  ∀ object, (0 : Byte) ∉ json.toJsonString object

/-- The text is not one of an object with both fields: it does not parse, or a field is missing, as
every field is of a value that is no object. -/
def JsonC.Lacks (json : JsonC) (type : RecordType) (text : Text) : Prop :=
  json.parse text = none ∨ ∃ object, json.parse text = some object ∧
    (json.objectGet object (nameField type) = none ∨
      json.objectGet object (ascii "UserId") = none)

theorem JsonC.PrintsText.notMem {json : JsonC} (h : json.PrintsText)
    (object : Option json.Object) : (0 : Byte) ∉ json.print object := by
  cases object with
  | none =>
      change (0 : Byte) ∉ ascii "null"
      decide
  | some object => exact h object

/-! ## The unquoting loop -/

/-- The name that the loop leaves of a printed text: the text fits its array, and has a quote
behind its first character. -/
def Heard (printed name : Text) : Prop :=
  printed.length < 20 ∧ (0x22 : Byte) ∉ name ∧
    ∃ first rest, printed = first :: (name ++ 0x22 :: rest)

/-- Without a quote the loop runs to the end of the array. -/
theorem unquoteLoop_of_no_quote (rounds : Nat) : rounds ≤ 19 →
    ∀ buffer : TextBuffer, (∀ j, 20 - rounds ≤ j → j < 20 → buffer.peek j ≠ 0x22) →
      ∃ buffer', unquoteLoop rounds buffer = some (20, buffer') := by
  induction rounds with
  | zero => exact fun _ buffer _ => ⟨buffer, rfl⟩
  | succ rounds ih =>
      intro hrounds buffer hquote
      have hread : buffer.get? ((19 - rounds : Nat) : Int) = some (buffer.peek (19 - rounds)) :=
        Cells.get?_of_lt (by omega)
      have hwrite : ∀ c, buffer.set? ((19 - rounds - 1 : Nat) : Int) c =
          some (buffer.place (19 - rounds - 1) [c]) := fun c => Cells.set?_of_lt (by omega)
      have hne : buffer.peek (19 - rounds) ≠ 0x22 := hquote _ (by omega) (by omega)
      rw [unquoteLoop]
      simp only [hread, hwrite, Option.bind_eq_bind, Option.bind_some, if_neg hne]
      refine ih (by omega) _ ?_
      intro j hj hlt
      -- The characters that are still to come are not moved yet.
      rw [Cells.peek_place_of_le hlt (by rw [List.length_singleton]; omega)]
      exact hquote j (by omega) hlt

/-- Behind the array stands the last of the two terminators. -/
theorem unquote_of_no_quote {buffer : TextBuffer}
    (h : ∀ j, 1 ≤ j → j < 20 → buffer.peek j ≠ 0x22) : unquote buffer = none := by
  rcases unquoteLoop_of_no_quote 19 le_rfl buffer h with ⟨buffer', hloop⟩
  have hfirst : buffer'.set? ((19 : Nat) : Int) 0 = some (buffer'.place 19 [0]) :=
    Cells.set?_of_lt (by omega)
  rw [unquote, hloop]
  change (buffer'.set? ((19 : Nat) : Int) 0 >>= fun valueName => valueName.set? (20 : Int) 0) = none
  rw [hfirst]
  rfl

/-- A text without a quote behind its first character. -/
theorem unquote_strcpy_of_notMem {t : Text} (hquote : (0x22 : Byte) ∉ t.drop 1) :
    unquote ((Cells.fill 0).place 0 (t ++ [0])) = none := by
  refine unquote_of_no_quote ?_
  intro j hj hlt
  rw [Cells.peek_place hlt]
  split
  · next hin =>
      intro heq
      rw [Nat.sub_zero] at heq
      rcases lt_or_ge j t.length with hmem | hend
      · rw [List.getD_append _ _ _ _ hmem, List.getD_eq_getElem _ _ hmem] at heq
        apply hquote
        rw [← heq]
        refine List.mem_drop_iff_getElem.mpr ⟨j - 1, by omega, ?_⟩
        congr 1
        omega
      · rw [List.getD_append_right _ _ _ _ hend] at heq
        have hzero : ([0] : Text).getD (j - t.length) default ≠ 0x22 := by
          have hj' : j - t.length = 0 := by
            simp only [List.length_append, List.length_singleton] at hin
            omega
          rw [hj']
          decide
        exact hzero heq
  · rw [Cells.peek_fill hlt]
    decide

/-- A text with a quote behind its first character, cut there. -/
theorem exists_heard {t : Text} (hlen : t.length < 20) (h : (0x22 : Byte) ∈ t.drop 1) :
    ∃ name, Heard t name := by
  cases t with
  | nil => cases h
  | cons first t =>
      rcases List.eq_append_cons_of_mem h with ⟨name, rest, hsplit, hname⟩
      have htail : t = name ++ 0x22 :: rest := hsplit
      exact ⟨name, hlen, hname, first, rest, by rw [htail]⟩

theorem parserJsonTokener_lacks_id {json : JsonC} (hprints : json.PrintsText) {text : Text}
    {object : json.Object} (hparse : json.parse text = some object) {type : RecordType}
    (hid : json.objectGet object (ascii "UserId") = none) {name : Text}
    (hheard : Heard (json.print (json.objectGet object (nameField type))) name) :
    parserJsonTokener json text type = some (ascii "null", name) := by
  rcases hheard with ⟨hlen, hquote, first, rest, hprinted⟩
  have hzero := hprints.notMem (json.objectGet object (nameField type))
  have hname : (0 : Byte) ∉ name := by
    intro hmem
    rw [hprinted] at hzero
    exact hzero (List.mem_cons_of_mem _ (List.mem_append_left _ hmem))
  have hidText : json.print (json.objectGet object (ascii "UserId")) = ascii "null" := by
    rw [hid]
    rfl
  rw [parserJsonTokener_printed hparse hprinted hidText hquote hname (by decide), if_pos]
  rw [← hprinted]
  exact ⟨hlen, by decide⟩

/-- The parser leaves its arrays where no name is heard. -/
theorem parserJsonTokener_unheard {json : JsonC} {text : Text} {object : json.Object}
    (hparse : json.parse text = some object) {type : RecordType}
    (hheard : ¬ ∃ name, Heard (json.print (json.objectGet object (nameField type))) name) :
    parserJsonTokener json text type = none := by
  rw [parserJsonTokener_eq hparse]
  by_cases hlen : (json.print (json.objectGet object (nameField type))).length < 20
  · have hquote : (0x22 : Byte) ∉
        (json.print (json.objectGet object (nameField type))).drop 1 :=
      fun hmem => hheard (exists_heard hlen hmem)
    rw [strcpy_of_lt hlen]
    simp only [Option.bind_eq_bind, Option.bind_some, unquote_strcpy_of_notMem hquote]
    exact Option.bind_eq_none_iff.mpr fun _ _ => rfl
  · rw [strcpy, if_neg hlen]
    rfl

theorem Heard.name_length_le {printed name : Text} (h : Heard printed name) : name.length ≤ 17 := by
  rcases h with ⟨hlen, -, first, rest, rfl⟩
  simp only [List.length_cons, List.length_append] at hlen
  omega

/-! ## Redis refuses a command -/

/-- A command that redis refuses is answered with an error and changes nothing. -/
structure RedisRefuses (refuses : List Text → Bool) {σ : Type} (E : Environment syncInterface σ)
    (store : σ → Text → Option Text) : Prop where
  reply : ∀ s argv, refuses argv = true → (E.answer (.redisCommand argv) s).1 = false
  store_eq : ∀ s argv, refuses argv = true →
    store (E.answer (.redisCommand argv) s).2 = store s

/-- The job completes, the store is what it was, and `GEARMAN_SUCCESS` is not reported, for every
redis that refuses such commands. -/
def ChangesNothing (refuses : List Text → Bool) (job : Job Bool) : Prop :=
  ∀ (σ : Type) (E : Environment syncInterface σ) (store : σ → Text → Option Text),
    RedisServer E store → RedisRefuses refuses E store → ∀ s,
      Program.Ensures E job s fun _ success s' => success = false ∧ store s' = store s

/-- What a command with three or more words leaves in a map. -/
def acceptedMap (store : Text → Option Text) : List Text → Text → Option Text
  | _ :: key :: value :: _ => Function.update store key (some value)
  | _ => store

/-- A redis that accepts every command it does not refuse. -/
def acceptingServer (refuses : List Text → Bool) :
    Environment syncInterface (Text → Option Text) where
  answer
    | .redisCommand argv, store =>
        if refuses argv then (false, store) else (true, acceptedMap store argv)
    | .executeQuery _, store => ([], store)

theorem acceptedMap_of_notMem (store : Text → Option Text) {argv : List Text} {key : Text}
    (h : key ∉ argv) : acceptedMap store argv key = store key := by
  unfold acceptedMap
  split
  · next command key' value rest =>
      have hne : key ≠ key' := by
        rintro rfl
        exact h (List.mem_cons_of_mem _ List.mem_cons_self)
      exact Function.update_of_ne hne _ _
  · rfl

section Accepting

variable (refuses : List Text → Bool)

theorem acceptingServer_refused {argv : List Text} (h : refuses argv = true)
    (store : Text → Option Text) :
    (acceptingServer refuses).answer (.redisCommand argv) store = (false, store) :=
  if_pos h

theorem acceptingServer_accepted {argv : List Text} (h : refuses argv = false)
    (store : Text → Option Text) :
    (acceptingServer refuses).answer (.redisCommand argv) store =
      (true, acceptedMap store argv) :=
  if_neg (by rw [h]; exact Bool.false_ne_true)

theorem acceptingServer_redis : RedisServer (acceptingServer refuses) fun s => s where
  set := by
    intro store key value
    cases hrefuses : refuses [ascii "set", key, value] with
    | false =>
        rw [acceptingServer_accepted refuses hrefuses]
        exact .inl ⟨rfl, rfl⟩
    | true =>
        rw [acceptingServer_refused refuses hrefuses]
        exact .inr ⟨rfl, rfl⟩
  other := by
    intro store argv key hkey
    cases hrefuses : refuses argv with
    | false =>
        rw [acceptingServer_accepted refuses hrefuses]
        exact acceptedMap_of_notMem store hkey
    | true => rw [acceptingServer_refused refuses hrefuses]
  query := fun _ _ => rfl

theorem acceptingServer_refuses : RedisRefuses refuses (acceptingServer refuses) fun s => s where
  reply := fun store _ h => by rw [acceptingServer_refused refuses h]
  store_eq := fun store _ h => by rw [acceptingServer_refused refuses h]

/-- No command removes a key. -/
theorem run_keeps_key {α : Type} (job : Job α) (key : Text) :
    ∀ store : Text → Option Text, store key ≠ none →
      (job.run (acceptingServer refuses) store).final key ≠ none := by
  induction job with
  | ret a => exact fun store h => h
  | fault => exact fun store h => h
  | call o k ih =>
      intro store h
      refine ih _ _ ?_
      -- A query leaves the map alone, and a command can only put a key there.
      cases o with
      | executeQuery sql => exact h
      | redisCommand argv =>
          cases hrefuses : refuses argv with
          | true =>
              rw [acceptingServer_refused refuses hrefuses]
              exact h
          | false =>
              rw [acceptingServer_accepted refuses hrefuses]
              change acceptedMap store argv key ≠ none
              unfold acceptedMap
              split
              · next command key' value rest =>
                  by_cases hkey : key = key'
                  · rw [hkey, Function.update_self]
                    exact Option.some_ne_none value
                  · rw [Function.update_of_ne hkey]
                    exact h
              · exact h

end Accepting

/-! ## A command and what follows it -/

section Command

variable {refuses : List Text → Bool} {formatCommand : Text → Option (List Text)}
  {key value : Text} {k : Int → Job Bool}

theorem changesNothing_of_refused (hlen : key.length + value.length < 251) {argv : List Text}
    (hargv : formatCommand (ascii "set " ++ key ++ ascii " " ++ value) = some argv)
    (hrefused : refuses argv = true) (hk : k (-1) = .ret false) :
    ChangesNothing refuses (setKeyToredis formatCommand key value >>= k) := by
  intro σ E store _ hrefuses s
  rw [setKeyToredis_eq hlen, hargv, Program.ofOption_some, Program.ret_bind, Program.call_bind]
  apply Program.Ensures.call
  rw [hrefuses.reply s argv hrefused]
  change Program.Ensures E (k (-1)) _ _
  rw [hk]
  exact Program.Ensures.ret ⟨rfl, hrefuses.store_eq s argv hrefused⟩

/-- A job that changes nothing had its command refused, when it cannot hide an accepted one. -/
theorem refused_of_changesNothing (hlen : key.length + value.length < 251)
    (h : ChangesNothing refuses (setKeyToredis formatCommand key value >>= k))
    (hk : ∀ argv, formatCommand (ascii "set " ++ key ++ ascii " " ++ value) = some argv →
      refuses argv = false →
        ((k 0).run (acceptingServer refuses) (acceptedMap (fun _ => none) argv)).result = some false →
        ((k 0).run (acceptingServer refuses) (acceptedMap (fun _ => none) argv)).final ≠
          fun _ => none) :
    ∃ argv, formatCommand (ascii "set " ++ key ++ ascii " " ++ value) = some argv ∧
      refuses argv = true := by
  rcases h _ _ _ (acceptingServer_redis refuses) (acceptingServer_refuses refuses) fun _ => none with
    ⟨success, hresult, rfl, hstore⟩
  rw [setKeyToredis_eq hlen] at hresult hstore
  cases hargv : formatCommand (ascii "set " ++ key ++ ascii " " ++ value) with
  | none =>
      rw [hargv] at hresult
      cases hresult
  | some argv =>
      refine ⟨argv, rfl, ?_⟩
      by_contra hrefuses
      rw [Bool.not_eq_true] at hrefuses
      rw [hargv, Program.ofOption_some, Program.ret_bind, Program.call_bind, Program.run_call,
        acceptingServer_accepted refuses hrefuses] at hresult hstore
      exact hk argv hargv hrefuses hresult hstore

end Command

/-! ## The two jobs -/

section Jobs

variable {refuses : List Text → Bool} {formatCommand : Text → Option (List Text)} {json : JsonC}
  {workload : List Byte}

theorem not_changesNothing_fault : ¬ ChangesNothing refuses .fault := by
  intro h
  rcases h _ _ _ (acceptingServer_redis refuses) (acceptingServer_refuses refuses) fun _ => none with
    ⟨success, hresult, -⟩
  cases hresult

theorem not_heard_null (name : Text) : ¬ Heard (ascii "null") name := by
  rintro ⟨-, -, first, rest, hprinted⟩
  have hquote : (0x22 : Byte) ∈ ascii "null" := by
    rw [hprinted]
    exact List.mem_cons_of_mem _ (List.mem_append_right _ List.mem_cons_self)
  exact absurd hquote (by decide)

/-- Where a name is heard, it is the user id that is missing. -/
theorem JsonC.Lacks.id_eq_none {type : RecordType} {text : Text} (h : json.Lacks type text)
    {object : json.Object} (hparse : json.parse text = some object) {name : Text}
    (hheard : Heard (json.print (json.objectGet object (nameField type))) name) :
    json.objectGet object (ascii "UserId") = none := by
  rcases h with hnone | ⟨object', hparse', hname | hid⟩
  · rw [hparse] at hnone
    cases hnone
  · rw [hparse, Option.some.injEq] at hparse'
    rw [hparse', hname] at hheard
    exact absurd hheard (not_heard_null name)
  · rw [hparse, Option.some.injEq] at hparse'
    rw [hparse']
    exact hid

/-- The two words of a command without a value. -/
theorem format_empty_value (hformat : HiredisFormats formatCommand) {key : Text}
    (hkey : IsArgument key) :
    formatCommand (ascii "set " ++ key ++ ascii " " ++ []) = some [ascii "set", key] := by
  have hpercent : (0x25 : Byte) ∉ ascii "set " ++ key ++ ascii " " ++ [] := by
    have hset : (0x25 : Byte) ∉ ascii "set " := by decide
    have hspace : (0x25 : Byte) ∉ ascii " " := by decide
    simp only [List.mem_append, not_or]
    exact ⟨⟨⟨hset, hkey.no_percent⟩, hspace⟩, List.not_mem_nil⟩
  rw [hformat, expandDirectives_of_notMem _ hpercent, Option.map_some,
    words_command [] hkey.no_space hkey.ne_nil]
  rfl

theorem parserJsonTokener_error {text : Text} (h : json.parse text = none) (type : RecordType) :
    parserJsonTokener json text type = some ([], []) := by
  rw [parserJsonTokener, h]

theorem syncUserInfo_of_parsed (hlen : workload.length < 128) {id name : Text}
    (hparsed : parserJsonTokener json (cstr workload) .userinfo = some (id, name))
    (hname : name.length ≤ 17) :
    syncUserInfo formatCommand json workload =
      setKeyToredis formatCommand (ascii "U_" ++ name) id >>= fun result =>
        if result = -1 then pure false else pure true := by
  have hkey : (ascii "U_" ++ name).length < 20 := by
    have hprefix : (ascii "U_").length = 2 := by decide
    rw [List.length_append, hprefix]
    omega
  rw [syncUserInfo, jsonBuffer, if_pos (.inl hlen), Program.ofOption_some, Program.ret_bind, hparsed,
    Program.ofOption_some, Program.ret_bind]
  dsimp only
  rw [sprintf, if_pos hkey]
  rfl

/-- What follows the first write of a binding. -/
def secondWrite (formatCommand : Text → Option (List Text)) (userId deviceId : Text)
    (result : Int) : Job Bool := do
  let result ← (if result = -1 then pure (-1)
    else do
      let RDeviceId ← Program.ofOption (sprintf (ascii "R_" ++ deviceId))
      let result ← setKeyToredis formatCommand RDeviceId userId
      if result = -1 then pure (-1) else pure 0 : Job Int)
  if result = -1 then pure false else pure true

theorem syncUserAndDeviceRelationShip_of_parsed (hlen : workload.length < 128)
    {id device : Text}
    (hparsed : parserJsonTokener json (cstr workload) .userAndDeviceRelationship =
      some (id, device)) (hid : id.length ≤ 4) :
    syncUserAndDeviceRelationShip formatCommand json workload =
      setKeyToredis formatCommand (ascii "RP_" ++ id) device >>=
        secondWrite formatCommand id device := by
  have hkey : (ascii "RP_" ++ id).length < 20 := by
    have hprefix : (ascii "RP_").length = 3 := by decide
    rw [List.length_append, hprefix]
    omega
  rw [syncUserAndDeviceRelationShip, jsonBuffer, if_pos (.inl hlen), Program.ofOption_some,
    Program.ret_bind, hparsed, Program.ofOption_some, Program.ret_bind]
  dsimp only
  rw [setRelationship, sprintf, if_pos hkey, Program.ofOption_some, Program.ret_bind, bind_assoc]
  rfl

/-- A command that was accepted left a key. -/
theorem acceptedMap_relationship (hformat : HiredisFormats formatCommand)
    (harity : ∀ key, refuses [ascii "set", key] = true) {device : Text} {argv : List Text}
    (hargv : formatCommand (ascii "set " ++ ascii "RP_null" ++ ascii " " ++ device) = some argv)
    (haccepted : refuses argv = false) :
    acceptedMap (fun _ => none) argv (ascii "RP_null") ≠ none := by
  have hpercent : (0x25 : Byte) ∉ ascii "set " ++ ascii "RP_null" ++ ascii " " := by decide
  rw [hformat, expandDirectives_append hpercent, Option.map_map] at hargv
  rcases Option.map_eq_some_iff.mp hargv with ⟨expanded, -, hwords⟩
  have hcommand := words_command expanded (by decide : (0x20 : Byte) ∉ ascii "RP_null") (by decide)
  have hargv' : argv = ascii "set" :: ascii "RP_null" :: words 0x20 expanded :=
    hwords.symm.trans hcommand
  cases hvalue : words 0x20 expanded with
  | nil =>
      rw [hargv', hvalue, harity] at haccepted
      cases haccepted
  | cons value rest =>
      rw [hargv', hvalue]
      change Function.update (fun _ => none) (ascii "RP_null") (some value) (ascii "RP_null") ≠ none
      rw [Function.update_self]
      exact Option.some_ne_none value

/-- The second write leaves the key of the first one there. -/
theorem secondWrite_keeps (hformat : HiredisFormats formatCommand)
    (harity : ∀ key, refuses [ascii "set", key] = true) {device : Text} {argv : List Text}
    (hargv : formatCommand (ascii "set " ++ ascii "RP_null" ++ ascii " " ++ device) = some argv)
    (haccepted : refuses argv = false) :
    ((secondWrite formatCommand (ascii "null") device 0).run (acceptingServer refuses)
      (acceptedMap (fun _ => none) argv)).final ≠ fun _ => none := by
  intro hfinal
  have hkey := acceptedMap_relationship hformat harity hargv haccepted
  have hkept := run_keeps_key refuses (secondWrite formatCommand (ascii "null") device 0)
    (ascii "RP_null") _ hkey
  rw [hfinal] at hkept
  exact hkept rfl

/-- A job that starts with one write of what it heard changes nothing when the text does not parse,
or when redis refuses that write. -/
theorem changesNothing_iff_of_write {type : RecordType} {job : Job Bool} (key value : Text → Text)
    (later : Text → Int → Job Bool)
    (hnone : json.parse (cstr workload) = none → ChangesNothing refuses job)
    (hwrite : ∀ object name, json.parse (cstr workload) = some object →
      Heard (json.print (json.objectGet object (nameField type))) name →
        job = setKeyToredis formatCommand (key name) (value name) >>= later name)
    (hunheard : ∀ object, json.parse (cstr workload) = some object →
      (¬ ∃ name, Heard (json.print (json.objectGet object (nameField type))) name) → job = .fault)
    (hroom : ∀ name, name.length ≤ 17 → (key name).length + (value name).length < 251)
    (hfailed : ∀ name, later name (-1) = .ret false)
    (hlater : ∀ name argv,
      formatCommand (ascii "set " ++ key name ++ ascii " " ++ value name) = some argv →
        refuses argv = false →
          ((later name 0).run (acceptingServer refuses) (acceptedMap (fun _ => none) argv)).result =
            some false →
          ((later name 0).run (acceptingServer refuses) (acceptedMap (fun _ => none) argv)).final ≠
            fun _ => none) :
    ChangesNothing refuses job ↔
      json.parse (cstr workload) = none ∨
        ∃ object name argv, json.parse (cstr workload) = some object ∧
          Heard (json.print (json.objectGet object (nameField type))) name ∧
            formatCommand (ascii "set " ++ key name ++ ascii " " ++ value name) = some argv ∧
              refuses argv = true := by
  constructor
  · intro h
    cases hparse : json.parse (cstr workload) with
    | none => exact .inl rfl
    | some object =>
        right
        by_cases hheard : ∃ name, Heard (json.print (json.objectGet object (nameField type))) name
        · rcases hheard with ⟨name, hheard⟩
          -- The first write alone decides, as nothing behind it undoes an accepted one.
          rw [hwrite object name hparse hheard] at h
          rcases refused_of_changesNothing (hroom name hheard.name_length_le) h (hlater name) with
            ⟨argv, hargv, hrefused⟩
          exact ⟨object, name, argv, rfl, hheard, hargv, hrefused⟩
        · -- What cannot be heard overruns the buffer of the name.
          rw [hunheard object hparse hheard] at h
          exact absurd h not_changesNothing_fault
  · rintro (herror | ⟨object, name, argv, hparse, hheard, hargv, hrefused⟩)
    · exact hnone herror
    · rw [hwrite object name hparse hheard]
      exact changesNothing_of_refused (hroom name hheard.name_length_le) hargv hrefused
        (hfailed name)

/-- A user job without its fields changes nothing when the text does not parse, or when redis
refuses the command that stores `null` for the name. -/
theorem changesNothing_userInfo_iff (hformat : HiredisFormats formatCommand)
    (hprints : json.PrintsText) (harity : ∀ key, refuses [ascii "set", key] = true)
    (hlen : workload.length < 128) (hlacks : json.Lacks .userinfo (cstr workload)) :
    ChangesNothing refuses (syncUserInfo formatCommand json workload) ↔
      json.parse (cstr workload) = none ∨
        ∃ object name argv, json.parse (cstr workload) = some object ∧
          Heard (json.print (json.objectGet object (nameField .userinfo))) name ∧
            formatCommand (ascii "set " ++ (ascii "U_" ++ name) ++ ascii " " ++ ascii "null") =
              some argv ∧ refuses argv = true := by
  refine changesNothing_iff_of_write (fun name => ascii "U_" ++ name) (fun _ => ascii "null")
    (fun _ result => if result = -1 then pure false else pure true) ?_ ?_ ?_ ?_ (fun _ => rfl)
    fun _ _ _ _ hresult => nomatch hresult
  · -- A text that does not parse leaves both words empty.
    intro hnone
    rw [syncUserInfo_of_parsed hlen (parserJsonTokener_error hnone _) (Nat.zero_le _)]
    exact changesNothing_of_refused (by decide)
      (format_empty_value hformat (by decide : IsArgument (ascii "U_" ++ []))) (harity _) rfl
  · intro object name hparse hheard
    have hparsed := parserJsonTokener_lacks_id hprints hparse
      (hlacks.id_eq_none hparse hheard) hheard
    exact syncUserInfo_of_parsed hlen hparsed hheard.name_length_le
  · intro object hparse hheard
    rw [syncUserInfo, jsonBuffer, if_pos (.inl hlen), Program.ofOption_some, Program.ret_bind,
      parserJsonTokener_unheard hparse hheard]
    rfl
  · intro name hname
    have hprefix : (ascii "U_").length = 2 := by decide
    have hnull : (ascii "null").length = 4 := by decide
    rw [List.length_append, hprefix, hnull]
    omega

/-- A binding job without its fields changes nothing when the text does not parse, or when redis
refuses the command that stores the device for the user `null`. -/
theorem changesNothing_relationship_iff (hformat : HiredisFormats formatCommand)
    (hprints : json.PrintsText) (harity : ∀ key, refuses [ascii "set", key] = true)
    (hlen : workload.length < 128)
    (hlacks : json.Lacks .userAndDeviceRelationship (cstr workload)) :
    ChangesNothing refuses (syncUserAndDeviceRelationShip formatCommand json workload) ↔
      json.parse (cstr workload) = none ∨
        ∃ object device argv, json.parse (cstr workload) = some object ∧
          Heard (json.print (json.objectGet object (nameField .userAndDeviceRelationship))) device ∧
            formatCommand (ascii "set " ++ ascii "RP_null" ++ ascii " " ++ device) = some argv ∧
              refuses argv = true := by
  refine changesNothing_iff_of_write (fun _ => ascii "RP_null") (fun device => device)
    (secondWrite formatCommand (ascii "null")) ?_ ?_ ?_ ?_ (fun _ => rfl)
    fun _ _ hargv haccepted _ => secondWrite_keeps hformat harity hargv haccepted
  · intro hnone
    rw [syncUserAndDeviceRelationShip_of_parsed hlen (parserJsonTokener_error hnone _)
      (Nat.zero_le _)]
    exact changesNothing_of_refused (by decide)
      (format_empty_value hformat (by decide : IsArgument (ascii "RP_" ++ []))) (harity _) rfl
  · intro object device hparse hheard
    have hparsed := parserJsonTokener_lacks_id hprints hparse
      (hlacks.id_eq_none hparse hheard) hheard
    exact syncUserAndDeviceRelationShip_of_parsed hlen hparsed (by decide)
  · intro object hparse hheard
    rw [syncUserAndDeviceRelationShip, jsonBuffer, if_pos (.inl hlen), Program.ofOption_some,
      Program.ret_bind, parserJsonTokener_unheard hparse hheard]
    rfl
  · intro device hdevice
    have hkey : (ascii "RP_null").length = 7 := by decide
    rw [hkey]
    omega

/-- **When a workload without the fields of its job changes nothing.** -/
theorem badWorkload_changesNothing_iff (hformat : HiredisFormats formatCommand)
    (hprints : json.PrintsText) (harity : ∀ key, refuses [ascii "set", key] = true)
    (hlen : workload.length < 128) :
    (json.Lacks .userinfo (cstr workload) →
      (ChangesNothing refuses (syncUserInfo formatCommand json workload) ↔
        json.parse (cstr workload) = none ∨
          ∃ object name argv, json.parse (cstr workload) = some object ∧
            Heard (json.print (json.objectGet object (nameField .userinfo))) name ∧
              formatCommand (ascii "set " ++ (ascii "U_" ++ name) ++ ascii " " ++ ascii "null") =
                some argv ∧ refuses argv = true)) ∧
    (json.Lacks .userAndDeviceRelationship (cstr workload) →
      (ChangesNothing refuses (syncUserAndDeviceRelationShip formatCommand json workload) ↔
        json.parse (cstr workload) = none ∨
          ∃ object device argv, json.parse (cstr workload) = some object ∧
            Heard (json.print (json.objectGet object (nameField .userAndDeviceRelationship)))
              device ∧
              formatCommand (ascii "set " ++ ascii "RP_null" ++ ascii " " ++ device) = some argv ∧
                refuses argv = true)) :=
  ⟨changesNothing_userInfo_iff hformat hprints harity hlen,
    changesNothing_relationship_iff hformat hprints harity hlen⟩

end Jobs

def nameOnlyWorkload : List Byte :=
  ascii "\x7b\"UserName\":\"bob\"\x7d"

/-- json-c for one text, the name of a user without an id. -/
def nameOnlyJson : JsonC where
  Object := Option Text
  parse t := if t = nameOnlyWorkload then some none else none
  objectGet
    | none, name => if name = ascii "UserName" then some (some (ascii "\"bob\"")) else none
    | some _, _ => none
  toJsonString
    | none => ascii "\x7b \"UserName\": \"bob\" \x7d"
    | some t => cstr t

theorem nameOnlyJson_prints : nameOnlyJson.PrintsText := by
  intro object
  cases object with
  | none =>
      change (0 : Byte) ∉ ascii "\x7b \"UserName\": \"bob\" \x7d"
      decide
  | some t =>
      intro h
      have hne := List.mem_takeWhile_imp h
      exact absurd rfl (of_decide_eq_true hne)

theorem nameOnlyWorkload_lacks (type : RecordType) :
    nameOnlyJson.Lacks type (cstr nameOnlyWorkload) := by
  have htext : cstr nameOnlyWorkload = nameOnlyWorkload := by decide +kernel
  refine .inr ⟨none, ?_, .inr ?_⟩
  · rw [htext]
    change (if nameOnlyWorkload = nameOnlyWorkload then some none else none) = some none
    exact if_pos rfl
  · change (if ascii "UserId" = ascii "UserName" then some (some (ascii "\"bob\"")) else none) = none
    exact if_neg (by decide)

/-- A set command without a value. -/
def lacksValue (argv : List Text) : Bool :=
  decide (argv.length < 3)

theorem badWorkload_changesNothing_iff_name_only :
    (nameOnlyJson.Lacks .userinfo (cstr nameOnlyWorkload) →
      (ChangesNothing lacksValue (syncUserInfo hiredisFormat nameOnlyJson nameOnlyWorkload) ↔
        nameOnlyJson.parse (cstr nameOnlyWorkload) = none ∨
          ∃ object name argv, nameOnlyJson.parse (cstr nameOnlyWorkload) = some object ∧
            Heard (nameOnlyJson.print (nameOnlyJson.objectGet object (nameField .userinfo))) name ∧
              hiredisFormat (ascii "set " ++ (ascii "U_" ++ name) ++ ascii " " ++ ascii "null") =
                some argv ∧ lacksValue argv = true)) ∧
    (nameOnlyJson.Lacks .userAndDeviceRelationship (cstr nameOnlyWorkload) →
      (ChangesNothing lacksValue
          (syncUserAndDeviceRelationShip hiredisFormat nameOnlyJson nameOnlyWorkload) ↔
        nameOnlyJson.parse (cstr nameOnlyWorkload) = none ∨
          ∃ object device argv, nameOnlyJson.parse (cstr nameOnlyWorkload) = some object ∧
            Heard (nameOnlyJson.print
              (nameOnlyJson.objectGet object (nameField .userAndDeviceRelationship))) device ∧
              hiredisFormat (ascii "set " ++ ascii "RP_null" ++ ascii " " ++ device) = some argv ∧
                lacksValue argv = true)) :=
  badWorkload_changesNothing_iff hiredisFormat_formats nameOnlyJson_prints (fun _ => rfl)
    (by decide +kernel)

/-- The name without an id: the key of the name is set to `null`, and success is reported. -/
theorem nameOnlyWorkload_sets_null :
    nameOnlyWorkload.length ≤ 127 ∧ nameOnlyJson.Lacks .userinfo (cstr nameOnlyWorkload) ∧
      ((syncUserInfo hiredisFormat nameOnlyJson nameOnlyWorkload).run (mapServer [])
        fun _ => none).result = some true ∧
      ((syncUserInfo hiredisFormat nameOnlyJson nameOnlyWorkload).run (mapServer [])
        fun _ => none).final (ascii "U_bob") = some (ascii "null") :=
  ⟨by decide +kernel, nameOnlyWorkload_lacks _, by decide +kernel, by decide +kernel⟩

end SyncData

end RobotServer
