import RobotServer.Sync.Records

/-!
# UserNames — the key of a user record

A user record is stored under `U_<name>`.  The name reaches redis through the format string of
`set_key_toredis`, and in a job through json-c as well, which escapes some characters, and through
the loop that takes the quotes off.  The command names the key it is meant for exactly when the
name is without spaces and percent signs and nothing of it was escaped
(`argument_of_mem_words`).
-/

namespace RobotServer

namespace SyncData

open CText Memory Interaction Words

/-! ## Names in a command -/

def nameKey (name : Text) : Text :=
  ascii "U_" ++ name

theorem nameKey_length (name : Text) : (nameKey name).length = name.length + 2 := by
  rw [nameKey, List.length_append, Nat.add_comm]
  rfl

theorem count_command (e : Text) (n : Nat) :
    (ascii "set " ++ nameKey e ++ ascii " " ++ natText n).count 0x25 = e.count 0x25 := by
  have hset : (ascii "set ").count 0x25 = 0 := by decide
  have hkey : (ascii "U_").count 0x25 = 0 := by decide
  have hspace : (ascii " ").count 0x25 = 0 := by decide
  have hn : (natText n).count 0x25 = 0 := List.count_eq_zero.mpr (isArgument_natText n).no_percent
  simp only [nameKey, List.count_append, hset, hkey, hspace, hn]
  omega

theorem getLast?_command (t : Text) (n : Nat) : (t ++ natText n).getLast? ≠ some 0x25 := by
  rw [List.getLast?_append_of_ne_nil _ (natText_ne_nil n)]
  exact fun h => (isArgument_natText n).no_percent (List.mem_of_getLast? h)

/-- Where the command that was made for the name `e` names the key of `s`, the two are the same and
the name is plain.  `e` is what became of `s`: it has no more spaces and percent signs. -/
theorem argument_of_mem_words {e s u : Text} {n : Nat}
    (hu : expandDirectives (ascii "set " ++ nameKey e ++ ascii " " ++ natText n) = some u)
    (hmem : nameKey s ∈ words 0x20 u) (hspace : (0x20 : Byte) ∉ s → (0x20 : Byte) ∉ e)
    (hcount : e.count 0x25 ≤ s.count 0x25) :
    e = s ∧ (0x20 : Byte) ∉ s ∧ (0x25 : Byte) ∉ s := by
  rcases sublist_of_mem_words hmem with ⟨hsublist, hnospace⟩
  have hs : (0x20 : Byte) ∉ s := fun h => hnospace (List.mem_append_right _ h)
  -- Two percent signs of the command make one of the argument.
  have hcommand := count_expandDirectives _ u hu (getLast?_command _ n)
  rw [count_command] at hcommand
  have hle : s.count 0x25 ≤ u.count 0x25 := by
    refine le_trans ?_ (hsublist.count_le 0x25)
    rw [nameKey, List.count_append]
    exact Nat.le_add_left _ _
  have hzero : s.count 0x25 = 0 := by omega
  have hpercent : (0x25 : Byte) ∉ s := List.count_eq_zero.mp hzero
  have hplain : (0x25 : Byte) ∉ ascii "set " ++ nameKey e ++ ascii " " ++ natText n := by
    refine List.count_eq_zero.mp ?_
    rw [count_command]
    omega
  rw [expandDirectives_of_notMem _ hplain] at hu
  injection hu with hu
  have hkey : (0x20 : Byte) ∉ nameKey e := by
    rw [nameKey, List.mem_append, not_or]
    exact ⟨by decide, hspace hs⟩
  rw [← hu, words_command _ hkey (List.append_ne_nil_of_left_ne_nil (by decide) _),
    words_of_notMem (natText_ne_nil n) (isArgument_natText n).no_space] at hmem
  refine ⟨?_, hs, hpercent⟩
  rcases List.mem_cons.mp hmem with hset | hmem
  · have hfirst : (0x55 : Byte) = 0x73 := congrArg (fun t : Text => t.getD 0 0) hset
    exact absurd hfirst (by decide)
  · rcases List.mem_cons.mp hmem with heq | hmem
    · exact (List.append_cancel_left heq).symm
    · have hn : nameKey s = natText n := List.mem_singleton.mp hmem
      have hdigit := isDigit_natText n 0x55 (by rw [← hn]; exact List.mem_cons_self)
      exact absurd hdigit (by decide)

/-! ## Programs that set one key -/

/-- Over every redis whose writes succeed, with the given rows in the database, the program
completes and sets that key and no other. -/
def SetsOnly {α : Type} (rows : List (List Text)) (p : Job α) (key value : Text) : Prop :=
  ∀ (σ : Type) (E : Environment syncInterface σ) (store : σ → Text → Option Text),
    RedisServer E store → WritesSucceed E →
    (∀ s, (E.answer (.executeQuery .selectUserinfoList) s).1 = rows) →
    ∀ s, Program.Ensures E p s fun _ _ s' => store s' = Function.update (store s) key (some value)

section Names

variable {formatCommand : Text → Option (List Text)} {α : Type} {f : Int → Job α}
  {rows : List (List Text)} {e s : Text} {n : Nat}

/-- What must hold of the name `e` in the command when the key of `s` has a value afterwards. -/
theorem plain_of_ensures (hformat : HiredisFormats formatCommand) (hf : ∀ r, ∃ a, f r = .ret a)
    (hspace : (0x20 : Byte) ∉ s → (0x20 : Byte) ∉ e) (hcount : e.count 0x25 ≤ s.count 0x25)
    (hset : Program.Ensures (mapServer rows) (setKeyToredis formatCommand (nameKey e) (natText n)
      >>= f) (fun _ => none) fun _ _ store => store (nameKey s) = some (natText n)) :
    e = s ∧ (0x20 : Byte) ∉ s ∧ (0x25 : Byte) ∉ s ∧
      (nameKey e).length + (natText n).length < 251 := by
  rcases hset with ⟨a, hresult, hkey⟩
  by_cases hlen : (nameKey e).length + (natText n).length < 251
  · rw [setKeyToredis_eq hlen] at hresult hkey
    cases hargv : formatCommand (ascii "set " ++ nameKey e ++ ascii " " ++ natText n) with
    | none =>
        rw [hargv] at hresult
        cases hresult
    | some argv =>
        rw [hargv] at hkey
        change ((f 0).run (mapServer rows) (commandMap (fun _ => none) argv)).final (nameKey s) =
          some (natText n) at hkey
        rcases hf 0 with ⟨a₀, ha₀⟩
        rw [ha₀, Program.run_ret] at hkey
        dsimp only at hkey
        -- An empty map holds the key only if the command named it.
        have hmem : nameKey s ∈ argv := by
          by_contra hnot
          rw [commandMap_of_notMem _ hnot] at hkey
          cases hkey
        rw [hformat] at hargv
        rcases Option.map_eq_some_iff.mp hargv with ⟨u, hu, rfl⟩
        have hplain := argument_of_mem_words hu hmem hspace hcount
        exact ⟨hplain.1, hplain.2.1, hplain.2.2, hlen⟩
  · rw [setKeyToredis_of_long (Nat.not_lt.mp hlen)] at hresult
    cases hresult

/-- A plain name is set under its key. -/
theorem setsOnly_of_plain (hformat : HiredisFormats formatCommand)
    (hf : ∀ r, ∃ a, f r = .ret a) (hspace : (0x20 : Byte) ∉ s) (hpercent : (0x25 : Byte) ∉ s)
    (hlen : (nameKey s).length + (natText n).length < 251) :
    SetsOnly rows (setKeyToredis formatCommand (nameKey s) (natText n) >>= f) (nameKey s)
      (natText n) := by
  intro σ E store hredis hwrites _ s₀
  have hkey : IsArgument (nameKey s) := by
    refine ⟨List.append_ne_nil_of_left_ne_nil (by decide) _, ?_, ?_⟩
    · rw [nameKey, List.mem_append, not_or]
      exact ⟨by decide, hspace⟩
    · rw [nameKey, List.mem_append, not_or]
      exact ⟨by decide, hpercent⟩
  rw [setKeyToredis_plain hformat hkey (isArgument_natText n) hlen, Program.call_bind]
  refine Program.Ensures.call ?_
  rw [hwrites]
  rcases hf 0 with ⟨a, ha⟩
  change Program.Ensures E (f 0) _ _
  rw [ha]
  exact Program.Ensures.ret (hredis.store_set hwrites s₀ _ _)

/-! ## The row of a table -/

/-- What the loader does with a table of one row. -/
theorem userInfoRows_singleton (hname : s.length ≤ 16) :
    userInfoRows formatCommand [[natText n, s]] =
      setKeyToredis formatCommand (nameKey s) (natText n) >>= fun _ => .ret () := by
  have hfits : sprintf (ascii "U_" ++ s) = some (nameKey s) := by
    refine if_pos ?_
    change (nameKey s).length < 20
    rw [nameKey_length]
    omega
  rw [userInfoRows, hfits, Program.ofOption_some, Program.ret_bind]
  refine congrArg (setKeyToredis formatCommand (nameKey s) (natText n) >>= ·) (funext fun r => ?_)
  split
  · rfl
  · rfl

theorem initUserInfoList_setsOnly_iff (hformat : HiredisFormats formatCommand)
    (hname : s.length ≤ 16) :
    SetsOnly [[natText n, s]] (initUserInfoList formatCommand) (nameKey s) (natText n) ↔
      (0x20 : Byte) ∉ s ∧ (0x25 : Byte) ∉ s ∧ s.length + (natText n).length < 249 := by
  constructor
  · intro h
    have hrun : Program.Ensures (mapServer [[natText n, s]])
        (userInfoRows formatCommand [[natText n, s]]) (fun _ => none) fun _ _ store =>
          store = Function.update (fun _ => none) (nameKey s) (some (natText n)) :=
      h _ _ _ (mapServer_redis _) (mapServer_writes _) (fun _ => rfl) _
    -- The rows hold one user, so one command has to have named the key.
    have hset : Program.Ensures (mapServer [[natText n, s]])
        (userInfoRows formatCommand [[natText n, s]]) (fun _ => none) fun _ _ store =>
          store (nameKey s) = some (natText n) :=
      Program.Ensures.mono hrun fun _ _ _ hstore => by rw [hstore, Function.update_self]
    rw [userInfoRows_singleton hname] at hset
    have hplain := plain_of_ensures hformat (fun _ => ⟨(), rfl⟩) (fun h => h) le_rfl hset
    rw [nameKey_length] at hplain
    exact ⟨hplain.2.1, hplain.2.2.1, by omega⟩
  · rintro ⟨hspace, hpercent, hlen⟩ σ E store hredis hwrites hrows s₀
    refine Program.Ensures.call ?_
    rw [hrows]
    change Program.Ensures E (userInfoRows formatCommand [[natText n, s]]) _ _
    rw [userInfoRows_singleton hname]
    have hroom : (nameKey s).length + (natText n).length < 251 := by
      rw [nameKey_length]
      omega
    have hset := setsOnly_of_plain hformat (fun _ => ⟨(), rfl⟩) hspace hpercent hroom σ E store
      hredis hwrites hrows (E.answer (.executeQuery .selectUserinfoList) s₀).2
    rw [hredis.query] at hset
    exact hset

end Names

/-! ## The record of a job -/

/-- The escapes of json-c: a character is printed as it is or as a backslash and what names it, and
an escape brings in no NUL, space, quote or percent sign.  Quotes are escaped, percent signs not. -/
structure JsonEscapes (esc : Byte → Text) : Prop where
  escape : ∀ c, esc c = [c] ∨ ∃ d t, esc c = 0x5C :: d :: t
  brings_in : ∀ c, ∀ x ∈ esc c, x = c ∨ (x ≠ 0 ∧ x ≠ 0x20 ∧ x ≠ 0x22 ∧ x ≠ 0x25)
  quote : esc 0x22 ≠ [0x22]
  percent : esc 0x25 = [0x25]

/-- json-c reads a record from the text: the number is printed in decimal, the name between quotes
and with escapes. -/
def JsonC.ReadsUser (json : JsonC) (esc : Byte → Text) (text : Text) (n : Nat) (s : Text) : Prop :=
  ∃ object id name, json.parse text = some object ∧
    json.objectGet object (ascii "UserId") = some id ∧
    json.objectGet object (ascii "UserName") = some name ∧
    json.toJsonString id = natText n ∧
    json.toJsonString name = 0x22 :: (s.flatMap esc ++ [0x22])

/-- What the job takes for the name: the printed text up to its first quote. -/
def heardName (esc : Byte → Text) (s : Text) : Text :=
  (s.flatMap esc).takeWhile fun c => decide (c ≠ 0x22)

theorem exists_quote_split (t : Text) :
    ∃ rest, t ++ [0x22] = (t.takeWhile fun c => decide (c ≠ 0x22)) ++ 0x22 :: rest := by
  induction t with
  | nil => exact ⟨[], rfl⟩
  | cons c t ih =>
      by_cases hc : c = 0x22
      · subst hc
        exact ⟨t ++ [0x22], rfl⟩
      · rcases ih with ⟨rest, hrest⟩
        refine ⟨rest, ?_⟩
        have hne : decide (c ≠ 0x22) = true := decide_eq_true hc
        simp only [List.takeWhile_cons, hne, if_true, List.cons_append, hrest]

section Heard

variable {esc : Byte → Text} (hesc : JsonEscapes esc) {s : Text}

theorem heardName_length_le (esc : Byte → Text) (s : Text) :
    (heardName esc s).length ≤ (s.flatMap esc).length :=
  (List.takeWhile_sublist _).length_le

theorem ne_quote_of_mem_heardName {c : Byte} (hc : c ∈ heardName esc s) : c ≠ 0x22 :=
  of_decide_eq_true (List.mem_takeWhile_imp (p := fun c => decide (c ≠ 0x22)) hc)

include hesc

/-- A special character of the printed text is one of the name. -/
theorem mem_of_mem_heardName {x : Byte} (hx : x ∈ heardName esc s)
    (hspecial : x = 0 ∨ x = 0x20 ∨ x = 0x22 ∨ x = 0x25) : x ∈ s := by
  rcases List.mem_flatMap.mp ((List.takeWhile_sublist _).subset hx) with ⟨c, hc, hxc⟩
  rcases hesc.brings_in c x hxc with rfl | ⟨h0, h20, h22, h25⟩
  · exact hc
  · rcases hspecial with rfl | rfl | rfl | rfl
    · exact absurd rfl h0
    · exact absurd rfl h20
    · exact absurd rfl h22
    · exact absurd rfl h25

theorem count_flatMap_escapes (s : Text) : (s.flatMap esc).count 0x25 = s.count 0x25 := by
  induction s with
  | nil => rfl
  | cons c s ih =>
      rw [List.flatMap_cons, List.count_append, ih]
      by_cases hc : c = 0x25
      · rw [hc, hesc.percent, List.count_singleton_self, List.count_cons_self, Nat.add_comm]
      · have hnone : (0x25 : Byte) ∉ esc c := by
          intro hmem
          rcases hesc.brings_in c _ hmem with heq | hne
          · exact hc heq.symm
          · exact hne.2.2.2 rfl
        rw [List.count_eq_zero.mpr hnone, Nat.zero_add, List.count_cons_of_ne hc]

/-- The printed text is longer than the name where anything is escaped. -/
theorem length_flatMap_escapes (s : Text) :
    s.length ≤ (s.flatMap esc).length ∧
      ((s.flatMap esc).length = s.length → ∀ c ∈ s, esc c = [c]) := by
  induction s with
  | nil => exact ⟨le_rfl, fun _ => List.forall_mem_nil _⟩
  | cons c s ih =>
      rw [List.flatMap_cons, List.length_append, List.length_cons]
      rcases hesc.escape c with hplain | ⟨d, t, hescaped⟩
      · rw [hplain, List.length_singleton]
        refine ⟨by omega, fun hlen => ?_⟩
        rw [List.forall_mem_cons]
        exact ⟨hplain, ih.2 (by omega)⟩
      · rw [hescaped, List.length_cons, List.length_cons]
        exact ⟨by omega, fun hlen => by omega⟩

/-- The job hears the name exactly when nothing of it was escaped. -/
theorem heardName_eq_iff (s : Text) : heardName esc s = s ↔ ∀ c ∈ s, esc c = [c] := by
  constructor
  · intro h
    -- A name with a quote is cut there, so no quote is printed and nothing is cut.
    have hnoquote : ∀ c ∈ s, c ≠ 0x22 := by
      intro c hc
      rw [← h] at hc
      exact ne_quote_of_mem_heardName hc
    have hprinted : ∀ x ∈ s.flatMap esc, decide (x ≠ 0x22) = true := by
      intro x hx
      rcases List.mem_flatMap.mp hx with ⟨c, hc, hxc⟩
      rcases hesc.brings_in c x hxc with rfl | hne
      · exact decide_eq_true (hnoquote x hc)
      · exact decide_eq_true hne.2.2.1
    rw [heardName, List.takeWhile_eq_self_iff.mpr hprinted] at h
    exact (length_flatMap_escapes hesc s).2 (congrArg List.length h)
  · intro hplain
    have hprinted : s.flatMap esc = s := by
      rw [List.flatMap_congr hplain]
      exact List.flatMap_singleton' s
    rw [heardName, hprinted, List.takeWhile_eq_self_iff]
    intro c hc
    refine decide_eq_true ?_
    rintro rfl
    exact hesc.quote (hplain _ hc)

end Heard

section Records

variable {formatCommand : Text → Option (List Text)} {json : JsonC} {esc : Byte → Text}
  {workload : List Byte} {n : Nat} {s : Text} {rows : List (List Text)}

/-- What the job does with a record: it completes when the workload and the printed fields fit
their buffers. -/
theorem syncUserInfo_eq (hesc : JsonEscapes esc) (hzero : (0 : Byte) ∉ s)
    (hjson : json.ReadsUser esc (cstr workload) n s) :
    syncUserInfo formatCommand json workload =
      if FitsJsonBuffer workload ∧ (s.flatMap esc).length < 18 ∧ (natText n).length < 20 then
        setKeyToredis formatCommand (nameKey (heardName esc s)) (natText n) >>= fun result =>
          .ret (if result = -1 then false else true)
      else .fault := by
  rcases hjson with ⟨object, id, name, hparse, hid, hname, hidText, hnameText⟩
  obtain ⟨rest, hrest⟩ : ∃ rest, s.flatMap esc ++ [0x22] = heardName esc s ++ 0x22 :: rest :=
    exists_quote_split (s.flatMap esc)
  have hprintId : json.print (json.objectGet object (ascii "UserId")) = natText n := by
    rw [hid]
    exact hidText
  have hprintName : json.print (json.objectGet object (nameField .userinfo)) =
      0x22 :: (heardName esc s ++ 0x22 :: rest) := by
    change json.print (json.objectGet object (ascii "UserName")) = _
    rw [hname]
    exact hnameText.trans (congrArg (0x22 :: ·) hrest)
  have hnoquote : (0x22 : Byte) ∉ heardName esc s :=
    fun h => ne_quote_of_mem_heardName h rfl
  have hnozero : (0 : Byte) ∉ heardName esc s :=
    fun h => hzero (mem_of_mem_heardName hesc h (.inl rfl))
  have hnumber : (0 : Byte) ∉ natText n :=
    fun h => absurd (isDigit_natText n _ h) (by decide)
  -- What json-c prints for the name is two quotes longer than the escaped name.
  have hprinted : (0x22 :: (heardName esc s ++ 0x22 :: rest)).length =
      (s.flatMap esc).length + 2 := by
    rw [← hrest, List.length_cons, List.length_append]
    rfl
  rw [syncUserInfo, jsonBuffer]
  by_cases hroom : FitsJsonBuffer workload
  · rw [if_pos hroom, Program.ofOption_some, Program.ret_bind,
      parserJsonTokener_printed hparse hprintName hprintId hnoquote hnozero hnumber, hprinted]
    by_cases hfit : (s.flatMap esc).length < 18 ∧ (natText n).length < 20
    -- A name of at most seventeen bytes leaves room for its prefix and its zero.
    · have hlen := heardName_length_le esc s
      have hkey : sprintf (ascii "U_" ++ heardName esc s) = some (nameKey (heardName esc s)) := by
        refine if_pos ?_
        change (nameKey (heardName esc s)).length < 20
        rw [nameKey_length]
        omega
      rw [if_pos ⟨by omega, hfit.2⟩, if_pos ⟨hroom, hfit⟩, Program.ofOption_some,
        Program.ret_bind]
      dsimp only
      rw [hkey, Program.ofOption_some, Program.ret_bind]
      refine congrArg (setKeyToredis formatCommand _ (natText n) >>= ·) (funext fun r => ?_)
      split
      · rfl
      · rfl
    -- One of the two words overruns its array on the stack.
    · rw [if_neg fun h => hfit ⟨by omega, h.2⟩, if_neg fun h => hfit h.2]
      rfl
  · rw [if_neg hroom, if_neg fun h => hroom h.1]
    rfl

theorem syncUserInfo_setsOnly_iff (hformat : HiredisFormats formatCommand)
    (hesc : JsonEscapes esc) (hname : s.length ≤ 16) (hzero : (0 : Byte) ∉ s)
    (hjson : json.ReadsUser esc (cstr workload) n s) :
    SetsOnly rows (syncUserInfo formatCommand json workload) (nameKey s) (natText n) ↔
      (0x20 : Byte) ∉ s ∧ (0x25 : Byte) ∉ s ∧ (∀ c ∈ s, esc c = [c]) ∧ FitsJsonBuffer workload ∧
        (natText n).length < 20 := by
  rw [syncUserInfo_eq hesc hzero hjson]
  by_cases hfit : FitsJsonBuffer workload ∧ (s.flatMap esc).length < 18 ∧ (natText n).length < 20
  · rw [if_pos hfit]
    constructor
    · intro h
      -- The server that stores what it is told shows which key was written.
      have hset := Program.Ensures.mono
        (h _ _ _ (mapServer_redis rows) (mapServer_writes rows) (fun _ => rfl) fun _ => none)
        fun _ _ store (hstore : store = _) => show store (nameKey s) = some (natText n) by
          rw [hstore, Function.update_self]
      -- Escaping adds no directive, so a heard name has no more of them than the name.
      have hcount : (heardName esc s).count 0x25 ≤ s.count 0x25 := by
        rw [← count_flatMap_escapes hesc s]
        exact (List.takeWhile_sublist _).count_le 0x25
      have hplain := plain_of_ensures hformat (fun r => ⟨_, rfl⟩)
        (fun hs h => hs (mem_of_mem_heardName hesc h (.inr (.inl rfl)))) hcount hset
      exact ⟨hplain.2.1, hplain.2.2.1, (heardName_eq_iff hesc s).mp hplain.1, hfit.1, hfit.2.2⟩
    · rintro ⟨hspace, hpercent, hplain, -, hid⟩
      rw [(heardName_eq_iff hesc s).mpr hplain]
      refine setsOnly_of_plain hformat (fun r => ⟨_, rfl⟩) hspace hpercent ?_
      rw [nameKey_length]
      omega
  · rw [if_neg hfit]
    refine iff_of_false ?_ ?_
    · intro h
      rcases h _ _ _ (mapServer_redis rows) (mapServer_writes rows) (fun _ => rfl) fun _ => none with
        ⟨a, hresult, -⟩
      cases hresult
    · rintro ⟨-, -, hplain, hroom, hid⟩
      refine hfit ⟨hroom, ?_, hid⟩
      rw [List.flatMap_congr hplain, List.flatMap_singleton']
      omega

/-- When a user record, as a row or as a job, touches its own key only. -/
theorem userRecord_setsOnly_iff (hformat : HiredisFormats formatCommand) (hesc : JsonEscapes esc)
    (hname : s.length ≤ 16) (hzero : (0 : Byte) ∉ s)
    (hjson : json.ReadsUser esc (cstr workload) n s) :
    (SetsOnly [[natText n, s]] (initUserInfoList formatCommand) (nameKey s) (natText n) ↔
      (0x20 : Byte) ∉ s ∧ (0x25 : Byte) ∉ s ∧ s.length + (natText n).length < 249) ∧
    (SetsOnly rows (syncUserInfo formatCommand json workload) (nameKey s) (natText n) ↔
      (0x20 : Byte) ∉ s ∧ (0x25 : Byte) ∉ s ∧ (∀ c ∈ s, esc c = [c]) ∧ FitsJsonBuffer workload ∧
        (natText n).length < 20) :=
  ⟨initUserInfoList_setsOnly_iff hformat hname,
    syncUserInfo_setsOnly_iff hformat hesc hname hzero hjson⟩

end Records

/-- The escapes as json-c writes them. -/
def jsonEscape (c : Byte) : Text :=
  if c = 0x08 then [0x5C, 0x62]
  else if c = 0x0A then [0x5C, 0x6E]
  else if c = 0x0D then [0x5C, 0x72]
  else if c = 0x09 then [0x5C, 0x74]
  else if c = 0x0C then [0x5C, 0x66]
  else if c = 0x22 ∨ c = 0x5C ∨ c = 0x2F then [0x5C, c]
  else if c < 0x20 then
    [0x5C, 0x75, 0x30, 0x30, digitChar (c.toNat / 16),
      if c % 16 < 10 then 0x30 + c % 16 else 0x57 + c % 16]
  else [c]

theorem jsonEscape_escapes : JsonEscapes jsonEscape where
  escape := by
    intro c
    unfold jsonEscape
    split
    · exact .inr ⟨_, _, rfl⟩
    split
    · exact .inr ⟨_, _, rfl⟩
    split
    · exact .inr ⟨_, _, rfl⟩
    split
    · exact .inr ⟨_, _, rfl⟩
    split
    · exact .inr ⟨_, _, rfl⟩
    split
    · exact .inr ⟨_, _, rfl⟩
    split
    · exact .inr ⟨_, _, rfl⟩
    · exact .inl rfl
  brings_in := by
    -- The two hundred and fifty-six bytes are run through once.
    have hall : ∀ c, (jsonEscape c).all (fun x => x == c ||
        (x != 0 && x != 0x20 && x != 0x22 && x != 0x25)) = true := forall_byte (by decide +kernel)
    intro c x hx
    have hbyte := List.all_eq_true.mp (hall c) x hx
    simpa [and_assoc] using hbyte
  quote := by decide
  percent := by decide

def slashWorkload : List Byte :=
  ascii "\x7b\"UserId\":7,\"UserName\":\"a/b\"\x7d"

theorem slashWorkload_reads :
    (recordJson (ascii "UserName") jsonEscape).ReadsUser jsonEscape (cstr slashWorkload) 7
      (ascii "a/b") := by
  have hparse := recordJson_parse (ascii "UserName") jsonEscape (ascii "\"UserName\":\"") rfl 7
    (s := ascii "a/b") (by decide +kernel)
  exact ⟨_, .inr (natText 7), .inr (0x22 :: ((ascii "a/b").flatMap jsonEscape ++ [0x22])), hparse,
    rfl, rfl, rfl, rfl⟩

/-- A slash is escaped in a job, and left alone in a row. -/
theorem userRecord_setsOnly_iff_slash :
    (SetsOnly [[natText 7, ascii "a/b"]] (initUserInfoList hiredisFormat) (nameKey (ascii "a/b"))
        (natText 7) ↔
      (0x20 : Byte) ∉ ascii "a/b" ∧ (0x25 : Byte) ∉ ascii "a/b" ∧
        (ascii "a/b").length + (natText 7).length < 249) ∧
    (SetsOnly [] (syncUserInfo hiredisFormat (recordJson (ascii "UserName") jsonEscape)
        slashWorkload) (nameKey (ascii "a/b")) (natText 7) ↔
      (0x20 : Byte) ∉ ascii "a/b" ∧ (0x25 : Byte) ∉ ascii "a/b" ∧
        (∀ c ∈ ascii "a/b", jsonEscape c = [c]) ∧ FitsJsonBuffer slashWorkload ∧
        (natText 7).length < 20) :=
  userRecord_setsOnly_iff hiredisFormat_formats jsonEscape_escapes (by decide) (by decide)
    slashWorkload_reads

/-- The record of the user `a%%b` rewrites the key of the user `a%b`. -/
theorem percentName_rewrites :
    ((initUserInfoList hiredisFormat).run (mapServer [[natText 7, ascii "a%%b"]])
        fun _ => none).final (nameKey (ascii "a%b")) = some (natText 7) ∧
      ¬ SetsOnly [[natText 7, ascii "a%%b"]] (initUserInfoList hiredisFormat)
        (nameKey (ascii "a%%b")) (natText 7) := by
  refine ⟨by decide +kernel, ?_⟩
  intro h
  rcases h _ _ _ (mapServer_redis _) (mapServer_writes _) (fun _ => rfl) fun _ => none with
    ⟨a, -, hstore⟩
  have hkey := congrFun hstore (nameKey (ascii "a%%b"))
  exact absurd hkey (by decide +kernel)

end SyncData

end RobotServer
