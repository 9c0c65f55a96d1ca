import RobotServer.Interaction.Ensures
import RobotServer.Model.Services
import RobotServer.Model.SyncData
import RobotServer.Text.Words

/-!
# Commands — what becomes of `set key value`

hiredis reads the command as a format string: it is cut at spaces, `%%` stands for `%`, and any
other directive takes an argument, of which `set_key_toredis` passes none.  `HiredisFormats` is that
assumption; for a key and a value without spaces and percent signs the command sets the key
(`setKeyToredis_plain`), which is how the handlers' `setKeyToredis` has it from the start
(`setKeyToredis_agrees`).
-/

namespace RobotServer

namespace SyncData

open CText Memory Interaction Words

/-! ## Format strings -/

/-- The text a format string stands for when no arguments are passed; a percent sign at the end is
no directive. -/
def expandDirectives : Text → Option Text
  | [] => some []
  | [c] => some [c]
  | c :: d :: rest =>
      if c = 0x25 then
        if d = 0x25 then (expandDirectives rest).map (0x25 :: ·) else none
      else (expandDirectives (d :: rest)).map (c :: ·)

/-- The formatter of hiredis, where it is given a format string and no arguments. -/
def HiredisFormats (formatCommand : Text → Option (List Text)) : Prop :=
  ∀ t, formatCommand t = (expandDirectives t).map (words 0x20)

theorem expandDirectives_of_notMem (t : Text) :
    (0x25 : Byte) ∉ t → expandDirectives t = some t := by
  fun_induction expandDirectives t with
  | case1 => exact fun _ => rfl
  | case2 c => exact fun _ => rfl
  | case3 rest ih => exact fun h => absurd List.mem_cons_self h
  | case4 d rest hd => exact fun h => absurd List.mem_cons_self h
  | case5 c d rest hc ih =>
      intro h
      rw [ih fun hmem => h (List.mem_cons_of_mem c hmem)]
      rfl

/-- A text without directives stays in front of what the rest stands for. -/
theorem expandDirectives_append {t : Text} (h : (0x25 : Byte) ∉ t) (u : Text) :
    expandDirectives (t ++ u) = (expandDirectives u).map (t ++ ·) := by
  induction t with
  | nil => exact Option.map_id'.symm
  | cons c t ih =>
      have hc : c ≠ 0x25 := fun heq => h (heq ▸ List.mem_cons_self)
      have hrest := ih fun hmem => h (List.mem_cons_of_mem c hmem)
      have hcons : expandDirectives (c :: (t ++ u)) =
          (expandDirectives (t ++ u)).map (c :: ·) := by
        cases t ++ u with
        | nil => rfl
        | cons d rest => rw [expandDirectives, if_neg hc]
      rw [List.cons_append, hcons, hrest, Option.map_map]
      rfl

/-- Every percent sign that is left stands for two of the format string. -/
theorem count_expandDirectives (t : Text) :
    ∀ u, expandDirectives t = some u → t.getLast? ≠ some 0x25 →
      t.count 0x25 = 2 * u.count 0x25 := by
  fun_induction expandDirectives t with
  | case1 =>
      intro u hu _
      injection hu with hu
      subst hu
      rfl
  | case2 c =>
      intro u hu hlast
      injection hu with hu
      subst hu
      have hc : c ≠ 0x25 := fun heq => hlast (by rw [heq]; rfl)
      rw [List.count_singleton, beq_eq_false_iff_ne.mpr hc]
      rfl
  | case3 rest ih =>
      intro u hu hlast
      rcases Option.map_eq_some_iff.mp hu with ⟨v, hv, rfl⟩
      -- The end of the text is the end of what follows the directive.
      have hrest : rest.getLast? ≠ some 0x25 := by
        intro hr
        apply hlast
        rw [List.getLast?_cons, List.getLast?_cons, hr]
        rfl
      have hcount := ih v hv hrest
      rw [List.count_cons_self, List.count_cons_self, List.count_cons_self, hcount]
      omega
  | case4 d rest hd =>
      intro u hu
      cases hu
  | case5 c d rest hc ih =>
      intro u hu hlast
      rcases Option.map_eq_some_iff.mp hu with ⟨v, hv, rfl⟩
      have htail : (d :: rest).getLast? ≠ some 0x25 := by
        intro hr
        apply hlast
        rw [List.getLast?_cons, hr]
        rfl
      rw [List.count_cons_of_ne hc, List.count_cons_of_ne hc]
      exact ih v hv htail

/-! ## Plain texts -/

/-- A text that hiredis takes as one argument, as it is. -/
structure IsArgument (t : Text) : Prop where
  ne_nil : t ≠ []
  no_space : (0x20 : Byte) ∉ t
  no_percent : (0x25 : Byte) ∉ t

theorem IsArgument.append {t u : Text} (ht : IsArgument t) (hu : IsArgument u) :
    IsArgument (t ++ u) where
  ne_nil := List.append_ne_nil_of_left_ne_nil ht.ne_nil u
  no_space := by
    rw [List.mem_append, not_or]
    exact ⟨ht.no_space, hu.no_space⟩
  no_percent := by
    rw [List.mem_append, not_or]
    exact ⟨ht.no_percent, hu.no_percent⟩

theorem isArgument_natText (n : Nat) : IsArgument (natText n) where
  ne_nil := natText_ne_nil n
  no_space := fun h => absurd (isDigit_natText n _ h) (by decide)
  no_percent := fun h => absurd (isDigit_natText n _ h) (by decide)

instance (t : Text) : Decidable (IsArgument t) :=
  decidable_of_iff (t ≠ [] ∧ (0x20 : Byte) ∉ t ∧ (0x25 : Byte) ∉ t)
    ⟨fun h => ⟨h.1, h.2.1, h.2.2⟩, fun h => ⟨h.ne_nil, h.no_space, h.no_percent⟩⟩

/-- The text of the command, cut at its first space. -/
theorem words_command {key : Text} (value : Text) (hkey : (0x20 : Byte) ∉ key) (hne : key ≠ []) :
    words 0x20 (ascii "set " ++ key ++ ascii " " ++ value) =
      ascii "set" :: key :: words 0x20 value := by
  have htext : ascii "set " ++ key ++ ascii " " ++ value =
      ascii "set" ++ 0x20 :: (key ++ 0x20 :: value) := by
    have hset : ascii "set " = ascii "set" ++ [0x20] := by decide
    have hspace : ascii " " = [0x20] := by decide
    rw [hset, hspace]
    simp only [List.append_assoc, List.cons_append, List.nil_append]
  rw [htext, words_append_cons, words_append_cons,
    words_of_notMem (by decide : ascii "set" ≠ []) (by decide), words_of_notMem hne hkey]
  rfl

theorem setCommand_length (key value : Text) :
    (ascii "set " ++ key ++ ascii " " ++ value).length = key.length + value.length + 5 := by
  have hset : (ascii "set ").length = 4 := by decide
  have hspace : (ascii " ").length = 1 := by decide
  simp only [List.length_append, hset, hspace]
  omega

section SetKey

variable {formatCommand : Text → Option (List Text)} {key value : Text}

/-- A command that fits its buffer is sent as hiredis splits it. -/
theorem setKeyToredis_eq (hlen : key.length + value.length < 251) :
    setKeyToredis formatCommand key value =
      Program.ofOption (formatCommand (ascii "set " ++ key ++ ascii " " ++ value)) >>= fun argv =>
        Program.call (I := syncInterface) (.redisCommand argv) fun ok =>
          if (ok : Bool) then .ret 0 else .ret (-1) := by
  have hlength : (ascii "set " ++ key ++ ascii " " ++ value).length < 256 := by
    rw [setCommand_length]
    omega
  rw [setKeyToredis]
  dsimp only
  rw [if_pos hlength]
  rfl

theorem setKeyToredis_of_long (hlen : 251 ≤ key.length + value.length) :
    setKeyToredis formatCommand key value = .fault := by
  refine if_neg ?_
  rw [setCommand_length]
  omega

/-- The command for a key and a value that are arguments sets the key. -/
theorem setKeyToredis_plain (hformat : HiredisFormats formatCommand) (hkey : IsArgument key)
    (hvalue : IsArgument value) (hlen : key.length + value.length < 251) :
    setKeyToredis formatCommand key value =
      Program.call (I := syncInterface) (.redisCommand [ascii "set", key, value]) fun ok =>
        if (ok : Bool) then .ret 0 else .ret (-1) := by
  have hpercent : (0x25 : Byte) ∉ ascii "set " ++ key ++ ascii " " ++ value := by
    have hset : (0x25 : Byte) ∉ ascii "set " := by decide
    have hspace : (0x25 : Byte) ∉ ascii " " := by decide
    simp only [List.mem_append, not_or]
    exact ⟨⟨⟨hset, hkey.no_percent⟩, hspace⟩, hvalue.no_percent⟩
  have hargv : formatCommand (ascii "set " ++ key ++ ascii " " ++ value) =
      some [ascii "set", key, value] := by
    rw [hformat, expandDirectives_of_notMem _ hpercent, Option.map_some,
      words_command value hkey.no_space hkey.ne_nil, words_of_notMem hvalue.ne_nil hvalue.no_space]
  rw [setKeyToredis_eq hlen, hargv]
  rfl

/-- For such a key and value the jobs and the handlers do the same, where redis takes the command of
the one as the operation of the other. -/
theorem setKeyToredis_agrees (hformat : HiredisFormats formatCommand) (hkey : IsArgument key)
    (hvalue : IsArgument value) (hlen : key.length + value.length < 251) {σ : Type}
    {E : Environment serverInterface σ} {F : Environment syncInterface σ} {s : σ}
    (hredis : F.answer (.redisCommand [ascii "set", key, value]) s =
      (E.answer (.redisSet key value) s : Bool × σ)) :
    ((setKeyToredis formatCommand key value).run F s).result =
        ((RobotServer.setKeyToredis key value).run E s).result ∧
      ((setKeyToredis formatCommand key value).run F s).final =
        ((RobotServer.setKeyToredis key value).run E s).final := by
  have hhandler : RobotServer.setKeyToredis key value =
      Program.call (I := serverInterface) (.redisSet key value) fun ok =>
        if (ok : Bool) then .ret 0 else .ret (-1) := rfl
  rw [setKeyToredis_plain hformat hkey hvalue hlen, hhandler]
  simp only [Program.run]
  rw [hredis]
  cases (E.answer (.redisSet key value) s : Bool × σ).1 with
  | false => exact ⟨rfl, rfl⟩
  | true => exact ⟨rfl, rfl⟩

end SetKey

/-! ## Redis -/

/-- Redis as a map: `SET` changes its key or fails, a command leaves the keys alone that it does
not name, and a query is none of its business. -/
structure RedisServer {σ : Type} (E : Environment syncInterface σ)
    (store : σ → Text → Option Text) : Prop where
  set : ∀ s key value,
    ((E.answer (.redisCommand [ascii "set", key, value]) s).1 = true ∧
      store (E.answer (.redisCommand [ascii "set", key, value]) s).2 =
        Function.update (store s) key (some value)) ∨
    ((E.answer (.redisCommand [ascii "set", key, value]) s).1 = false ∧
      store (E.answer (.redisCommand [ascii "set", key, value]) s).2 = store s)
  other : ∀ s argv key, key ∉ argv → store (E.answer (.redisCommand argv) s).2 key = store s key
  query : ∀ s sql, store (E.answer (.executeQuery sql) s).2 = store s

/-- No write fails. -/
def WritesSucceed {σ : Type} (E : Environment syncInterface σ) : Prop :=
  ∀ s key value, (E.answer (.redisCommand [ascii "set", key, value]) s).1 = true

section Server

variable {σ : Type} {E : Environment syncInterface σ} {store : σ → Text → Option Text}

theorem RedisServer.store_set (hredis : RedisServer E store) (hwrites : WritesSucceed E) (s : σ)
    (key value : Text) :
    store (E.answer (.redisCommand [ascii "set", key, value]) s).2 =
      Function.update (store s) key (some value) := by
  rcases hredis.set s key value with ⟨-, hset⟩ | ⟨hfailed, -⟩
  · exact hset
  · rw [hwrites] at hfailed
    cases hfailed

end Server

/-- What hiredis makes of a format string without arguments. -/
def hiredisFormat (t : Text) : Option (List Text) :=
  (expandDirectives t).map (words 0x20)

theorem hiredisFormat_formats : HiredisFormats hiredisFormat :=
  fun _ => rfl

/-- A command to a server that keeps a map; it knows `set`. -/
def commandMap (store : Text → Option Text) : List Text → Text → Option Text
  | [command, key, value] =>
      if command = ascii "set" then Function.update store key (some value) else store
  | _ => store

/-- A map, where no write fails, and a database with the given rows. -/
def mapServer (rows : List (List Text)) : Environment syncInterface (Text → Option Text) where
  answer
    | .redisCommand argv, store => (true, commandMap store argv)
    | .executeQuery _, store => (rows, store)

theorem commandMap_of_notMem (store : Text → Option Text) {argv : List Text} {key : Text}
    (h : key ∉ argv) : commandMap store argv key = store key := by
  unfold commandMap
  split
  · next command key' value =>
      have hne : key ≠ key' := by
        rintro rfl
        exact h (List.mem_cons_of_mem _ List.mem_cons_self)
      split
      · exact Function.update_of_ne hne _ _
      · rfl
  · rfl

theorem mapServer_redis (rows : List (List Text)) : RedisServer (mapServer rows) fun s => s where
  set := fun _ _ _ => .inl ⟨rfl, rfl⟩
  other := fun s _ _ hkey => commandMap_of_notMem s hkey
  query := fun _ _ => rfl

theorem mapServer_writes (rows : List (List Text)) : WritesSucceed (mapServer rows) :=
  fun _ _ _ => rfl

end SyncData

end RobotServer
