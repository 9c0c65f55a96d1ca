import RobotServer.Accounts.SignIn

/-!
# Passwords — registrations and password updates

An update packet hands its name and its password to `updatePassword` in the wrong order, so that
the accounts named like the password get the name as their password.  `passwords_iff` says when
this is the update the packet asks for, and that in a run whose updates all are, the passwords
stored are the ones given last.  Both are about packets whose fields mean themselves between the
quotes of a statement.
-/

namespace RobotServer

open CText Memory Interaction

/-! ## Updates -/

/-- The update with exchanged arguments changes nothing that the right one would not: both texts
are the same, or the accounts of either name already have the other text as their password. -/
def Harmless (name password : Text) (rows : List UserRow) : Prop :=
  name = password ∨ (∀ r ∈ rows, r.uName = name → r.uPwd = password) ∧
    ∀ r ∈ rows, r.uName = password → r.uPwd = name

/-- One row under both updates. -/
theorem setPassword_row_iff {name password : Text} (hne : name ≠ password) (r : UserRow) :
    ((if r.uName = password then { r with uPwd := name } else r) =
        if r.uName = name then { r with uPwd := password } else r) ↔
      (r.uName = name → r.uPwd = password) ∧ (r.uName = password → r.uPwd = name) := by
  rcases r with ⟨uId, uName, uPwd⟩
  dsimp only
  by_cases hname : uName = name
  · subst hname
    rw [if_neg hne, if_pos rfl]
    constructor
    · intro h
      injection h with _ _ hpassword
      exact ⟨fun _ => hpassword, fun h => absurd h hne⟩
    · rintro ⟨hpassword, -⟩
      rw [hpassword rfl]
  · rw [if_neg hname]
    by_cases hpassword : uName = password
    · subst hpassword
      rw [if_pos rfl]
      constructor
      · intro h
        injection h with _ _ hname'
        exact ⟨fun h => absurd h hname, fun _ => hname'.symm⟩
      · rintro ⟨-, hname'⟩
        rw [hname' rfl]
    · rw [if_neg hpassword]
      exact ⟨fun _ => ⟨fun h => absurd h hname, fun h => absurd h hpassword⟩, fun _ => rfl⟩

/-- The exchanged update is the right one exactly on the tables where it is harmless. -/
theorem setPassword_eq_iff (name password : Text) (rows : List UserRow) :
    setPassword password name rows = setPassword name password rows ↔
      Harmless name password rows := by
  by_cases heq : name = password
  · subst heq
    exact ⟨fun _ => .inl rfl, fun _ => rfl⟩
  · unfold setPassword Harmless
    rw [List.map_inj_left]
    constructor
    · intro h
      right
      refine ⟨?_, ?_⟩
      · intro r hr
        exact ((setPassword_row_iff heq r).mp (h r hr)).1
      · intro r hr
        exact ((setPassword_row_iff heq r).mp (h r hr)).2
    · rintro (hsame | ⟨hname, hpassword⟩) r hr
      · exact absurd hsame heq
      · exact (setPassword_row_iff heq r).mpr ⟨hname r hr, hpassword r hr⟩

/-! ## Passwords given -/

/-- The password of the newest account with a name. -/
def storedPassword (rows : List UserRow) (name : Text) : Option Text :=
  ((rows.filter fun r => r.uName = name).getLast?).map UserRow.uPwd

/-- The packet registers an account. -/
abbrev Arrival.registers (a : Arrival) : Prop :=
  a.packet.peek idxPhoneCommand = cmdPhoneRegisterUser

/-- The packet updates a password. -/
abbrev Arrival.updates (a : Arrival) : Prop :=
  a.packet.peek idxPhoneCommand = cmdPhoneUpdatePwd

theorem Arrival.not_registers {a : Arrival} (h : a.updates) : ¬ a.registers := by
  intro hregisters
  exact absurd (h.symm.trans hregisters) (by decide)

/-- The password stored for a name is the one given by the last packet that names it. -/
def Current (rows : List UserRow) (packets : List Arrival) : Prop :=
  ∀ before a after, packets = before ++ a :: after →
    (∀ b ∈ after, operatorName b.packet ≠ operatorName a.packet) →
      (a.registers →
        storedPassword rows (operatorName a.packet) = some (operatorPassword a.packet)) ∧
      (a.updates → ∀ r ∈ rows, r.uName = operatorName a.packet →
        r.uPwd = operatorPassword a.packet)

/-- The table an operator packet asks for; `id` is the id of a new row. -/
def requested (id : UInt32) (a : Arrival) (rows : List UserRow) : List UserRow :=
  if a.registers then
    rows ++ [⟨id, operatorName a.packet, operatorPassword a.packet⟩]
  else setPassword (operatorName a.packet) (operatorPassword a.packet) rows

/-- The accounts of another name stay. -/
theorem filter_requested {name : Text} {a : Arrival} (h : operatorName a.packet ≠ name)
    (id : UInt32) (rows : List UserRow) :
    (requested id a rows).filter (fun r => r.uName = name) =
      rows.filter fun r => r.uName = name := by
  unfold requested
  split
  · simp [List.filter_append, h]
  · unfold setPassword
    induction rows with
    | nil => rfl
    | cons r rows ih =>
        rw [List.map_cons, List.filter_cons, List.filter_cons, ih]
        by_cases hname : r.uName = operatorName a.packet
        · have hother : ¬ r.uName = name := fun heq => h (hname.symm.trans heq)
          simp [hname, h]
        · simp [hname]

/-- A packet that gets what it asks for keeps the passwords current. -/
theorem Current.append {rows : List UserRow} {packets : List Arrival}
    (h : Current rows packets) (id : UInt32) (last : Arrival) :
    Current (requested id last rows) (packets ++ [last]) := by
  intro before a after hsplit hlater
  -- The request is the last one, or the last one is about another user.
  rcases append_singleton_cases hsplit with ⟨rfl, rfl⟩ | ⟨after', rfl, hpackets⟩
  · refine ⟨?_, ?_⟩
    · intro hregisters
      rw [requested, if_pos hregisters, storedPassword, List.filter_append]
      simp
    · intro hupdates r hr hname
      rw [requested, if_neg (Arrival.not_registers hupdates)] at hr
      rcases List.mem_map.mp hr with ⟨r', -, rfl⟩
      by_cases hname' : r'.uName = operatorName a.packet
      · rw [if_pos hname']
      · rw [if_neg hname'] at hname
        exact absurd hname hname'
  · have hother : operatorName last.packet ≠ operatorName a.packet := hlater last (by simp)
    have hfilter := filter_requested hother id rows
    rcases h before a after' hpackets (fun b hb => hlater b (List.mem_append_left _ hb)) with
      ⟨hregistered, hupdated⟩
    refine ⟨?_, ?_⟩
    · intro hregisters
      rw [storedPassword, hfilter]
      exact hregistered hregisters
    · intro hupdates r hr hname
      have hmem : r ∈ (requested id last rows).filter
          fun r => r.uName = operatorName a.packet := List.mem_filter.mpr ⟨hr, by simp [hname]⟩
      rw [hfilter] at hmem
      exact hupdated hupdates r (List.mem_filter.mp hmem).1 hname

/-! ## Packets and runs -/

/-- Neither field of the packet has anything in it that means something else between quotes. -/
def Arrival.IsClean (a : Arrival) : Prop :=
  SqlText.IsClean 0x27 (operatorName a.packet) ∧ SqlText.IsClean 0x27 (operatorPassword a.packet)

section Run

variable {σ : Type} {E : Environment serverInterface σ} {table : σ → List UserRow}
  {nextId : σ → UInt32}

/-- The query of a registration changes nothing, whatever it finds. -/
theorem selectUserId_table (hstatements : LawfulStatements E table nextId)
    (userName password : Text) (userId : UInt32) (s : σ) :
    Program.Ensures E (selectUserId userName password userId) s fun _ _ s' =>
      table s' = table s := by
  have htable := (hstatements.other s (.executeQuery .selectUserid [userName, password]) rfl).1
  apply Program.Ensures.call
  cases (E.answer (.executeQuery .selectUserid [userName, password]) s).1 with
  | none => exact .ret htable
  | some rows => exact .ret htable

/-- A registration is carried out as it is requested. -/
theorem serve_register (hstatements : LawfulStatements E table nextId) {a : Arrival}
    (hoperator : a.IsOperator) (hclean : a.IsClean) (hregisters : a.registers) (s : σ) :
    table (a.serve.run E s).final = requested (nextId s) a (table s) := by
  have hhandler : ∀ s', table s' = table s → nextId s' = nextId s →
      Program.Ensures E (phoneOperatorUserInfo a.packet) s' fun _ _ s'' =>
        table s'' = requested (nextId s) a (table s) := by
    intro s' htable hnext
    have hinsert := hstatements.insert s' _ _ hclean.1 hclean.2
    rw [htable, hnext] at hinsert
    unfold phoneOperatorUserInfo
    dsimp only
    rw [if_pos hregisters, requested, if_pos hregisters, ← hinsert]
    apply Program.Ensures.call
    refine (selectUserId_table hstatements _ _ 0 _).bind ?_
    -- Either reply leaves the table as the insertion made it.
    rintro _ ⟨found, userId⟩ s₁ hselected
    dsimp only
    by_cases hfound : found = .ok
    · rw [if_pos hfound]
      exact (returnPacket_ensures hstatements _ s₁).mono fun _ _ _ h => h.2.trans hselected
    · rw [if_neg hfound]
      exact (returnPacket_ensures hstatements _ s₁).mono fun _ _ _ h => h.2.trans hselected
  rcases serve_operator_ensures (Q := fun _ s' => table s' = requested (nextId s) a (table s))
    hstatements hoperator hhandler with ⟨_, _, hrows⟩
  exact hrows

/-- An update is carried out with its arguments exchanged. -/
theorem serve_update (hstatements : LawfulStatements E table nextId) {a : Arrival}
    (hoperator : a.IsOperator) (hclean : a.IsClean) (hupdates : a.updates) (s : σ) :
    table (a.serve.run E s).final =
      setPassword (operatorPassword a.packet) (operatorName a.packet) (table s) := by
  have hhandler : ∀ s', table s' = table s → nextId s' = nextId s →
      Program.Ensures E (phoneOperatorUserInfo a.packet) s' fun _ _ s'' =>
        table s'' = setPassword (operatorPassword a.packet) (operatorName a.packet) (table s) := by
    intro s' htable _
    have hregister : ¬ a.packet.peek idxPhoneCommand = cmdPhoneRegisterUser :=
      Arrival.not_registers hupdates
    have hsignin : ¬ a.packet.peek idxPhoneCommand = cmdPhoneSigninUser := by simp [hupdates]
    have hupdate := hstatements.update s' _ _ hclean.2 hclean.1
    rw [htable] at hupdate
    unfold phoneOperatorUserInfo
    dsimp only
    rw [if_neg hregister, if_neg hsignin, if_pos hupdates, ← hupdate]
    apply Program.Ensures.call
    exact (returnPacket_ensures hstatements _ _).mono fun _ _ _ h => h.2
  rcases serve_operator_ensures
    (Q := fun _ s' =>
      table s' = setPassword (operatorPassword a.packet) (operatorName a.packet) (table s))
    hstatements hoperator hhandler with ⟨_, _, hrows⟩
  exact hrows

/-- Every update of the run is harmless for the table it finds. -/
def UpdatesHarmless (E : Environment serverInterface σ) (table : σ → List UserRow) (s : σ)
    (packets : List Arrival) : Prop :=
  ∀ (n : Nat) a, packets[n]? = some a → a.updates →
    Harmless (operatorName a.packet) (operatorPassword a.packet)
      (table (serveAll E s (packets.take n)))

theorem UpdatesHarmless.take {s : σ} {packets : List Arrival}
    (h : UpdatesHarmless E table s packets) (m : Nat) :
    UpdatesHarmless E table s (packets.take m) := by
  intro n a ha
  have hlt : n < m := by
    have hbound := (List.getElem?_eq_some_iff.mp ha).1
    rw [List.length_take] at hbound
    omega
  rw [List.getElem?_take_of_lt hlt] at ha
  rw [List.take_take, Nat.min_eq_left hlt.le]
  exact h n a ha

/-- A run of clean packets whose updates are harmless keeps the passwords current. -/
theorem serveAll_current (hstatements : LawfulStatements E table nextId) (s : σ)
    (packets : List Arrival) :
    (∀ a ∈ packets, a.IsOperator ∧ (a.registers ∨ a.updates)) → (∀ a ∈ packets, a.IsClean) →
      UpdatesHarmless E table s packets → Current (table (serveAll E s packets)) packets := by
  induction packets using List.reverseRecOn with
  | nil =>
      intro _ _ _ before a after hsplit
      cases before <;> cases hsplit
  | append_singleton packets last ih =>
      intro hpackets hclean hharmless
      have hprevious : UpdatesHarmless E table s packets := by
        have htake := hharmless.take packets.length
        rwa [List.take_left] at htake
      have hcurrent := ih (fun a ha => hpackets a (by simp [ha]))
        (fun a ha => hclean a (by simp [ha])) hprevious
      have hlast : last.IsClean := hclean last (by simp)
      rcases hpackets last (by simp) with ⟨hoperator, hregisters | hupdates⟩
      · rw [serveAll_concat, serve_register hstatements hoperator hlast hregisters]
        exact hcurrent.append _ last
      · have hsame := hharmless packets.length last (by simp) hupdates
        rw [List.take_left] at hsame
        rw [serveAll_concat, serve_update hstatements hoperator hlast hupdates,
          (setPassword_eq_iff _ _ _).mpr hsame]
        have happend := hcurrent.append 0 last
        rw [requested, if_neg (Arrival.not_registers hupdates)] at happend
        exact happend

/-- **When a password update is right**: with clean fields it changes exactly the accounts it names
if and only if it is harmless, and in a run of clean packets whose updates all are, every state has
the passwords given last. -/
theorem passwords_iff (hstatements : LawfulStatements E table nextId) (s : σ)
    (packets : List Arrival)
    (hpackets : ∀ a ∈ packets, a.IsOperator ∧ (a.registers ∨ a.updates)) :
    (∀ (n : Nat) a, packets[n]? = some a → a.updates → a.IsClean →
        let rows := table (serveAll E s (packets.take n))
        (table (serveAll E s (packets.take (n + 1))) =
            setPassword (operatorName a.packet) (operatorPassword a.packet) rows ↔
          Harmless (operatorName a.packet) (operatorPassword a.packet) rows)) ∧
      ((∀ a ∈ packets, a.IsClean) → UpdatesHarmless E table s packets →
        ∀ n : Nat, Current (table (serveAll E s (packets.take n))) (packets.take n)) := by
  refine ⟨?_, ?_⟩
  · intro n a ha hupdates hclean rows
    have hoperator := (hpackets a (List.mem_of_getElem? ha)).1
    have hnext : packets.take (n + 1) = packets.take n ++ [a] := by
      rw [List.take_add_one, ha]
      rfl
    rw [hnext, serveAll_concat, serve_update hstatements hoperator hclean hupdates]
    exact setPassword_eq_iff _ _ _
  · intro hclean hharmless n
    exact serveAll_current hstatements s _ (fun a ha => hpackets a (List.mem_of_mem_take ha))
      (fun a ha => hclean a (List.mem_of_mem_take ha)) (hharmless.take n)

end Run

/-- The account of the packet already has the password it brings. -/
theorem passwords_iff_same :
    let a : Arrival := ⟨BlockBuffer.zero, [0x55, 0, 0, 0, 0, cmdPhoneUpdatePwd, 0x61] ++
      List.replicate 16 0 ++ [0x62] ++ List.replicate 7 0⟩
    let w := { World.empty with users := [⟨1, ascii "a", ascii "b"⟩] }
    Current (serveAll world w [a]).users [a] := by
  intro a w
  have hoperator : a.IsOperator := ⟨rfl, by decide, by decide, by decide⟩
  have hupdates : a.updates := by decide
  have hname : operatorName a.packet = ascii "a" := by decide
  have hpassword : operatorPassword a.packet = ascii "b" := by decide
  have hpackets : ∀ a' ∈ [a], a'.IsOperator ∧ (a'.registers ∨ a'.updates) := by
    intro a' ha'
    rw [List.mem_singleton.mp ha']
    exact ⟨hoperator, .inr hupdates⟩
  have hclean : ∀ a' ∈ [a], a'.IsClean := by
    intro a' ha'
    rw [List.mem_singleton.mp ha', Arrival.IsClean, hname, hpassword]
    decide
  have hharmless : UpdatesHarmless world World.users w [a] := by
    intro n a' ha' _
    match n, ha' with
    | 0, ha' =>
        injection ha' with ha'
        subst ha'
        rw [hname, hpassword]
        exact .inr ⟨by decide, by decide⟩
  exact (passwords_iff world_lawfulUsers.toLawfulStatements w [a] hpackets).2 hclean hharmless 1

/-- An update of the password of account a to b finds no account b and changes nothing. -/
theorem update_changes_nothing :
    let a : Arrival := ⟨BlockBuffer.zero, [0x55, 0, 0, 0, 0, cmdPhoneUpdatePwd, 0x61] ++
      List.replicate 16 0 ++ [0x62] ++ List.replicate 7 0⟩
    let w := { World.empty with users := [⟨1, ascii "a", ascii "x"⟩] }
    let rows := (serveAll world w [a]).users
    rows = w.users ∧ rows ≠ setPassword (ascii "a") (ascii "b") w.users ∧ ¬ Current rows [a] := by
  intro a w rows
  have hoperator : a.IsOperator := ⟨rfl, by decide, by decide, by decide⟩
  have hupdates : a.updates := by decide
  have hname : operatorName a.packet = ascii "a" := by decide
  have hpassword : operatorPassword a.packet = ascii "b" := by decide
  have hclean : a.IsClean := by
    rw [Arrival.IsClean, hname, hpassword]
    decide
  have hrows : rows = w.users := by
    refine (serve_update world_lawfulUsers.toLawfulStatements hoperator hclean hupdates w).trans ?_
    rw [hname, hpassword]
    decide
  refine ⟨hrows, ?_, ?_⟩
  · rw [hrows]
    decide
  · intro hcurrent
    have hlast := (hcurrent [] a [] rfl (by simp)).2 hupdates ⟨1, ascii "a", ascii "x"⟩
    rw [hrows, hname, hpassword] at hlast
    exact absurd (hlast (List.mem_singleton_self _) rfl) (by decide)

end RobotServer
