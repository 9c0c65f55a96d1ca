import RobotServer.Model.World
import RobotServer.Serving.Arrival
import RobotServer.Text.SqlText

/-!
# SignIn — what an operator packet of a phone is answered

`LawfulStatements` and `LawfulUsers` are what the handlers rely on of the table behind libzdb: the
insertion appends a row and the update changes the rows with a name, both for texts that mean
themselves between quotes, and the query finds the rows with a name and a password.  The handler
never looks at the rows a query finds, so that every sign-in and every registration is answered
with user id 0 (`signin_ensures`, `register_ensures`).
-/

namespace RobotServer

open CText Memory Interaction

/-! ## The table of users -/

/-- The statements that change the table of users. -/
def Op.writesUsers : Op → Bool
  | .execute .insertUser _ => true
  | .execute .selectUpdatePassword _ => true
  | _ => false

/-- `UPDATE TBL_USER SET U_PWD = password WHERE U_NAME = name` -/
def setPassword (name password : Text) (rows : List UserRow) : List UserRow :=
  rows.map fun r => if r.uName = name then { r with uPwd := password } else r

/-- The table of users as it is read off the state of the environment, and the id of the row that
is inserted next.  Nothing is said of a statement with a text that is not clean: its quotes and
backslashes can make another statement of it. -/
structure LawfulStatements {σ : Type} (E : Environment serverInterface σ)
    (table : σ → List UserRow) (nextId : σ → UInt32) : Prop where
  insert : ∀ s name password, SqlText.IsClean 0x27 name → SqlText.IsClean 0x27 password →
    table (E.answer (.execute .insertUser [name, password]) s).2 =
      table s ++ [⟨nextId s, name, password⟩]
  update : ∀ s name password, SqlText.IsClean 0x27 name → SqlText.IsClean 0x27 password →
    table (E.answer (.execute .selectUpdatePassword [password, name]) s).2 =
      setPassword name password (table s)
  other : ∀ s o, o.writesUsers = false →
    table (E.answer o s).2 = table s ∧ nextId (E.answer o s).2 = nextId s

/-- The query besides finds exactly the rows with its name and its password. -/
structure LawfulUsers {σ : Type} (E : Environment serverInterface σ) (table : σ → List UserRow)
    (nextId : σ → UInt32) : Prop extends LawfulStatements E table nextId where
  select : ∀ s name password,
    (E.answer (.executeQuery .selectUserid [name, password]) s).1 =
      some (((table s).filter fun r => r.uName = name ∧ r.uPwd = password).map fun r =>
        [natText r.uId.toNat])

theorem World.users_execute (w : World) {sql : Sql} {args : List Text}
    (h : (Op.execute sql args).writesUsers = false) :
    (w.execute sql args).users = w.users ∧ (w.execute sql args).nextUserId = w.nextUserId := by
  unfold World.execute
  split
  · exact ⟨rfl, rfl⟩
  · cases h
  · cases h
  · exact ⟨rfl, rfl⟩

theorem world_lawfulUsers : LawfulUsers world World.users World.nextUserId where
  select := fun _ _ _ => rfl
  insert := fun _ _ _ _ _ => rfl
  update := fun _ _ _ _ _ => rfl
  other := by
    intro w o ho
    cases o with
    | execute sql args => exact w.users_execute ho
    | _ => exact ⟨rfl, rfl⟩

/-! ## Operator packets -/

/-- The name in an operator packet. -/
def operatorName (packet : PacketBuffer) : Text :=
  cstr (packet.slice idxPhoneUsername lenPhoneUsername)

/-- The password in an operator packet. -/
def operatorPassword (packet : PacketBuffer) : Text :=
  cstr (packet.slice idxPhonePassword lenPhonePassword)

/-- An operator packet with all its fields, on a connection between messages. -/
structure Arrival.IsOperator (a : Arrival) : Prop where
  index_eq : a.client.index = 0
  length_ge : idxPhonePassword + lenPhonePassword ≤ a.message.length
  length_le : a.message.length ≤ lenBlockPacket
  header : a.packet.peek 0 = hdrOperatorUserInfo

/-- Operator packets go to `phoneOperatorUserInfo`. -/
theorem dispatch_operator (client : BlockBuffer) (h : client.packet.peek 0 = hdrOperatorUserInfo)
    (blockIndex nbytes : Nat) :
    dispatch client blockIndex nbytes =
      perform (.handler .phoneOperatorUserInfo (client.packet.slice 0 nbytes)) >>= fun _ =>
        phoneOperatorUserInfo client.packet >>= fun _ => pure (client, blockIndex) := by
  unfold dispatch
  simp [h]

section Handler

variable {σ : Type} {E : Environment serverInterface σ} {table : σ → List UserRow}
  {nextId : σ → UInt32}

/-- What the handler ensures is what the read callback ensures. -/
theorem serve_operator_ensures (hstatements : LawfulStatements E table nextId) {a : Arrival}
    (hoperator : a.IsOperator) {s : σ} {Q : List (List Byte) → σ → Prop}
    (hhandler : ∀ s', table s' = table s → nextId s' = nextId s →
      Program.Ensures E (phoneOperatorUserInfo a.packet) s' fun trace _ s'' =>
        Q (repliesOf trace) s'') :
    Program.Ensures E a.serve s fun trace _ s' => Q (repliesOf trace) s' := by
  have hne : a.message ≠ [] := by
    intro h
    have hlength := hoperator.length_ge
    rw [h] at hlength
    exact absurd hlength (by decide)
  rw [Arrival.serve_eq hoperator.index_eq hne hoperator.length_le,
    dispatch_operator { a.client with packet := a.packet } hoperator.header]
  apply Program.Ensures.effects
  apply Program.Ensures.call
  rcases hstatements.other s
    (.handler .phoneOperatorUserInfo (a.packet.slice 0 a.message.length)) rfl with ⟨htable, hnext⟩
  refine (hhandler _ htable hnext).bind ?_
  intro trace _ s' htrace
  refine .ret ?_
  rw [List.append_nil]
  exact htrace

theorem returnPacket_ensures (hstatements : LawfulStatements E table nextId) (buffer : List Byte)
    (s : σ) : Program.Ensures E (apolloReturnPacket buffer) s fun trace _ s' =>
      repliesOf trace = [buffer] ∧ table s' = table s :=
  apolloReturnPacket_ensures table (fun s => (hstatements.other s _ rfl).1)
    (fun s => (hstatements.other s _ rfl).1) s

/-- The rows that a query finds are not looked at. -/
theorem selectUserId_ensures (husers : LawfulUsers E table nextId) (userName password : Text)
    (userId : UInt32) (s : σ) :
    Program.Ensures E (selectUserId userName password userId) s fun trace result _ =>
      repliesOf trace = [] ∧ result = (.ok, userId) := by
  apply Program.Ensures.call
  rw [husers.select s userName password]
  exact .ret ⟨rfl, rfl⟩

/-- Every sign-in is accepted, with user id 0. -/
theorem signin_ensures (husers : LawfulUsers E table nextId) {packet : PacketBuffer}
    (hcommand : packet.peek idxPhoneCommand = cmdPhoneSigninUser) (s : σ) :
    Program.Ensures E (phoneOperatorUserInfo packet) s fun trace _ _ =>
      repliesOf trace = [retOkPacket 0] := by
  have hregister : ¬ packet.peek idxPhoneCommand = cmdPhoneRegisterUser := by simp [hcommand]
  unfold phoneOperatorUserInfo
  dsimp only
  rw [if_neg hregister, if_pos hcommand]
  refine (selectUserId_ensures husers _ _ 0 s).bind ?_
  rintro trace result s₁ ⟨htrace, rfl⟩
  dsimp only
  rw [if_pos rfl]
  refine (returnPacket_ensures husers.toLawfulStatements _ s₁).mono ?_
  rintro trace' _ s₂ ⟨htrace', -⟩
  rw [repliesOf_append, htrace, htrace']
  rfl

/-- Every registration is answered with user id 0. -/
theorem register_ensures (husers : LawfulUsers E table nextId) {packet : PacketBuffer}
    (hcommand : packet.peek idxPhoneCommand = cmdPhoneRegisterUser) (s : σ) :
    Program.Ensures E (phoneOperatorUserInfo packet) s fun trace _ _ =>
      repliesOf trace = [retOkPacket 0] := by
  unfold phoneOperatorUserInfo
  dsimp only
  rw [if_pos hcommand]
  apply Program.Ensures.call
  refine (selectUserId_ensures husers _ _ 0 _).bind ?_
  rintro trace result s₁ ⟨htrace, rfl⟩
  dsimp only
  rw [if_pos rfl]
  refine (returnPacket_ensures husers.toLawfulStatements _ s₁).mono ?_
  rintro trace' _ s₂ ⟨htrace', -⟩
  change repliesOf (trace ++ trace') = _
  rw [repliesOf_append, htrace, htrace']
  rfl

end Handler

/-! ## Right replies -/

/-- The reply the table calls for: the id of a row with the name and the password, if there is one,
and a refusal if there is none. -/
def SignInRight (rows : List UserRow) (name password : Text) (replies : List (List Byte)) : Prop :=
  ((∃ r ∈ rows, r.uName = name ∧ r.uPwd = password) →
      ∃ r ∈ rows, r.uName = name ∧ r.uPwd = password ∧ replies = [retOkPacket r.uId]) ∧
    ((¬ ∃ r ∈ rows, r.uName = name ∧ r.uPwd = password) →
      replies = [retNoPacket retPhoneUseridNoexist])

/-- An acceptance carries the id of the inserted row. -/
def RegisterRight (inserted : UInt32) (replies : List (List Byte)) : Prop :=
  ∀ userId, replies = [retOkPacket userId] → userId = inserted

theorem retOkPacket_injective : Function.Injective retOkPacket := by
  intro m n h
  have htail := List.append_cancel_left h
  injection htail with h0 htail
  injection htail with h1 htail
  injection htail with h2 htail
  injection htail with h3 _
  -- The four bytes are the four digits of the id in base 256.
  have hbyte : ∀ (x : UInt32) (k : UInt32), k.toNat < 32 →
      (x >>> k).toUInt8.toNat = x.toNat / 2 ^ k.toNat % 256 := by
    intro x k hk
    rw [UInt32.toNat_toUInt8, UInt32.toNat_shiftRight, Nat.mod_eq_of_lt hk,
      Nat.shiftRight_eq_div_pow]
  replace h0 := congrArg UInt8.toNat h0
  replace h1 := congrArg UInt8.toNat h1
  replace h2 := congrArg UInt8.toNat h2
  replace h3 := congrArg UInt8.toNat h3
  rw [UInt32.toNat_toUInt8, UInt32.toNat_toUInt8] at h0
  rw [hbyte m 8 (by decide), hbyte n 8 (by decide)] at h1
  rw [hbyte m 16 (by decide), hbyte n 16 (by decide)] at h2
  rw [hbyte m 24 (by decide), hbyte n 24 (by decide)] at h3
  have hm := m.toNat_lt
  have hn := n.toNat_lt
  apply UInt32.toNat_inj.mp
  replace h1 : m.toNat / 256 % 256 = n.toNat / 256 % 256 := h1
  replace h2 : m.toNat / 65536 % 256 = n.toNat / 65536 % 256 := h2
  replace h3 : m.toNat / 16777216 % 256 = n.toNat / 16777216 % 256 := h3
  omega

theorem retOkPacket_ne_retNoPacket (userId : UInt32) (code : Byte) :
    retOkPacket userId ≠ retNoPacket code := by
  intro h
  have hbyte := congrArg (fun reply : List Byte => reply.getD 3 0) h
  exact absurd (show (0x4F : Byte) = 0x4E from hbyte) (by decide)

/-- **When an account packet is answered right**: a sign-in exactly when its account is one with
user id 0, a registration exactly when the inserted row gets user id 0. -/
theorem account_reply_iff {σ : Type} {E : Environment serverInterface σ}
    {table : σ → List UserRow} {nextId : σ → UInt32} (husers : LawfulUsers E table nextId) (s : σ)
    (a : Arrival) (hoperator : a.IsOperator) :
    let replies := repliesOf (a.serve.run E s).trace
    (a.packet.peek idxPhoneCommand = cmdPhoneSigninUser →
        (SignInRight (table s) (operatorName a.packet) (operatorPassword a.packet) replies ↔
          ∃ r ∈ table s, r.uName = operatorName a.packet ∧
            r.uPwd = operatorPassword a.packet ∧ r.uId = 0)) ∧
      (a.packet.peek idxPhoneCommand = cmdPhoneRegisterUser →
        (RegisterRight (nextId s) replies ↔ nextId s = 0)) := by
  intro replies
  refine ⟨?_, ?_⟩
  · intro hcommand
    rcases serve_operator_ensures (Q := fun replies _ => replies = [retOkPacket 0])
      husers.toLawfulStatements hoperator (fun s' _ _ => signin_ensures husers hcommand s')
      with ⟨_, _, hreplies⟩
    constructor
    · rintro ⟨hfound, hnone⟩
      -- The reply carries the number 0 whichever row was found, so it is right for user 0 only.
      by_cases hrow : ∃ r ∈ table s, r.uName = operatorName a.packet ∧
          r.uPwd = operatorPassword a.packet
      · rcases hfound hrow with ⟨r, hr, hname, hpassword, hreply⟩
        have hpacket := hreplies.symm.trans hreply
        injection hpacket with hpacket
        exact ⟨r, hr, hname, hpassword, (retOkPacket_injective hpacket).symm⟩
      · have hpacket := hreplies.symm.trans (hnone hrow)
        injection hpacket with hpacket
        exact absurd hpacket (retOkPacket_ne_retNoPacket _ _)
    · rintro ⟨r, hr, hname, hpassword, hid⟩
      refine ⟨fun _ => ⟨r, hr, hname, hpassword, ?_⟩, fun hnone => ?_⟩
      · rw [hid]
        exact hreplies
      · exact absurd ⟨r, hr, hname, hpassword⟩ hnone
  · intro hcommand
    rcases serve_operator_ensures (Q := fun replies _ => replies = [retOkPacket 0])
      husers.toLawfulStatements hoperator (fun s' _ _ => register_ensures husers hcommand s')
      with ⟨_, _, hreplies⟩
    constructor
    · intro hright
      -- The reply names 0, which is right when 0 was the number given out.
      exact (hright 0 hreplies).symm
    · intro hid userId hreply
      have hpacket := hreply.symm.trans hreplies
      injection hpacket with hpacket
      rw [hid]
      exact retOkPacket_injective hpacket

/-- An account with user id 0 signs in. -/
theorem account_reply_iff_zero :
    let a : Arrival := ⟨BlockBuffer.zero, [0x55, 0, 0, 0, 0, cmdPhoneSigninUser, 0x61] ++
      List.replicate 16 0 ++ [0x62] ++ List.replicate 7 0⟩
    let w := { World.empty with users := [⟨0, ascii "a", ascii "b"⟩] }
    SignInRight w.users (ascii "a") (ascii "b") (repliesOf (a.serve.run world w).trace) := by
  intro a w
  have hoperator : a.IsOperator := ⟨rfl, by decide, by decide, by decide⟩
  have hname : operatorName a.packet = ascii "a" := by decide
  have hpassword : operatorPassword a.packet = ascii "b" := by decide
  have hiff := (account_reply_iff world_lawfulUsers w a hoperator).1 (by decide)
  rw [hname, hpassword] at hiff
  exact hiff.mpr ⟨_, List.mem_singleton_self _, rfl, rfl, rfl⟩

/-- Nobody has an account, and a sign-in is accepted. -/
theorem signin_accepts_nobody :
    let a : Arrival := ⟨BlockBuffer.zero, [0x55, 0, 0, 0, 0, cmdPhoneSigninUser, 0x61] ++
      List.replicate 16 0 ++ [0x62] ++ List.replicate 7 0⟩
    let replies := repliesOf (a.serve.run world World.empty).trace
    replies = [retOkPacket 0] ∧ ¬ SignInRight [] (ascii "a") (ascii "b") replies := by
  intro a replies
  have hoperator : a.IsOperator := ⟨rfl, by decide, by decide, by decide⟩
  have hcommand : a.packet.peek idxPhoneCommand = cmdPhoneSigninUser := by decide
  rcases serve_operator_ensures (Q := fun replies _ => replies = [retOkPacket 0])
    world_lawfulUsers.toLawfulStatements (s := World.empty) hoperator
    (fun s' _ _ => signin_ensures world_lawfulUsers hcommand s') with ⟨_, _, hreplies⟩
  refine ⟨hreplies, ?_⟩
  rintro ⟨-, hnone⟩
  have hpacket := hreplies.symm.trans (hnone (by rintro ⟨r, hr, -⟩; cases hr))
  injection hpacket with hpacket
  exact retOkPacket_ne_retNoPacket _ _ hpacket

end RobotServer
