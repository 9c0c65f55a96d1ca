import RobotServer.Serving.Leftovers
import RobotServer.Text.SqlText

/-!
# Statements — the text of the account requests

libzdb puts the name and the password into the templates of `ApolloSqlOperator.h` as they are, and
the database reads the resulting text.  A request is read as the statement it is meant to be exactly
when nothing in the two fields has a meaning between quotes (`statements_intended_iff`).
-/

namespace RobotServer

open CText Memory Interaction SqlText

/-! ## Texts of statements -/

/-- The templates of `ApolloSqlOperator.h`. -/
def template : Sql → Text
  | .insertDeviceGps => ascii "INSERT TBL_DEVICE_LOCATION VALUE('%s', '%s', '%s', '%s', NOW())"
  | .insertUser => ascii "INSERT TBL_USER(U_NAME, U_PWD) VALUES('%s', '%s')"
  | .selectUserid => ascii "SELECT U_ID FROM TBL_USER WHERE U_NAME='%s' AND U_PWD = '%s'"
  | .selectUpdatePassword => ascii "UPDATE TBL_USER SET U_PWD = '%s' WHERE U_NAME='%s'"
  | .selectLocationNewinfo =>
      ascii "SELECT  * FROM TBL_DEVICE_LOCATION WHERE L_DEVICE_ID = '%s' ORDER BY L_TIME DESC"

/-- The text of a template with its `%s` replaced by the arguments. -/
def formatSql : Text → List Text → Text
  | 0x25 :: 0x73 :: t, arg :: args => arg ++ formatSql t args
  | c :: t, args => c :: formatSql t args
  | [], _ => []

/-- The reading of a template with the values of its literals replaced in the same way. -/
def fillSymbols : List Symbol → List Text → List Symbol
  | .char 0x25 :: .char 0x73 :: symbols, value :: values =>
      value.map .char ++ fillSymbols symbols values
  | symbol :: symbols, values => symbol :: fillSymbols symbols values
  | [], _ => []

/-- The values a statement is meant to have. -/
def intendedValues (userName password : Text) : Sql → List Text
  | .insertUser => [userName, password]
  | .selectUserid => [userName, password]
  | .selectUpdatePassword => [password, userName]
  | .insertDeviceGps => []
  | .selectLocationNewinfo => []

/-- The database reads the text of the statement as the template with the intended values for its
literals. -/
def IsIntended (userName password : Text) (sql : Sql) (args : List Text) : Prop :=
  read .code (formatSql (template sql) args) =
    fillSymbols (read .code (template sql)) (intendedValues userName password sql)

/-- The operation is no statement, or one that is read as intended. -/
def Op.IsIntended (userName password : Text) : Op → Prop
  | .execute sql args => RobotServer.IsIntended userName password sql args
  | .executeQuery sql args => RobotServer.IsIntended userName password sql args
  | _ => True

/-! ## Templates with two literals -/

/-- A template that is code and two literals `%s`. -/
structure TwoLiteralTemplate (t : Text) where
  (before between behind : Text)
  eq : t = twoLiterals before (ascii "%s") between (ascii "%s") behind
  plain : ∀ code ∈ [before, between, behind], ∀ c ∈ code, IsPlain c ∧ c ≠ 0x25
  between_ne_nil : between ≠ []

def insertUserTemplate : TwoLiteralTemplate (template .insertUser) where
  before := ascii "INSERT TBL_USER(U_NAME, U_PWD) VALUES("
  between := ascii ", "
  behind := ascii ")"
  eq := by decide +kernel
  plain := by decide +kernel
  between_ne_nil := by decide

def selectUseridTemplate : TwoLiteralTemplate (template .selectUserid) where
  before := ascii "SELECT U_ID FROM TBL_USER WHERE U_NAME="
  between := ascii " AND U_PWD = "
  behind := []
  eq := by decide +kernel
  plain := by decide +kernel
  between_ne_nil := by decide

def updatePasswordTemplate : TwoLiteralTemplate (template .selectUpdatePassword) where
  before := ascii "UPDATE TBL_USER SET U_PWD = "
  between := ascii " WHERE U_NAME="
  behind := []
  eq := by decide +kernel
  plain := by decide +kernel
  between_ne_nil := by decide

instance (userName password : Text) (sql : Sql) (args : List Text) :
    Decidable (IsIntended userName password sql args) :=
  inferInstanceAs (Decidable (_ = _))

theorem formatSql_cons_of_ne {c : Byte} (h : c ≠ 0x25) (t : Text) (args : List Text) :
    formatSql (c :: t) args = c :: formatSql t args := by
  rw [formatSql]
  intro rest arg args' _ hc
  exact absurd hc h

theorem formatSql_append {code : Text} (h : ∀ c ∈ code, c ≠ 0x25) (t : Text) (args : List Text) :
    formatSql (code ++ t) args = code ++ formatSql t args := by
  induction code with
  | nil => rfl
  | cons c code ih =>
      rw [List.forall_mem_cons] at h
      rw [List.cons_append, formatSql_cons_of_ne h.1, ih h.2]
      rfl

theorem fillSymbols_code (code : Text) (symbols : List Symbol) (values : List Text) :
    fillSymbols (code.map .code ++ symbols) values =
      code.map .code ++ fillSymbols symbols values := by
  induction code with
  | nil => rfl
  | cons c code ih => exact congrArg (_ :: ·) ih

namespace TwoLiteralTemplate

variable {t : Text} (T : TwoLiteralTemplate t)

theorem plain_before : ∀ c ∈ T.before, IsPlain c :=
  fun c hc => (T.plain _ List.mem_cons_self c hc).1

theorem plain_between : ∀ c ∈ T.between, IsPlain c :=
  fun c hc => (T.plain _ (List.mem_cons_of_mem _ List.mem_cons_self) c hc).1

theorem plain_behind : ∀ c ∈ T.behind, IsPlain c :=
  fun c hc => (T.plain _ (List.mem_cons_of_mem _ (List.mem_cons_of_mem _ List.mem_cons_self)) c hc).1

theorem formatSql_eq (a b : Text) :
    formatSql t [a, b] = twoLiterals T.before a T.between b T.behind := by
  have hcode : ∀ code ∈ [T.before, T.between, T.behind], ∀ c ∈ code, c ≠ 0x25 :=
    fun code hmem c hc => (T.plain code hmem c hc).2
  have hbehind : formatSql T.behind [] = T.behind := by
    have h := formatSql_append (hcode T.behind (by simp)) [] []
    rw [List.append_nil] at h
    exact h.trans (List.append_nil _)
  conv_lhs => rw [T.eq, twoLiterals]
  rw [formatSql_append (hcode T.before (by simp)), formatSql_cons_of_ne (by decide)]
  change T.before ++ 0x27 :: (a ++ formatSql (0x27 :: (T.between ++ 0x27 :: (ascii "%s" ++
    0x27 :: T.behind))) [b]) = _
  rw [formatSql_cons_of_ne (by decide), formatSql_append (hcode T.between (by simp)),
    formatSql_cons_of_ne (by decide)]
  change T.before ++ 0x27 :: (a ++ 0x27 :: (T.between ++ 0x27 :: (b ++ formatSql
    (0x27 :: T.behind) []))) = _
  rw [formatSql_cons_of_ne (by decide), hbehind]
  rfl

theorem fillSymbols_eq (a b : Text) :
    fillSymbols (read .code t) [a, b] = twoValues T.before a T.between b T.behind := by
  have hread : read .code t = twoValues T.before (ascii "%s") T.between (ascii "%s") T.behind := by
    conv_lhs => rw [T.eq]
    rw [read_twoLiterals T.plain_before T.plain_between T.plain_behind T.between_ne_nil]
    decide +kernel
  rw [hread, twoValues, fillSymbols_code]
  change _ ++ .quote 0x27 :: (a.map .char ++ fillSymbols (.quote 0x27 :: (T.between.map .code ++
    .quote 0x27 :: ((ascii "%s").map .char ++ .quote 0x27 :: T.behind.map .code))) [b]) = _
  have hbetween : fillSymbols (.quote 0x27 :: (T.between.map .code ++
      .quote 0x27 :: ((ascii "%s").map .char ++ .quote 0x27 :: T.behind.map .code))) [b] =
      .quote 0x27 :: (T.between.map .code ++
        .quote 0x27 :: (b.map .char ++ fillSymbols (.quote 0x27 :: T.behind.map .code) [])) :=
    congrArg (_ :: ·) (fillSymbols_code _ _ _)
  have hbehind : fillSymbols (.quote 0x27 :: T.behind.map .code) [] =
      .quote 0x27 :: T.behind.map .code := by
    have h := fillSymbols_code T.behind [] []
    rw [List.append_nil] at h
    exact congrArg (_ :: ·) (h.trans (List.append_nil _))
  rw [hbetween, hbehind]
  rfl

/-- The text with its arguments is read with other values, as many characters in all. -/
theorem read_iff {a b a' b' : Text} (hlen : a.length + b.length = a'.length + b'.length) :
    read .code (formatSql t [a, b]) = fillSymbols (read .code t) [a', b'] ↔
      twoLiterals T.before a T.between b T.behind =
          twoLiterals T.before a' T.between b' T.behind ∧
        IsClean 0x27 a' ∧ IsClean 0x27 b' := by
  rw [T.formatSql_eq, T.fillSymbols_eq]
  exact read_twoLiterals_iff T.plain_before T.plain_between T.plain_behind T.between_ne_nil hlen

include T in
theorem read_self_iff (a b : Text) :
    read .code (formatSql t [a, b]) = fillSymbols (read .code t) [a, b] ↔
      IsClean 0x27 a ∧ IsClean 0x27 b := by
  rw [T.read_iff rfl]
  exact and_iff_right rfl

include T in
theorem read_swapped_iff (a b : Text) :
    read .code (formatSql t [a, b]) = fillSymbols (read .code t) [b, a] ↔
      IsClean 0x27 a ∧ IsClean 0x27 b ∧ a = b := by
  rw [T.read_iff (Nat.add_comm _ _)]
  constructor
  · rintro ⟨htext, hb, ha⟩
    exact ⟨ha, hb, twoLiterals_left_inj ha hb htext⟩
  · rintro ⟨ha, hb, rfl⟩
    exact ⟨rfl, hb, ha⟩

end TwoLiteralTemplate

/-! ## Account requests -/

/-- The three commands that execute statements. -/
def IsAccountCommand (command : Byte) : Prop :=
  command = cmdPhoneRegisterUser ∨ command = cmdPhoneSigninUser ∨ command = cmdPhoneUpdatePwd

theorem isIntended_insertUser (userName password : Text) :
    IsIntended userName password .insertUser [userName, password] ↔
      IsClean 0x27 userName ∧ IsClean 0x27 password :=
  insertUserTemplate.read_self_iff userName password

theorem isIntended_selectUserid (userName password : Text) :
    IsIntended userName password .selectUserid [userName, password] ↔
      IsClean 0x27 userName ∧ IsClean 0x27 password :=
  selectUseridTemplate.read_self_iff userName password

/-- The update gets its two values in the wrong order. -/
theorem isIntended_updatePassword (userName password : Text) :
    IsIntended userName password .selectUpdatePassword [userName, password] ↔
      IsClean 0x27 userName ∧ IsClean 0x27 password ∧ userName = password :=
  updatePasswordTemplate.read_swapped_iff userName password

/-- The first operation of a request is its statement. -/
theorem accountOp_mem {packet : PacketBuffer} (h : IsAccountCommand (packet.peek idxPhoneCommand))
    {σ : Type} (E : Environment serverInterface σ) (s : σ) :
    accountOp (packet.peek idxPhoneCommand)
        (cstr (packet.slice idxPhoneUsername lenPhoneUsername))
        (cstr (packet.slice idxPhonePassword lenPhonePassword)) ∈
      ((phoneOperatorUserInfo packet).run E s).trace := by
  rcases h with hcommand | hcommand | hcommand
  · simp only [phoneOperatorUserInfo, hcommand]
    exact List.mem_cons_self
  · simp only [phoneOperatorUserInfo, hcommand]
    exact List.mem_cons_self
  · simp only [phoneOperatorUserInfo, hcommand]
    exact List.mem_cons_self

/-- Every statement that an account request executes is read as intended exactly when both fields
are clean, and equal where they are exchanged. -/
theorem statements_intended_iff (packet : PacketBuffer) {σ : Type}
    (E : Environment serverInterface σ) (s : σ) :
    let userName := cstr (packet.slice idxPhoneUsername lenPhoneUsername)
    let password := cstr (packet.slice idxPhonePassword lenPhonePassword)
    let command := packet.peek idxPhoneCommand
    (∀ op ∈ ((phoneOperatorUserInfo packet).run E s).trace, op.IsIntended userName password) ↔
      (IsAccountCommand command → IsClean 0x27 userName ∧ IsClean 0x27 password ∧
        (command = cmdPhoneUpdatePwd → userName = password)) := by
  intro userName password command
  constructor
  · intro h hcommand
    -- Whatever the tables hold, the first statement of the request is executed.
    have hfirst := h _ (accountOp_mem hcommand E s)
    change Op.IsIntended userName password (accountOp command userName password) at hfirst
    rcases hcommand with hregister | hsignin | hupdate
    · rw [show command = _ from hregister] at hfirst ⊢
      have hclean := (isIntended_insertUser userName password).mp hfirst
      exact ⟨hclean.1, hclean.2, fun h => absurd h (by decide)⟩
    · rw [show command = _ from hsignin] at hfirst ⊢
      have hclean := (isIntended_selectUserid userName password).mp hfirst
      exact ⟨hclean.1, hclean.2, fun h => absurd h (by decide)⟩
    · rw [show command = _ from hupdate] at hfirst ⊢
      have hclean := (isIntended_updatePassword userName password).mp hfirst
      exact ⟨hclean.1, hclean.2.1, fun _ => hclean.2.2⟩
  · intro h
    refine Program.Performs.trace (phoneOperatorUserInfo_performs (fun _ => trivial) trivial packet
      rfl rfl ?_ ?_ ?_) E s
    · intro hregister
      have hclean := h (.inl hregister)
      exact (isIntended_insertUser userName password).mpr ⟨hclean.1, hclean.2.1⟩
    · intro hcommand
      have hclean := h (hcommand.imp_right .inl)
      exact (isIntended_selectUserid userName password).mpr ⟨hclean.1, hclean.2.1⟩
    · intro hupdate
      have hclean := h (.inr (.inr hupdate))
      exact (isIntended_updatePassword userName password).mpr
        ⟨hclean.1, hclean.2.1, hclean.2.2 hupdate⟩

/-- A sign-in whose name brings its own condition and leaves the rest of the statement to a
comment. -/
def conditionSignin : PacketBuffer :=
  BlockBuffer.zero.packet.place 0
    ([0x55, 0, 0, 0, 1, 0x72] ++ ascii "' OR 1=1 #" ++ List.replicate 7 0 ++ ascii "12345678")

theorem signin_changes_statement :
    ¬ ∀ op ∈ ((phoneOperatorUserInfo conditionSignin).run world World.empty).trace,
      op.IsIntended (cstr (conditionSignin.slice idxPhoneUsername lenPhoneUsername))
        (cstr (conditionSignin.slice idxPhonePassword lenPhonePassword)) := by
  intro h
  have hname : cstr (conditionSignin.slice idxPhoneUsername lenPhoneUsername) =
      ascii "' OR 1=1 #" := by decide +kernel
  have hpassword : cstr (conditionSignin.slice idxPhonePassword lenPhonePassword) =
      ascii "12345678" := by decide +kernel
  rw [hname, hpassword] at h
  have hop : IsIntended (ascii "' OR 1=1 #") (ascii "12345678") .selectUserid
      [ascii "' OR 1=1 #", ascii "12345678"] :=
    h (.executeQuery .selectUserid [ascii "' OR 1=1 #", ascii "12345678"]) (by decide +kernel)
  exact absurd hop (by decide +kernel)

end RobotServer
