import Mathlib.Logic.Function.Basic
import RobotServer.Model.Services

/-!
# MysqlPool — the connection pool of `ApolloSqlOperator.c`

The `TYPE_APOLLO_MYSQL_CONNECTIONPOOL` branch: an array of connections with a lock, and the
operations that take a connection, query it and end.  A connection is told by its number in the
order in which the database accepted them, and `none` is a null handle.

- a call that has no result waits for a lock that is never freed, or follows a null handle;
- a `System` runs the operations side by side, one call of the pool or one ending at a time.
-/

namespace RobotServer

namespace MysqlPool

open CText

/-! ## The pool -/

inductive ConnectionType where
  | close
  | on
  | off
  deriving DecidableEq, Repr

structure MySqlConnectionItem where
  conn : Option Nat
  status : ConnectionType
  deriving DecidableEq, Repr

structure MySqlConnectionPool where
  connQueue : List MySqlConnectionItem
  poolLock : Bool
  deriving DecidableEq, Repr

abbrev connectionPoolSize : Nat := 50

/-- What comes of `mysql_init` and `mysql_real_connect`. -/
inductive Attempt where
  | initFailed
  | refused
  | connected
  deriving DecidableEq, Repr

/-- An item behind an attempt, and the number of connections that are accepted. -/
def connect (item : MySqlConnectionItem) (accepted : Nat) : Attempt → MySqlConnectionItem × Nat
  | .initFailed => ({ item with conn := none }, accepted)
  | .refused => ({ conn := none, status := .close }, accepted)
  | .connected => ({ conn := some accepted, status := .off }, accepted + 1)

/-- The loop of `init_mysql_pool` over items that are zero. -/
def initLoop : List Attempt → Nat → List MySqlConnectionItem × Nat
  | [], accepted => ([], accepted)
  | attempt :: rest, accepted =>
      let (item, accepted) := connect { conn := none, status := .close } accepted attempt
      let (items, accepted) := initLoop rest accepted
      (item :: items, accepted)

def initMysqlPool (attempts : Vector Attempt connectionPoolSize) : MySqlConnectionPool × Nat :=
  let (items, accepted) := initLoop attempts.toList 0
  ({ connQueue := items, poolLock := false }, accepted)

/-- The loop of `get_connection_from_pool` from slot `i` on. -/
def getLoop (attempts : Nat → Attempt) :
    Nat → Nat → List MySqlConnectionItem → Option Nat × List MySqlConnectionItem × Nat
  | _, accepted, [] => (none, [], accepted)
  | i, accepted, item :: rest =>
      match item.status with
      | .off => (item.conn, { item with status := .on } :: rest, accepted)
      | .close =>
          -- A connection that is made here is not the one returned; the loop goes on.
          let (item, accepted) := connect item accepted (attempts i)
          let (conn, rest, accepted) := getLoop attempts (i + 1) accepted rest
          (conn, item :: rest, accepted)
      | .on =>
          -- The test of the last branch is the assignment `Status = CONNECT_ON`.
          let (conn, rest, accepted) := getLoop attempts (i + 1) accepted rest
          (conn, { item with status := .on } :: rest, accepted)

def getConnectionFromPool (attempts : Nat → Attempt) (pool : MySqlConnectionPool) (accepted : Nat) :
    Option (Option Nat × MySqlConnectionPool × Nat) :=
  if pool.poolLock then none
  else
    let (conn, items, accepted) := getLoop attempts 0 accepted pool.connQueue
    some (conn, { connQueue := items, poolLock := false }, accepted)

section Return

variable (threadId : Nat → Nat) (conn : Nat)

/-- The loop of `return_connection_to_pool`; the inner `none` is its end at
`CONNECTION_POOL_SIZE`. -/
def returnLoop : List MySqlConnectionItem → Option (Option (List MySqlConnectionItem))
  | [] => some none
  | item :: rest => do
      -- `Conn->thread_id` of a null handle is undefined.
      let other ← item.conn
      if threadId conn ≠ threadId other then
        let found ← returnLoop rest
        some (found.map (item :: ·))
      else some (some ({ item with status := .off } :: rest))

/-- A connection that is not found leaves the lock taken. -/
def returnConnectionToPool (pool : MySqlConnectionPool) :
    Option (ConnectionpoolResult × MySqlConnectionPool) :=
  if pool.poolLock then none
  else do
    match ← returnLoop threadId conn pool.connQueue with
    | none => some (.noexist, { pool with poolLock := true })
    | some items => some (.ok, { connQueue := items, poolLock := false })

end Return

/-! ## The operations behind their connection -/

/-- What the database and redis answer to an operation: whether `mysql_query` fails, what
`mysql_store_result` returns, and whether the redis writes succeed. -/
structure Answers where
  res : Bool
  resPtr : Option (List (List Text))
  written : Nat → Bool

/-- The return value, if there is one, and whether `return_connection_to_pool` is called before
it. -/
structure Exit where
  code : Option Int
  returnsConn : Bool
  deriving DecidableEq, Repr

def resultCode : ConnectionpoolResult → Int
  | .ok => 0
  | .noexist => -1
  | .noinsert => -2
  | .noupdate => -3

/-- An end without a call of `return_connection_to_pool`. -/
def leave (result : ConnectionpoolResult) : Exit :=
  ⟨some (resultCode result), false⟩

/-- The two insertions end alike. -/
def insertExit (answers : Answers) : Exit :=
  if answers.res then leave .noinsert else leave .ok

def insertDeviceGps (answers : Answers) : Exit :=
  insertExit answers

def insertUser (answers : Answers) : Exit :=
  insertExit answers

def selectUserId (answers : Answers) : Exit :=
  if !answers.res then
    match answers.resPtr with
    | none => leave .noexist
    | some _ => leave .ok
  else leave .ok

/-- The test of `res` is the other way round than in the insertions. -/
def updatePassword (answers : Answers) : Exit :=
  if !answers.res then leave .noupdate else leave .ok

def selectLocationNewItem (answers : Answers) : Exit :=
  if !answers.res then
    match answers.resPtr with
    | none => leave .noexist
    | some [] => leave .noexist
    | some (_ :: _) => if !answers.written 0 then ⟨some (-2), false⟩ else leave .ok
  else leave .ok

/-- The loop of `initUserInfoList` from write `n` on: `false` when it returns. -/
def userInfoRows (written : Nat → Bool) : Nat → List (List Text) → Bool
  | _, [] => true
  | n, _ :: rows => if !written n then false else userInfoRows written (n + 1) rows

/-- The loop of `initUserAndDeviceRelationshipList`, with two writes for a row. -/
def relationshipRows (written : Nat → Bool) : Nat → List (List Text) → Bool
  | _, [] => true
  | n, _ :: rows =>
      if !written n then false
      else if !written (n + 1) then false
      else relationshipRows written (n + 2) rows

/-- The end of a loader, by its loop over the rows. -/
def loaderExit (loop : List (List Text) → Bool) (answers : Answers) : Exit :=
  if answers.res then ⟨none, true⟩
  else
    match answers.resPtr with
    | none => ⟨none, false⟩
    | some rows => ⟨none, loop rows⟩

def initUserInfoList (answers : Answers) : Exit :=
  loaderExit (userInfoRows answers.written 0) answers

def initUserAndDeviceRelationshipList (answers : Answers) : Exit :=
  loaderExit (relationshipRows answers.written 0) answers

inductive SqlOperation where
  | insertDeviceGps
  | insertUser
  | selectUserId
  | updatePassword
  | selectLocationNewItem
  | initUserInfoList
  | initUserAndDeviceRelationshipList
  deriving DecidableEq, Repr

def SqlOperation.exit : SqlOperation → Answers → Exit
  | .insertDeviceGps => MysqlPool.insertDeviceGps
  | .insertUser => MysqlPool.insertUser
  | .selectUserId => MysqlPool.selectUserId
  | .updatePassword => MysqlPool.updatePassword
  | .selectLocationNewItem => MysqlPool.selectLocationNewItem
  | .initUserInfoList => MysqlPool.initUserInfoList
  | .initUserAndDeviceRelationshipList => MysqlPool.initUserAndDeviceRelationshipList

/-! ## Operations side by side -/

/-- An operation calls `get_connection_from_pool` until it has a connection. -/
inductive Phase where
  | waiting
  | holding (conn : Nat)
  | done
  deriving DecidableEq, Repr

structure System where
  pool : MySqlConnectionPool
  accepted : Nat
  phase : Nat → Phase

/-- The operation whose turn it is, and what it meets. -/
structure Turn where
  id : Nat
  attempts : Nat → Attempt
  answers : Answers

def System.start (attempts : Vector Attempt connectionPoolSize) : System where
  pool := (initMysqlPool attempts).1
  accepted := (initMysqlPool attempts).2
  phase := fun _ => .waiting

/-- One call of `get_connection_from_pool`, or what an operation does with its connection. -/
def step (threadId : Nat → Nat) (operation : Nat → SqlOperation) (s : System) (turn : Turn) :
    Option System :=
  match s.phase turn.id with
  | .waiting => do
      let (conn, pool, accepted) ← getConnectionFromPool turn.attempts s.pool s.accepted
      match conn with
      | none => some { s with pool := pool, accepted := accepted }
      | some conn => some ⟨pool, accepted, Function.update s.phase turn.id (.holding conn)⟩
  | .holding conn =>
      if ((operation turn.id).exit turn.answers).returnsConn then do
        let (_, pool) ← returnConnectionToPool threadId conn s.pool
        some { s with pool := pool, phase := Function.update s.phase turn.id .done }
      else some { s with phase := Function.update s.phase turn.id .done }
  | .done => some s

end MysqlPool

end RobotServer
