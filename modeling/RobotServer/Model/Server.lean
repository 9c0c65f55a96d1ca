import RobotServer.Interaction.Ownership
import RobotServer.Model.Protocol

/-!
# Server — the life of a connection in `server.c`

`onAccept` sets a connection up on the thread that listens, `serverJobFunction` runs its callbacks
on a worker and tears it down.  Both are programs over the descriptors, the memory and the libevent
objects they ask for; the read callback is `apolloParsePacket`, with its calls of `closeClient`
carried out on the connection.
-/

namespace RobotServer

open Interaction

namespace Server

/-! ## What a connection asks for -/

/-- The kinds of memory and libevent objects, each with a function that makes it and one that
frees it. -/
inductive Block where
  | client
  | bufEv
  | evbase
  | outputBuffer
  | pBlock
  | job
  deriving DecidableEq, Repr

/-- What libevent calls from its loop, with the bytes that have become available. -/
inductive Callback where
  | read (arrived : Evbuffer)
  | write
  | error

/-- The calls; a pointer is `none` where it is `NULL`. -/
inductive Call where
  | accept
  /-- `fcntl(fd, F_GETFL)` -/
  | getFlags (fd : Int)
  /-- `fcntl(fd, F_SETFL, flags | O_NONBLOCK)` -/
  | setFlags (fd flags : Int)
  | close (fd : Int)
  /-- `malloc`, `evbuffer_new` or `event_base_new` -/
  | allocate (kind : Block)
  | bufferevent_new (fd : Int) (client : Option Nat)
  /-- `bufferevent_base_set`, `bufferevent_settimeout` and `bufferevent_enable` -/
  | enable (evbase bufEv : Option Nat)
  /-- `free`, `bufferevent_free`, `event_base_free` or `evbuffer_free` -/
  | free (kind : Block) (pointer : Option Nat)
  | addJob (job client : Option Nat)
  /-- `event_base_dispatch`, with the callbacks that it makes. -/
  | dispatch (evbase bufEv client : Option Nat)
  /-- An operation of a callback. -/
  | service (client bufEv outputBuffer pBlock : Option Nat) (o : Op)

abbrev Call.Reply : Call → Type
  | .accept => Int
  | .getFlags _ => Int
  | .setFlags _ _ => Int
  | .allocate _ => Option Nat
  | .bufferevent_new _ _ => Option Nat
  | .dispatch _ _ _ => List Callback
  | .service _ _ _ _ o => o.Reply
  | _ => Unit

abbrev lifeInterface : Interface where
  Op := Call
  Reply := Call.Reply

abbrev Life := Program lifeInterface

def call (c : Call) : Life c.Reply :=
  Program.perform (I := lifeInterface) c

/-! ## `server.c` -/

/-- `client_t` at its address, with what `pBlock` points to. -/
structure Client where
  address : Option Nat
  fd : Int
  evbase : Option Nat
  bufEv : Option Nat
  outputBuffer : Option Nat
  pBlock : Option Nat
  block : BlockBuffer

def setnonblock (fd : Int) : Life Int := do
  let flags ← call (.getFlags fd)
  if flags < 0 then pure flags
  else do
    let result ← call (.setFlags fd flags)
    if result < 0 then pure (-1) else pure 0

def closeClient (client : Client) : Life Client :=
  if client.fd ≥ 0 then do
    call (.close client.fd)
    pure { client with fd := -1 }
  else pure client

/-- An object is freed where there is one. -/
def freeIfSet (kind : Block) : Option Nat → Life Unit
  | some address => call (.free kind (some address))
  | none => pure ()

def closeAndFreeClient (client : Client) : Life Unit := do
  let client ← closeClient client
  freeIfSet .bufEv client.bufEv
  freeIfSet .evbase client.evbase
  freeIfSet .outputBuffer client.outputBuffer
  freeIfSet .pBlock client.pBlock
  call (.free .client client.address)

/-- The program of a callback: `closeClient` is done on the connection, the rest is asked for. -/
def serve {α : Type} : Action α → Client → Life (α × Client)
  | .ret a, client => pure (a, client)
  | .call .closeClient k, client => do
      let client ← closeClient client
      serve (k ()) client
  | .call o k, client => do
      let reply ← call
        (.service client.address client.bufEv client.outputBuffer client.pBlock o)
      serve (k reply) client
  | .fault, _ => .fault

def bufferedOnRead (client : Client) (input : Evbuffer) : Life (Client × Evbuffer) := do
  let ((block, input), client) ← serve (apolloParsePacket client.block input) client
  pure ({ client with block := block }, input)

def bufferedOnWrite (client : Client) : Life Client :=
  pure client

def bufferedOnError (client : Client) : Life Client :=
  closeClient client

/-- The callbacks one after another; what a read leaves in the input is there at the next one. -/
def callbacks (client : Client) (pending : Evbuffer) : List Callback → Life Client
  | [] => pure client
  | .read arrived :: rest => do
      let (client, pending) ← bufferedOnRead client (pending ++ arrived)
      callbacks client pending rest
  | .write :: rest => do
      let client ← bufferedOnWrite client
      callbacks client pending rest
  | .error :: rest => do
      let client ← bufferedOnError client
      callbacks client pending rest

def serverJobFunction (job : Option Nat) (client : Client) : Life Unit := do
  let made ← call (.dispatch client.evbase client.bufEv client.address)
  let client ← callbacks client [] made
  closeAndFreeClient client
  call (.free .job job)

/-- The connection and its job, where one is added to the work queue. -/
def onAccept : Life (Option (Client × Option Nat)) := do
  let clientFd ← call .accept
  if clientFd < 0 then pure none
  else do
    let result ← setnonblock clientFd
    if result < 0 then do
      call (.close clientFd)
      pure none
    else do
      let address ← call (.allocate .client)
      if address = none then do
        call (.close clientFd)
        pure none
      else do
        let client : Client := ⟨address, clientFd, none, none, none, none, .zero⟩
        let outputBuffer ← call (.allocate .outputBuffer)
        let client := { client with outputBuffer := outputBuffer }
        if outputBuffer = none then do
          closeAndFreeClient client
          pure none
        else do
          let evbase ← call (.allocate .evbase)
          let client := { client with evbase := evbase }
          if evbase = none then do
            closeAndFreeClient client
            pure none
          else do
            let pBlock ← call (.allocate .pBlock)
            let client := { client with pBlock := pBlock }
            if pBlock = none then do
              closeAndFreeClient client
              pure none
            else do
              let bufEv ← call (.bufferevent_new clientFd client.address)
              let client := { client with bufEv := bufEv }
              if bufEv = none then do
                closeAndFreeClient client
                pure none
              else do
                call (.enable client.evbase client.bufEv)
                let job ← call (.allocate .job)
                if job = none then do
                  closeAndFreeClient client
                  pure none
                else do
                  call (.addJob job client.address)
                  pure (some (client, job))

/-- A connection from `accept` to its end: first on the thread that listens, then on a worker. -/
def life : Life Unit := do
  let accepted ← onAccept
  match accepted with
  | some (client, job) => serverJobFunction job client
  | none => pure ()

end Server

end RobotServer
