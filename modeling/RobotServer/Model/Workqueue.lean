import Mathlib.Data.Fintype.Defs
import Mathlib.Data.Finset.Basic
import RobotServer.Interaction.Machine
import RobotServer.Memory.Links

/-!
# Workqueue — the job queue of `workqueue.c` and its worker threads

Threads run `worker_function`, or call `workqueue_add_job` and `workqueue_shutdown` from outside.
A `Place` is where a thread stands in its code; a step of a thread is one access to what the
threads share, and blocks where the code blocks.  The mutex stays with the thread that ended with
it, as `pthread_exit` does not free it.

- a worker is told by its thread, a job by its address; `heap` is the jobs that are allocated;
- a wait may end without a signal, and a signal picks any of the threads that wait;
- a step that reads or writes a worker behind its `free` has no result.
-/

namespace RobotServer

namespace Workqueue

open Memory

/-! ## The list macros -/

section Lists

variable {α : Type} [DecidableEq α]

def llAdd (item : α) (list : Links α) : Links α :=
  { (list.setPrev item none).setNext item list.head with head := some item }

def llRemove (item : α) (list : Links α) : Links α :=
  let list := match list.prev item with
    | some before => list.setNext before (list.next item)
    | none => list
  let list := match list.next item with
    | some behind => list.setPrev behind (list.prev item)
    | none => list
  let list := if list.head = some item then { list with head := list.next item } else list
  (list.setNext item none).setPrev item none

end Lists

/-! ## Threads -/

variable {T J : Type}

inductive Place (T J : Type) where
  /-- Neither a worker nor in one of the functions. -/
  | outside
  -- `worker_function`
  | locking
  /-- At the condition of the inner loop. -/
  | queueTest
  /-- At the test in the inner loop. -/
  | terminateTest
  /-- About to wait. -/
  | waiting
  | asleep
  /-- At the test behind the inner loop. -/
  | leaveTest
  | taking
  | unlocking (job : Option J)
  | running (job : J)
  /-- Behind the outer loop. -/
  | leaving
  | gone
  -- `workqueue_add_job`
  | addLocking (job : J)
  | adding (job : J)
  | signalling
  -- `workqueue_shutdown`
  /-- At the condition of the loop, and behind it where there is no worker. -/
  | marking (worker : Option T)
  | striding (worker : T)
  | clearing
  | broadcasting
  /-- About to unlock and return. -/
  | returning
  deriving DecidableEq, Repr

structure State (T J : Type) where
  workers : Links T
  waitingJobs : Links J
  jobsMutex : Option T
  terminate : T → Bool
  place : T → Place T J
  heap : Finset J

/-- A thread moves on, a wait ends, a job's function returns or a function is called. -/
inductive Event (T J : Type) where
  | step (thread : T)
  | signal (thread : T) (woken : Option T)
  | wakeUp (thread : T)
  | finish (thread : T)
  | callAddJob (thread : T) (job : J)
  | callShutdown (thread : T)
  deriving DecidableEq, Repr

/-! ## Starting the workers -/

/-- What comes of the `malloc` and the `pthread_create` for a worker. -/
inductive Attempt (T : Type) where
  | outOfMemory
  | notStarted
  | started (worker : T)
  deriving DecidableEq, Repr

/-- The attempts of `workqueue_init` one after another: no two threads are the same. -/
structure Attempts (T : Type) where
  outcome : Nat → Attempt T
  distinct : ∀ {i j : Nat} {worker : T},
    outcome i = .started worker → outcome j = .started worker → i = j

namespace State

/-- Nothing has been started. -/
def zero : State T J :=
  { workers := .zero, waitingJobs := .zero, jobsMutex := none, terminate := fun _ => false,
    place := fun _ => .outside, heap := ∅ }

section Moves

variable [DecidableEq T]

/-- Thread `t` goes to `p`. -/
def move (s : State T J) (t : T) (p : Place T J) : State T J :=
  { s with place := Function.update s.place t p }

/-- Thread `t` locks the mutex, if it is free, and goes to `p`. -/
def lock (s : State T J) (t : T) (p : Place T J) : Option (State T J) :=
  if s.jobsMutex = none then some { s.move t p with jobsMutex := some t } else none

/-- Thread `t` unlocks the mutex and goes to `p`. -/
def unlock (s : State T J) (t : T) (p : Place T J) : State T J :=
  { s.move t p with jobsMutex := none }

end Moves

/-- The place behind a broadcast. -/
def awoken : Place T J → Place T J
  | .asleep => .locking
  | p => p

def wakeAll (s : State T J) : State T J :=
  { s with place := fun t => awoken (s.place t) }

section Steps

variable [DecidableEq T]

/-- The loop of `workqueue_init` over the workers that are left. -/
def initLoop (attempts : Attempts T) : Nat → Nat → State T J → State T J × Int
  | 0, _, s => (s, 0)
  | left + 1, i, s =>
      match attempts.outcome i with
      | .outOfMemory => (s, 1)
      | .notStarted => (s, 1)
      | .started worker =>
          let s := { s.move worker .locking with workers := llAdd worker s.workers }
          initLoop attempts left (i + 1) s

/-- All rounds come before any worker runs and before anyone calls: a thread that is started here
looks at the queue when the last one has been started. -/
def workqueueInit (numWorkers : Int) (attempts : Attempts T) : State T J × Int :=
  let numWorkers := if numWorkers < 1 then 1 else numWorkers
  initLoop attempts numWorkers.toNat 0 .zero

/-! ## Steps -/

variable [DecidableEq J]

/-- What thread `t` does next where it needs no choice. -/
def next (s : State T J) (t : T) : Option (State T J) :=
  match s.place t with
  | .locking => s.lock t .queueTest
  | .queueTest =>
      if s.waitingJobs.head = none then s.move t .terminateTest else s.move t .leaveTest
  | .terminateTest => if s.terminate t then s.move t .leaveTest else s.move t .waiting
  | .waiting => s.unlock t .asleep
  | .leaveTest => if s.terminate t then s.move t .leaving else s.move t .taking
  | .taking =>
      match s.waitingJobs.head with
      | some job =>
          some { s.move t (.unlocking (some job)) with waitingJobs := llRemove job s.waitingJobs }
      | none => s.move t (.unlocking none)
  | .unlocking (some job) => s.unlock t (.running job)
  | .unlocking none => s.unlock t .locking
  | .leaving => s.move t .gone
  | .addLocking job => s.lock t (.adding job)
  | .adding job => some { s.move t .signalling with waitingJobs := llAdd job s.waitingJobs }
  | .marking (some worker) =>
      if s.place worker = .gone then none
      else some { s.move t (.striding worker) with
        terminate := Function.update s.terminate worker true }
  | .striding worker =>
      if s.place worker = .gone then none else s.move t (.marking (s.workers.next worker))
  | .marking none => s.lock t .clearing
  | .clearing =>
      some { s.move t .broadcasting with
        workers := { s.workers with head := none }
        waitingJobs := { s.waitingJobs with head := none } }
  | .broadcasting => s.wakeAll.move t .returning
  | .returning => s.unlock t .outside
  | .outside | .asleep | .running _ | .gone | .signalling => none

/-- A signal wakes a thread that waits, if there is one. -/
def signal [Fintype T] (s : State T J) (t : T) : Option T → Option (State T J)
  | some woken =>
      if s.place t = .signalling ∧ s.place woken = .asleep then
        (s.move woken .locking).move t .returning
      else none
  | none =>
      if s.place t = .signalling ∧ ∀ other, s.place other ≠ .asleep then s.move t .returning
      else none

def step [Fintype T] (s : State T J) : Event T J → Option (State T J)
  | .step t => s.next t
  | .signal t woken => s.signal t woken
  | .wakeUp t => if s.place t = .asleep then s.move t .locking else none
  | .finish t =>
      match s.place t with
      | .running job => some { s.move t .locking with heap := s.heap.erase job }
      | _ => none
  | .callAddJob t job =>
      -- The job comes from `malloc`: no one else has it.
      if s.place t = .outside ∧ job ∉ s.heap then
        some { s.move t (.addLocking job) with heap := insert job s.heap }
      else none
  | .callShutdown t =>
      if s.place t = .outside then s.move t (.marking s.workers.head) else none

end Steps

end State

end Workqueue

end RobotServer
