import Mathlib.Data.Fintype.Basic
import RobotServer.Workers.Refinement

/-!
# Ledger — every job is somewhere, once

What the threads show of themselves in any order of their steps is a run of the pool, so what
holds of a pool holds of them: no job is lost, none is with two workers, and a job waits until the
jobs that came after it have been taken.
-/

namespace RobotServer

namespace Workqueue

open Interaction Memory Maps Pool

variable {T J : Type} [Fintype T] [DecidableEq T] [DecidableEq J]

/-- The acts that a run shows. -/
def history (s : State T J) (events : List (Event T J)) : List (Act T J) :=
  Machine.trace State.step shows s events

/-- A run from a state that a pool describes. -/
theorem Follows.run {p : Pool T J} {s s' : State T J} {events : List (Event T J)}
    (h : Follows p s) (hrun : Machine.run State.step s events = some s') :
    ∃ p', Machine.run Pool.step p (history s events) = some p' ∧ Follows p' s' :=
  Machine.run_simulates (R := Follows)
    (fun _ _ _ _ hfollows hstep => (moves_of_step hstep).follows hfollows) events h hrun

/-- The pool behind a run from the start. -/
theorem follows_of_init {numWorkers : Int} {attempts : Attempts T} {events : List (Event T J)}
    {s : State T J}
    (hrun : Machine.run State.step (State.workqueueInit numWorkers attempts).1 events = some s) :
    ∃ p, Machine.run Pool.step .empty
      (history (State.workqueueInit numWorkers attempts).1 events) = some p ∧ Follows p s := by
  obtain ⟨crew, hready, -⟩ := ready_workqueueInit (J := J) numWorkers attempts
  exact hready.follows.run hrun

/-- Of two threads, `true` is a worker. -/
def oneWorker : Attempts Bool where
  outcome i := if i = 0 then .started true else .outOfMemory
  distinct := by
    intro i j worker hi hj
    split at hi
    case isFalse => cases hi
    case isTrue hi0 =>
        split at hj
        case isFalse => cases hj
        case isTrue hj0 => rw [hi0, hj0]

/-- The other thread adds a job and the worker takes it. -/
def oneJob : List (Event Bool Nat) :=
  [.callAddJob false 7, .step false, .step false, .signal false none, .step false,
    .step true, .step true, .step true, .step true, .step true]

/-- The threads with their linked list refine the pool with its stack. -/
theorem workqueue_refines {numWorkers : Int} {attempts : Attempts T} {events : List (Event T J)}
    {s : State T J}
    (hrun : Machine.run State.step (State.workqueueInit numWorkers attempts).1 events = some s) :
    ∃ p, Machine.run Pool.step .empty
        (history (State.workqueueInit numWorkers attempts).1 events) = some p ∧
      s.waitingJobs.Represents p.stack ∧ ∀ t, p.inHand t = (s.place t).inHand := by
  obtain ⟨p, hpool, hfollows⟩ := follows_of_init hrun
  exact ⟨p, hpool, hfollows.stacked.represents, hfollows.inHand⟩

theorem workqueue_refines_oneJob :
    ∃ s, Machine.run State.step (State.workqueueInit 1 oneWorker).1 oneJob = some s ∧
      ∃ p, Machine.run Pool.step .empty
          (history (State.workqueueInit 1 oneWorker).1 oneJob) = some p ∧
        s.waitingJobs.Represents p.stack ∧ ∀ t, p.inHand t = (s.place t).inHand :=
  ⟨_, rfl, workqueue_refines rfl⟩

omit [Fintype T] [DecidableEq T] [DecidableEq J] in
theorem Place.mem_jobs {p : Place T J} {job : J} (h : p.inHand = some job) : job ∈ p.jobs := by
  cases p <;> simp_all [Place.inHand, Place.jobs, held]

/-- A job that was added waits, is with one worker, is finished or was dropped by a shutdown; what
waits and what a worker has is still allocated. -/
theorem jobs_accounted {numWorkers : Int} {attempts : Attempts T} {events : List (Event T J)}
    {s : State T J}
    (hrun : Machine.run State.step (State.workqueueInit numWorkers attempts).1 events = some s) :
    ∃ waiting dropped : List J, s.waitingJobs.Represents waiting ∧
      added (history (State.workqueueInit numWorkers attempts).1 events) =
        ↑waiting + total held (fun t => (s.place t).inHand) +
          finished (history (State.workqueueInit numWorkers attempts).1 events) + ↑dropped ∧
      (.drop ∉ history (State.workqueueInit numWorkers attempts).1 events → dropped = []) ∧
      waiting.Nodup ∧ (∀ job ∈ waiting, job ∈ s.heap) ∧
      (∀ t u job, (s.place t).inHand = some job → (s.place u).inHand = some job → t = u) ∧
      ∀ t job, (s.place t).inHand = some job → job ∉ waiting ∧ job ∈ s.heap := by
  obtain ⟨p, hpool, hfollows⟩ := follows_of_init hrun
  have hcontent := content_run hpool
  have hhands : total held p.inHand = total held (fun t => (s.place t).inHand) :=
    total_congr fun t => by rw [hfollows.inHand]
  have hnodup := hfollows.heap ▸ s.heap.nodup
  have hheap : ∀ job, job ∈ s.heap ↔ job ∈ ↑p.stack + ↑p.dropped + total Place.jobs s.place :=
    fun job => by rw [← Finset.mem_val, hfollows.heap]
  refine ⟨p.stack, p.dropped, hfollows.stacked.represents, ?_, fun hdrop => ?_,
    hfollows.stacked.represents.nodup, fun job hjob => ?_, fun t u job ht hu => ?_,
    fun t job ht => ⟨hfollows.not_mem_stack (Place.mem_jobs ht), ?_⟩⟩
  · have hnone : total held (Pool.empty : Pool T J).inHand = 0 := total_eq_zero fun _ => rfl
    simp only [content, hnone, hhands] at hcontent
    change _ = 0 + 0 + 0 + _ at hcontent
    rw [zero_add, zero_add, zero_add] at hcontent
    rw [← hcontent]
    abel
  · exact dropped_run hpool hdrop
  · exact (hheap job).mpr (Multiset.mem_add.mpr (.inl (Multiset.mem_add.mpr (.inl hjob))))
  · exact eq_of_mem_total (Multiset.nodup_add.mp hnodup).2.1 (Place.mem_jobs ht)
      (Place.mem_jobs hu)
  · exact (hheap job).mpr (Multiset.mem_add.mpr (.inr (mem_total (Place.mem_jobs ht))))

theorem jobs_accounted_oneJob :
    ∃ s, Machine.run State.step (State.workqueueInit 1 oneWorker).1 oneJob = some s ∧
      ∃ waiting dropped : List Nat, s.waitingJobs.Represents waiting ∧
        added (history (State.workqueueInit 1 oneWorker).1 oneJob) =
          ↑waiting + total held (fun t => (s.place t).inHand) +
            finished (history (State.workqueueInit 1 oneWorker).1 oneJob) + ↑dropped ∧
        (.drop ∉ history (State.workqueueInit 1 oneWorker).1 oneJob → dropped = []) ∧
        waiting.Nodup ∧ (∀ job ∈ waiting, job ∈ s.heap) ∧
        (∀ t u job, (s.place t).inHand = some job → (s.place u).inHand = some job → t = u) ∧
        ∀ t job, (s.place t).inHand = some job → job ∉ waiting ∧ job ∈ s.heap :=
  ⟨_, rfl, jobs_accounted rfl⟩

/-- Before a job is taken, every job that came after it has been taken. -/
theorem newest_first {numWorkers : Int} {attempts : Attempts T} {events : List (Event T J)}
    {s : State T J} {before between after : List (Act T J)} {job : J} {worker : T}
    (hrun : Machine.run State.step (State.workqueueInit numWorkers attempts).1 events = some s)
    (hhistory : history (State.workqueueInit numWorkers attempts).1 events =
      before ++ (.add job :: between ++ [.take worker job]) ++ after)
    (hspares : ∀ act ∈ between, act.Spares job) : taken between = added between := by
  obtain ⟨p, hpool, -⟩ := follows_of_init hrun
  rw [hhistory] at hpool
  obtain ⟨p₂, hfirst, -⟩ := Machine.run_append_iff.mp hpool
  obtain ⟨p₁, -, hmiddle⟩ := Machine.run_append_iff.mp hfirst
  exact newer_taken hmiddle hspares

/-- Two jobs are added, and the worker takes the second one and then the first. -/
def twoJobs : List (Event Bool Nat) :=
  [.callAddJob false 7, .step false, .step false, .signal false none, .step false,
    .callAddJob false 8, .step false, .step false, .signal false none, .step false,
    .step true, .step true, .step true, .step true, .step true, .finish true,
    .step true, .step true, .step true, .step true]

theorem newest_first_twoJobs :
    taken ([.add 8, .take true 8, .finish true 8] : List (Act Bool Nat)) =
      added [.add 8, .take true 8, .finish true 8] :=
  @newest_first Bool Nat _ _ _ 1 oneWorker twoJobs _ [] _ [] 7 true rfl rfl
    (by simp [Act.Spares, Act.added?, Act.taken?])

end Workqueue

end RobotServer
