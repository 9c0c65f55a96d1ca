import RobotServer.Workers.Lists
import RobotServer.Workers.Pool
import RobotServer.Workers.Steps

/-!
# Refinement — the threads and their linked list are a pool of jobs

`Follows p s` relates a pool to a state of the threads: the linked list is the stack, the workers
have the same jobs in hand, and the jobs that are allocated are those of the pool and those on
their way into it.  Every step of a thread is followed by the acts it shows.
-/

namespace RobotServer

namespace Workqueue

open Interaction Memory Maps Pool

variable {T J : Type}

/-! ## The state behind `workqueue_init` -/

/-- The workers of `crew` are about to start, and nothing else has happened. -/
structure Ready (s : State T J) (crew : List T) : Prop where
  workers : Stacked s.workers crew
  waitingJobs : s.waitingJobs = .zero
  jobsMutex : s.jobsMutex = none
  terminate : ∀ t, s.terminate t = false
  locking : ∀ t ∈ crew, s.place t = .locking
  outside : ∀ t, t ∉ crew → s.place t = .outside
  heap : s.heap = ∅

section Init

variable [DecidableEq T]

theorem Ready.initLoop {attempts : Attempts T} : ∀ (left : Nat) {i : Nat} {s : State T J}
    {crew : List T}, Ready s crew → (∀ t ∈ crew, ∃ j, j < i ∧ attempts.outcome j = .started t) →
      ∃ crew', Ready (State.initLoop attempts left i s).1 crew' ∧
        ((State.initLoop attempts left i s).2 = 0 → crew'.length = crew.length + left)
  | 0, _, _, crew, h, _ => ⟨crew, h, fun _ => rfl⟩
  | left + 1, i, s, crew, h, hstarted => by
      unfold State.initLoop
      cases hattempt : attempts.outcome i with
      | outOfMemory => exact ⟨crew, h, fun hcode => by cases hcode⟩
      | notStarted => exact ⟨crew, h, fun hcode => by cases hcode⟩
      | started worker =>
          have hnew : worker ∉ crew := fun hin => by
            obtain ⟨j, hj, hjs⟩ := hstarted worker hin
            exact Nat.ne_of_lt hj (attempts.distinct hjs hattempt)
          have hnext : Ready { s.move worker .locking with
              workers := llAdd worker s.workers } (worker :: crew) := {
            workers := h.workers.llAdd hnew
            waitingJobs := h.waitingJobs
            jobsMutex := h.jobsMutex
            terminate := h.terminate
            locking := fun t ht => by
              by_cases heq : t = worker
              · exact heq ▸ Function.update_self ..
              · have hold := (List.mem_cons.mp ht).resolve_left heq
                exact (Function.update_of_ne heq ..).trans (h.locking t hold)
            outside := fun t ht => by
              have hne := List.ne_of_not_mem_cons ht
              have hold := List.not_mem_of_not_mem_cons ht
              exact (Function.update_of_ne hne ..).trans (h.outside t hold)
            heap := h.heap }
          have hstarted' : ∀ t ∈ worker :: crew, ∃ j, j < i + 1 ∧
              attempts.outcome j = .started t := fun t ht => by
            rcases List.mem_cons.mp ht with rfl | hold
            · exact ⟨i, Nat.lt_succ_self i, hattempt⟩
            · obtain ⟨j, hj, hjs⟩ := hstarted t hold
              exact ⟨j, Nat.lt_succ_of_lt hj, hjs⟩
          obtain ⟨crew', hcrew', hlength⟩ := Ready.initLoop left hnext hstarted'
          refine ⟨crew', hcrew', fun hcode => ?_⟩
          rw [hlength hcode, List.length_cons]
          omega

/-- `workqueue_init` starts the workers it is asked for, and one at least, if it returns zero. -/
theorem ready_workqueueInit (numWorkers : Int) (attempts : Attempts T) :
    ∃ crew, Ready (State.workqueueInit (J := J) numWorkers attempts).1 crew ∧
      ((State.workqueueInit (J := J) numWorkers attempts).2 = 0 →
        (crew.length : Int) = max numWorkers 1) := by
  have hzero : Ready (.zero : State T J) [] := {
    workers := stacked_zero
    waitingJobs := rfl
    jobsMutex := rfl
    terminate := fun _ => rfl
    locking := fun _ h => nomatch h
    outside := fun _ _ => rfl
    heap := rfl }
  have hnobody : ∀ t ∈ ([] : List T), ∃ j, j < 0 ∧ attempts.outcome j = .started t :=
    fun _ h => nomatch h
  obtain ⟨crew, hready, hlength⟩ :=
    Ready.initLoop (if numWorkers < 1 then 1 else numWorkers).toNat hzero hnobody
  refine ⟨crew, hready, fun hcode => ?_⟩
  have hcount := hlength hcode
  rw [List.length_nil, Nat.zero_add] at hcount
  rw [hcount]
  split <;> omega

end Init

theorem Ready.place_cases {s : State T J} {crew : List T} (h : Ready s crew) (t : T) :
    s.place t = .locking ∨ s.place t = .outside := by
  classical
  by_cases ht : t ∈ crew
  · exact .inl (h.locking t ht)
  · exact .inr (h.outside t ht)

theorem Ready.exclusive {s : State T J} {crew : List T} (h : Ready s crew) : Exclusive s := by
  intro t
  rw [h.jobsMutex]
  rcases h.place_cases t with hplace | hplace <;> rw [hplace] <;>
    exact ⟨fun hfalse => (nomatch hfalse), fun hnone => (nomatch hnone)⟩

theorem Ready.aware {s : State T J} {crew : List T} (h : Ready s crew) : Aware s := by
  intro t
  rcases h.place_cases t with hplace | hplace <;> rw [hplace] <;> trivial

/-! ## Threads and pools -/

namespace Place

/-- The job a worker has taken and not finished. -/
def inHand : Place T J → Option J
  | .unlocking job => job
  | .running job => some job
  | _ => none

/-- The jobs that are with a thread. -/
def jobs : Place T J → Multiset J
  | .addLocking job | .adding job => {job}
  | p => held p.inHand

theorem entry_jobs {p q : Place T J} (h : p.entry = some q) :
    q.inHand = p.inHand ∧ q.jobs = p.jobs := by
  unfold Place.entry at h
  split at h <;> cases h <;> exact ⟨rfl, rfl⟩

theorem exit_jobs {p q : Place T J} (h : p.exit = some q) :
    q.inHand = p.inHand ∧ q.jobs = p.jobs := by
  unfold Place.exit at h
  split at h <;> cases h <;> exact ⟨rfl, rfl⟩

end Place

theorem Looks.jobs {s : State T J} {t : T} {p q : Place T J} (h : Looks s t p q) :
    q.inHand = p.inHand ∧ q.jobs = p.jobs := by
  cases h <;> exact ⟨rfl, rfl⟩

structure Follows [Fintype T] (p : Pool T J) (s : State T J) : Prop where
  stacked : Stacked s.waitingJobs p.stack
  inHand : ∀ t, p.inHand t = (s.place t).inHand
  heap : s.heap.val = ↑p.stack + ↑p.dropped + total Place.jobs s.place

/-- What a step does to the pool. -/
def shows (s : State T J) : Event T J → List (Act T J)
  | .step t =>
      match s.place t with
      | .adding job => [.add job]
      | .taking => s.waitingJobs.head.toList.map (.take t)
      | .clearing => [.drop]
      | _ => []
  | .finish t =>
      match s.place t with
      | .running job => [.finish t job]
      | _ => []
  | _ => []

theorem Ready.follows [Fintype T] {s : State T J} {crew : List T} (h : Ready s crew) :
    Follows Pool.empty s := by
  refine ⟨h.waitingJobs ▸ stacked_zero, fun t => ?_, ?_⟩
  · rcases h.place_cases t with hplace | hplace <;> rw [hplace] <;> rfl
  · have hnone : total Place.jobs s.place = 0 := total_eq_zero fun t => by
      rcases h.place_cases t with hplace | hplace <;> rw [hplace] <;> rfl
    rw [h.heap, hnone]
    rfl

theorem Follows.wakeAll [Fintype T] {p : Pool T J} {s : State T J} (h : Follows p s) :
    Follows p s.wakeAll := by
  have hjobs : ∀ t, (State.awoken (s.place t)).inHand = (s.place t).inHand ∧
      (State.awoken (s.place t)).jobs = (s.place t).jobs := fun t => by
    cases s.place t <;> exact ⟨rfl, rfl⟩
  refine ⟨h.stacked, fun t => (h.inHand t).trans (hjobs t).1.symm, ?_⟩
  exact h.heap.trans (congrArg _ (total_congr fun t => ((hjobs t).2).symm))

section Steps

variable [Fintype T] [DecidableEq T]

/-- A move that takes no job along. -/
theorem Follows.move {p : Pool T J} {s s' : State T J} (h : Follows p s) {t : T}
    {q : Place T J} (hplace : s'.place = Function.update s.place t q)
    (hlist : s'.waitingJobs = s.waitingJobs) (hheap : s'.heap = s.heap)
    (hhand : q.inHand = (s.place t).inHand) (hjobs : q.jobs = (s.place t).jobs) :
    Follows p s' := by
  refine ⟨hlist ▸ h.stacked, fun u => ?_, ?_⟩
  · rw [hplace]
    by_cases hu : u = t
    · subst hu
      rw [Function.update_self, hhand]
      exact h.inHand u
    · rw [Function.update_of_ne hu]
      exact h.inHand u
  · rw [hheap, hplace, total_update_same hjobs]
    exact h.heap

variable [DecidableEq J]

omit [DecidableEq T] [DecidableEq J] in
/-- A job that is on its way into the list is not in it yet. -/
theorem Follows.not_mem_stack {p : Pool T J} {s : State T J} (h : Follows p s) {t : T} {job : J}
    (hjob : job ∈ (s.place t).jobs) : job ∉ p.stack := by
  intro hin
  have hnodup := h.heap ▸ s.heap.nodup
  have hdisjoint := (Multiset.nodup_add.mp hnodup).2.2
  exact Multiset.disjoint_left.mp hdisjoint
    (Multiset.mem_add.mpr (.inl (Multiset.mem_coe.mpr hin))) (mem_total hjob)

omit [DecidableEq J] in
/-- The hands behind a move. -/
theorem Follows.inHand_move {p : Pool T J} {s : State T J} (h : Follows p s) (t : T)
    (q : Place T J) (u : T) : Function.update p.inHand t q.inHand u =
      (Function.update s.place t q u).inHand := by
  by_cases hu : u = t
  · subst hu
    rw [Function.update_self, Function.update_self]
  · rw [Function.update_of_ne hu, Function.update_of_ne hu]
    exact h.inHand u

theorem Follows.take {p : Pool T J} {s : State T J} (h : Follows p s) {t : T} {job : J}
    (hplace : s.place t = .taking) (hhead : s.waitingJobs.head = some job) :
    ∃ p', p.step (.take t job) = some p' ∧ Follows p'
      { s.move t (.unlocking (some job)) with waitingJobs := llRemove job s.waitingJobs } := by
  obtain ⟨rest, hstack⟩ := List.head?_eq_some_iff.mp (h.stacked.head.symm.trans hhead)
  have hempty : p.inHand t = none := by rw [h.inHand, hplace]; rfl
  have hjobs : total Place.jobs (Function.update s.place t (.unlocking (some job))) =
      total Place.jobs s.place + {job} := total_gain (by rw [hplace]; rfl) rfl
  refine ⟨_, Pool.step_take hstack hempty, ?_, h.inHand_move t (.unlocking (some job)), ?_⟩
  · have hstacked := h.stacked
    rw [hstack] at hstacked
    exact hstacked.llRemove_head
  · change s.heap.val = ↑rest + ↑p.dropped + total Place.jobs (Function.update s.place t _)
    rw [h.heap, hstack, hjobs, ← Multiset.cons_coe, ← Multiset.singleton_add]
    abel

theorem Follows.add {p : Pool T J} {s : State T J} (h : Follows p s) {t : T} {job : J}
    (hplace : s.place t = .adding job) :
    ∃ p', p.step (.add job) = some p' ∧ Follows p'
      { s.move t .signalling with waitingJobs := llAdd job s.waitingJobs } := by
  have hnew : job ∉ p.stack := h.not_mem_stack (t := t) (by
    rw [hplace]
    exact Multiset.mem_singleton_self job)
  have hsame : p.inHand t = none := by rw [h.inHand, hplace]; rfl
  have hjobs : total Place.jobs (Function.update s.place t .signalling) + {job} =
      total Place.jobs s.place := total_loss (by rw [hplace]; rfl) rfl
  refine ⟨_, rfl, h.stacked.llAdd hnew, fun u => ?_, ?_⟩
  · have hmove := h.inHand_move t .signalling u
    rwa [show (Place.signalling : Place T J).inHand = p.inHand t from hsame.symm,
      Function.update_eq_self] at hmove
  · change s.heap.val = ↑(job :: p.stack) + ↑p.dropped +
      total Place.jobs (Function.update s.place t _)
    rw [h.heap, ← hjobs, ← Multiset.cons_coe, ← Multiset.singleton_add]
    abel

theorem Follows.clear {p : Pool T J} {s : State T J} (h : Follows p s) {t : T}
    (hplace : s.place t = .clearing) :
    ∃ p', p.step .drop = some p' ∧ Follows p'
      { s.move t .broadcasting with
        workers := { s.workers with head := none }
        waitingJobs := { s.waitingJobs with head := none } } := by
  refine ⟨_, rfl, Stacked.forget _, fun u => ?_, ?_⟩
  · have hsame : p.inHand t = none := by rw [h.inHand, hplace]; rfl
    have hmove := h.inHand_move t .broadcasting u
    rwa [show (Place.broadcasting : Place T J).inHand = p.inHand t from hsame.symm,
      Function.update_eq_self] at hmove
  · change s.heap.val = ↑([] : List J) + ↑(p.stack ++ p.dropped) +
      total Place.jobs (Function.update s.place t _)
    rw [total_update_same (by rw [hplace]; rfl), h.heap, ← Multiset.coe_add, Multiset.coe_nil,
      zero_add]

theorem Follows.finish {p : Pool T J} {s : State T J} (h : Follows p s) {t : T} {job : J}
    (hplace : s.place t = .running job) :
    ∃ p', p.step (.finish t job) = some p' ∧
      Follows p' { s.move t .locking with heap := s.heap.erase job } := by
  have hheld : p.inHand t = some job := by rw [h.inHand, hplace]; rfl
  have hjobs : total Place.jobs (Function.update s.place t .locking) + {job} =
      total Place.jobs s.place := total_loss (by rw [hplace]; rfl) rfl
  refine ⟨_, Pool.step_finish hheld, h.stacked, h.inHand_move t .locking, ?_⟩
  change (s.heap.erase job).val = ↑p.stack + ↑p.dropped +
    total Place.jobs (Function.update s.place t _)
  rw [Finset.erase_val, h.heap, ← hjobs, ← add_assoc, add_comm _ ({job} : Multiset J),
    Multiset.singleton_add]
  exact Multiset.erase_cons_head _ _

theorem Follows.callAddJob {p : Pool T J} {s : State T J} (h : Follows p s) {t : T} {job : J}
    (hplace : s.place t = .outside) (hfresh : job ∉ s.heap) :
    Follows p { s.move t (.addLocking job) with heap := insert job s.heap } := by
  have hjobs : total Place.jobs (Function.update s.place t (.addLocking job)) =
      total Place.jobs s.place + {job} := total_gain (by rw [hplace]; rfl) rfl
  refine ⟨h.stacked, fun u => ?_, ?_⟩
  · have hsame : p.inHand t = none := by rw [h.inHand, hplace]; rfl
    have hmove := h.inHand_move t (.addLocking job) u
    rwa [show (Place.addLocking job : Place T J).inHand = p.inHand t from hsame.symm,
      Function.update_eq_self] at hmove
  · change (insert job s.heap).val = ↑p.stack + ↑p.dropped +
      total Place.jobs (Function.update s.place t _)
    rw [Finset.insert_val_of_notMem hfresh, h.heap, hjobs, ← Multiset.singleton_add]
    abel

omit [DecidableEq J] in
theorem Follows.signal {p : Pool T J} {s : State T J} (h : Follows p s) {t woken : T}
    (hplace : s.place t = .signalling) (hwoken : s.place woken = .asleep) :
    Follows p ((s.move woken .locking).move t .returning) := by
  have hne : t ≠ woken := by
    rintro rfl
    rw [hplace] at hwoken
    cases hwoken
  have hfirst : Follows p (s.move woken .locking) :=
    h.move rfl rfl rfl (by rw [hwoken]; rfl) (by rw [hwoken]; rfl)
  have ht : (s.move woken .locking).place t = .signalling :=
    (Function.update_of_ne hne ..).trans hplace
  exact hfirst.move rfl rfl rfl (by rw [ht]; rfl) (by rw [ht]; rfl)

/-- Each step of a thread is what it shows to the pool. -/
theorem Moves.follows {p : Pool T J} {s s' : State T J} {e : Event T J} (hmoves : Moves s e s')
    (h : Follows p s) :
    ∃ p', Machine.run Pool.step p (shows s e) = some p' ∧ Follows p' s' := by
  cases hmoves with
  | @lock t q hplace hfree =>
      have hshows : shows s (.step t) = [] := by
        unfold Place.entry at hplace
        split at hplace <;> simp_all [shows]
      rw [hshows]
      exact ⟨p, rfl, h.move rfl rfl rfl (Place.entry_jobs hplace).1 (Place.entry_jobs hplace).2⟩
  | @unlock t q hplace =>
      have hshows : shows s (.step t) = [] := by
        unfold Place.exit at hplace
        split at hplace <;> simp_all [shows]
      rw [hshows]
      exact ⟨p, rfl, h.move rfl rfl rfl (Place.exit_jobs hplace).1 (Place.exit_jobs hplace).2⟩
  | @look t q hplace =>
      have hshows : shows s (.step t) = [] := by
        generalize hp : s.place t = place at hplace
        cases hplace <;> simp_all [shows]
      rw [hshows]
      exact ⟨p, rfl, h.move rfl rfl rfl hplace.jobs.1 hplace.jobs.2⟩
  | @take t job hplace hhead =>
      have hshows : shows s (.step t) = [.take t job] := by simp [shows, hplace, hhead]
      rw [hshows, Machine.run_singleton]
      exact h.take hplace hhead
  | @add t job hplace =>
      have hshows : shows s (.step t) = [.add job] := by simp [shows, hplace]
      rw [hshows, Machine.run_singleton]
      exact h.add hplace
  | @mark t worker hplace hworker =>
      refine ⟨p, by simp [shows, hplace], h.move rfl rfl rfl ?_ ?_⟩ <;> rw [hplace] <;> rfl
  | @stride t worker hplace hworker =>
      refine ⟨p, by simp [shows, hplace], h.move rfl rfl rfl ?_ ?_⟩ <;> rw [hplace] <;> rfl
  | @clear t hplace =>
      have hshows : shows s (.step t) = [.drop] := by simp [shows, hplace]
      rw [hshows, Machine.run_singleton]
      exact h.clear hplace
  | @broadcast t hplace =>
      refine ⟨p, by simp [shows, hplace], h.wakeAll.move rfl rfl rfl ?_ ?_⟩ <;>
        simp only [State.wakeAll, hplace] <;> rfl
  | signal hplace hwoken => exact ⟨p, rfl, h.signal hplace hwoken⟩
  | noSignal hplace =>
      refine ⟨p, rfl, h.move rfl rfl rfl ?_ ?_⟩ <;> rw [hplace] <;> rfl
  | wakeUp hplace =>
      refine ⟨p, rfl, h.move rfl rfl rfl ?_ ?_⟩ <;> rw [hplace] <;> rfl
  | @finish t job hplace =>
      have hshows : shows s (.finish t) = [.finish t job] := by simp [shows, hplace]
      rw [hshows, Machine.run_singleton]
      exact h.finish hplace
  | callAddJob hplace hfresh => exact ⟨p, rfl, h.callAddJob hplace hfresh⟩
  | callShutdown hplace =>
      refine ⟨p, rfl, h.move rfl rfl rfl ?_ ?_⟩ <;> rw [hplace] <;> rfl

end Steps

end Workqueue

end RobotServer
