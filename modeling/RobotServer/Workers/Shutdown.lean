import RobotServer.Workers.Wakeups

/-!
# Shutdown — what `workqueue_shutdown` leaves behind

A worker that is told to terminate leaves its loop with the mutex locked.  From then on no other
thread gets the mutex: the first worker that ends is the last thread that moves.

- `Walk` is what a shutdown has reached in its list: all workers are marked when the queue is cut;
- `Over` is a pool that has been shut down, in which no worker falls asleep any more.
-/

namespace RobotServer

namespace Workqueue

open Interaction Memory Maps Pool

variable {T J : Type}

/-! ## The mutex that is never unlocked -/

/-- The worker is behind its loop. -/
def Place.hasLeft : Place T J → Bool
  | .leaving | .gone => true
  | _ => false

theorem Place.holds_of_hasLeft {p : Place T J} (h : p.hasLeft = true) : p.holds = true := by
  cases p <;> first | rfl | cases h

section Frozen

variable [DecidableEq T]

theorem hasLeft_update {place : T → Place T J} {w t : T} {q : Place T J}
    (hw : (place w).hasLeft = true) (hq : (place t).hasLeft = true → q.hasLeft = true) :
    (Function.update place t q w).hasLeft = true := by
  by_cases hwt : w = t
  · subst hwt
    rw [Function.update_self]
    exact hq hw
  · rw [Function.update_of_ne hwt]
    exact hw

variable [DecidableEq J]

/-- A step beside a worker that has left its loop. -/
theorem Moves.hasLeft {s s' : State T J} {e : Event T J} (hmoves : Moves s e s')
    (hexcl : Exclusive s) {w : T} (hw : (s.place w).hasLeft = true) :
    (s'.place w).hasLeft = true ∧ s'.waitingJobs = s.waitingJobs ∧
      ∀ act ∈ shows s e, ∃ t job, act = .finish t job := by
  -- A thread that has the mutex is the worker itself.
  have hself : ∀ {t}, (s.place t).holds = true → (s.place t).hasLeft = true := fun ht =>
    hexcl.eq (Place.holds_of_hasLeft hw) ht ▸ hw
  cases hmoves with
  | @lock t q hplace =>
      refine ⟨hasLeft_update hw fun ht => ?_, rfl, ?_⟩
      · have hnot := (Place.holds_of_entry hplace).1
        rw [Place.holds_of_hasLeft ht] at hnot
        cases hnot
      · unfold Place.entry at hplace
        split at hplace <;> simp_all [shows]
  | @unlock t q hplace =>
      have hleft := hself (Place.holds_of_exit hplace).1
      unfold Place.exit at hplace
      split at hplace <;> simp_all [Place.hasLeft]
  | @look t q hplace =>
      have hleft := hself hplace.holds.1
      generalize hp : s.place t = place at hplace hleft
      cases hplace <;> cases hleft
      exact ⟨hasLeft_update hw fun _ => rfl, rfl, by simp [shows, hp]⟩
  | @take t job hplace | @add t job hplace =>
      have hleft := hself (t := t) (by rw [hplace]; rfl)
      rw [hplace] at hleft
      cases hleft
  | @clear t hplace | @broadcast t hplace =>
      have hleft := hself (t := t) (by rw [hplace]; rfl)
      rw [hplace] at hleft
      cases hleft
  | @signal t woken hplace | @noSignal t hplace =>
      have hleft := hself (t := t) (by rw [hplace]; rfl)
      rw [hplace] at hleft
      cases hleft
  | finish hplace =>
      refine ⟨hasLeft_update hw fun ht => ?_, rfl, by simp [shows, hplace]⟩
      rw [hplace] at ht
      cases ht
  | mark hplace | stride hplace =>
      refine ⟨hasLeft_update hw fun ht => ?_, rfl, by simp [shows, hplace]⟩
      rw [hplace] at ht
      cases ht
  | wakeUp hplace | callAddJob hplace | callShutdown hplace =>
      refine ⟨hasLeft_update hw fun ht => ?_, rfl, by simp [shows]⟩
      rw [hplace] at ht
      cases ht

variable [Fintype T]

theorem hasLeft_run {w : T} : ∀ {events : List (Event T J)} {s s' : State T J}, Exclusive s →
    (s.place w).hasLeft = true → Machine.run State.step s events = some s' →
      (Exclusive s' ∧ (s'.place w).hasLeft = true) ∧ s'.waitingJobs = s.waitingJobs ∧
        ∀ act ∈ history s events, ∃ t job, act = .finish t job
  | [], _, _, hexcl, hw, hrun => by
      cases hrun
      exact ⟨⟨hexcl, hw⟩, rfl, fun _ h => nomatch h⟩
  | e :: rest, s, s'', hexcl, hw, hrun => by
      obtain ⟨s', hstep, hrest⟩ := Machine.run_cons_iff.mp hrun
      have hmoves := moves_of_step hstep
      obtain ⟨hw', hlist, hshows⟩ := hmoves.hasLeft hexcl hw
      obtain ⟨hend, hlists, hacts⟩ := hasLeft_run (hmoves.exclusive hexcl) hw' hrest
      refine ⟨hend, hlists.trans hlist, fun act hact => ?_⟩
      rw [history, Machine.trace_cons hstep] at hact
      exact (List.mem_append.mp hact).elim (hshows act) (hacts act)

/-- Once a worker has left its loop, the queue stays as it is: in whatever the threads do from
then on no other thread gets the mutex, so no job is added, taken or dropped, no call returns that
has to lock, and no other worker ends. -/
theorem first_end_is_last {numWorkers : Int} {attempts : Attempts T}
    {events later : List (Event T J)} {s s' : State T J} {w : T}
    (hrun : Machine.run State.step (State.workqueueInit numWorkers attempts).1 events = some s)
    (hleft : s.place w = .leaving ∨ s.place w = .gone)
    (hlater : Machine.run State.step s later = some s') :
    s'.jobsMutex = some w ∧ (∀ t, t ≠ w → (s'.place t).holds = false) ∧
      s'.waitingJobs = s.waitingJobs ∧
      ∀ act ∈ history s later, ∃ t job, act = .finish t job := by
  obtain ⟨crew, hready, -⟩ := ready_workqueueInit (J := J) numWorkers attempts
  have hw : (s.place w).hasLeft = true := by
    rcases hleft with hplace | hplace <;> rw [hplace] <;> rfl
  obtain ⟨⟨hexcl, hw'⟩, hlist, hacts⟩ :=
    hasLeft_run (attended_run hready hrun).1.exclusive hw hlater
  have hholds := Place.holds_of_hasLeft hw'
  refine ⟨(hexcl w).mp hholds, fun t ht => ?_, hlist, hacts⟩
  exact Bool.eq_false_iff.mpr fun hother => ht (hexcl.eq hother hholds)

end Frozen

/-- The other thread shuts down a pool of one worker, which then leaves its loop. -/
def shutdownRun : List (Event Bool Nat) :=
  [.callShutdown false, .step false, .step false, .step false, .step false, .step false, .step false,
    .step true, .step true, .step true, .step true]

theorem first_end_is_last_oneWorker :
    ∃ s, Machine.run State.step (State.workqueueInit 1 oneWorker).1 shutdownRun = some s ∧
      ∃ s', Machine.run State.step s ([.callAddJob false 7] : List (Event Bool Nat)) = some s' ∧
        s'.jobsMutex = some true ∧ (∀ t, t ≠ true → (s'.place t).holds = false) ∧
          s'.waitingJobs = s.waitingJobs ∧
          ∀ act ∈ history s ([.callAddJob false 7] : List (Event Bool Nat)),
            ∃ t job, act = .finish t job :=
  ⟨_, rfl, _, rfl, @first_end_is_last Bool Nat _ _ _ 1 oneWorker shutdownRun
    [.callAddJob false 7] _ _ true rfl (.inl rfl) rfl⟩

/-! ## What a shutdown has marked -/

/-- A worker that is not ahead any more is told to terminate. -/
def Ahead (crew : List T) (s : State T J) (rest : List T) : Prop :=
  ∀ w ∈ crew, s.terminate w = true ∨ w ∈ rest

/-- How far a shutdown has come in its list. -/
def Walk (crew : List T) (s : State T J) : Place T J → Prop
  | .marking worker =>
      ∃ rest, Links.Chain s.workers.next worker rest ∧ Ahead crew s rest
  | .striding worker =>
      ∃ rest, Links.Chain s.workers.next (s.workers.next worker) rest ∧ Ahead crew s rest
  | .clearing | .broadcasting => Ahead crew s []
  | _ => True

structure Marked (crew : List T) (s : State T J) : Prop where
  head : ∃ rest, Links.Chain s.workers.next s.workers.head rest ∧ Ahead crew s rest
  walk : ∀ t, Walk crew s (s.place t)

theorem Ready.marked {s : State T J} {crew : List T} (h : Ready s crew) : Marked crew s := by
  refine ⟨⟨crew, h.workers.represents, fun _ hw => .inr hw⟩, fun t => ?_⟩
  rcases h.place_cases t with hplace | hplace <;> rw [hplace] <;> trivial

/-- Where the list has been cut, every worker has been told to terminate. -/
theorem Marked.terminate {s : State T J} {crew : List T} (h : Marked crew s)
    (hover : s.workers.head = none) {w : T} (hw : w ∈ crew) : s.terminate w = true := by
  obtain ⟨rest, hchain, hahead⟩ := h.head
  rw [hover] at hchain
  have hnil : rest = [] := List.head?_eq_none_iff.mp hchain.start.symm
  rw [hnil] at hahead
  exact (hahead w hw).resolve_right List.not_mem_nil

theorem Ahead.mono {s s' : State T J} {crew rest : List T} (h : Ahead crew s rest)
    (hflag : ∀ w, s.terminate w = true → s'.terminate w = true) : Ahead crew s' rest :=
  fun w hw => (h w hw).imp_left (hflag w)

theorem Walk.mono {s s' : State T J} {crew : List T} {p : Place T J} (h : Walk crew s p)
    (hnext : s'.workers.next = s.workers.next)
    (hflag : ∀ w, s.terminate w = true → s'.terminate w = true) : Walk crew s' p := by
  cases p with
  | marking worker | striding worker =>
      obtain ⟨rest, hchain, hahead⟩ := h
      exact ⟨rest, by rw [hnext]; exact hchain, hahead.mono hflag⟩
  | clearing | broadcasting => exact Ahead.mono h hflag
  | _ => trivial

/-- The places of no shutdown. -/
theorem walk_of_isShutdown {s : State T J} {crew : List T} {p : Place T J}
    (hp : p.isShutdown = false) : Walk crew s p := by
  cases p <;> trivial

theorem Looks.isShutdown {s : State T J} {t : T} {p q : Place T J} (h : Looks s t p q) :
    q.isShutdown = false := by
  cases h <;> rfl

theorem Place.isShutdown_of_exit {p q : Place T J} (h : p.exit = some q) :
    q.isShutdown = false := by
  unfold Place.exit at h
  split at h <;> cases h <;> rfl

section Marks

variable [DecidableEq T]

theorem Marked.move {s s' : State T J} {crew : List T} (h : Marked crew s) {t : T}
    {q : Place T J} (hplace : s'.place = Function.update s.place t q)
    (hworkers : s'.workers = s.workers)
    (hflag : ∀ w, s.terminate w = true → s'.terminate w = true) (hq : Walk crew s' q) :
    Marked crew s' := by
  refine ⟨?_, fun u => ?_⟩
  · obtain ⟨rest, hchain, hahead⟩ := h.head
    exact ⟨rest, by rw [hworkers]; exact hchain, hahead.mono hflag⟩
  · rw [hplace]
    by_cases hu : u = t
    · subst hu
      rw [Function.update_self]
      exact hq
    · rw [Function.update_of_ne hu]
      exact (h.walk u).mono (congrArg Links.next hworkers) hflag

theorem Marked.mark {s : State T J} {crew : List T} (h : Marked crew s) {t worker : T}
    (hplace : s.place t = .marking (some worker)) :
    Marked crew { s.move t (.striding worker) with
      terminate := Function.update s.terminate worker true } := by
  have hflag : ∀ w, s.terminate w = true → Function.update s.terminate worker true w = true := by
    intro w hw
    by_cases hww : w = worker
    · exact hww ▸ Function.update_self ..
    · exact (Function.update_of_ne hww ..).trans hw
  obtain ⟨rest, hchain, hahead⟩ : Walk crew s (.marking (some worker)) := hplace ▸ h.walk t
  refine h.move rfl rfl hflag ?_
  obtain ⟨first, rest, rfl⟩ : ∃ first rest', rest = first :: rest' :=
    List.exists_cons_of_ne_nil fun hnil => by
      rw [hnil] at hchain
      cases hchain
  have hfirst : first = worker := (Option.some.inj hchain.1).symm
  subst hfirst
  refine ⟨rest, hchain.2, fun w hw => ?_⟩
  -- The worker that was first is the one that has been marked.
  rcases hahead w hw with htold | hin
  · exact .inl (hflag w htold)
  · rcases List.mem_cons.mp hin with rfl | hrest
    · exact .inl (Function.update_self ..)
    · exact .inr hrest

variable [DecidableEq J]

theorem Moves.marked {s s' : State T J} {crew : List T} {e : Event T J} (hmoves : Moves s e s')
    (h : Marked crew s) : Marked crew s' := by
  cases hmoves with
  | @lock t q hplace =>
      refine h.move rfl rfl (fun _ => id) ?_
      have hwalk := h.walk t
      generalize s.place t = place at hplace hwalk
      unfold Place.entry at hplace
      split at hplace <;> cases hplace
      case h_3 =>
          obtain ⟨rest, hchain, hahead⟩ := hwalk
          rwa [List.head?_eq_none_iff.mp hchain.start.symm] at hahead
      all_goals trivial
  | unlock hplace =>
      exact h.move rfl rfl (fun _ => id) (walk_of_isShutdown (Place.isShutdown_of_exit hplace))
  | look hplace => exact h.move rfl rfl (fun _ => id) (walk_of_isShutdown hplace.isShutdown)
  | mark hplace => exact h.mark hplace
  | @stride t worker hplace =>
      have hwalk : Walk crew s (.striding worker) := hplace ▸ h.walk t
      exact h.move rfl rfl (fun _ => id) hwalk
  | @clear t hplace =>
      have hall : Ahead crew s [] := by
        have hwalk := h.walk t
        rw [hplace] at hwalk
        exact hwalk
      refine ⟨⟨[], rfl, hall⟩, fun u => ?_⟩
      simp only [State.move]
      by_cases hu : u = t
      · subst hu
        rw [Function.update_self]
        exact hall
      · rw [Function.update_of_ne hu]
        exact (h.walk u).mono rfl fun _ => id
  | @broadcast t hplace =>
      have hawake : Marked crew s.wakeAll := by
        refine ⟨h.head, fun u => ?_⟩
        have hwalk := h.walk u
        simp only [State.wakeAll]
        cases hu : s.place u <;> rw [hu] at hwalk <;> exact hwalk
      exact hawake.move rfl rfl (fun _ => id) trivial
  | callShutdown hplace => exact h.move rfl rfl (fun _ => id) h.head
  | @signal t woken hplace hwoken =>
      have hfirst : Marked crew (s.move woken .locking) :=
        h.move rfl rfl (fun _ => id) trivial
      exact hfirst.move rfl rfl (fun _ => id) trivial
  | take | add | noSignal | wakeUp | finish | callAddJob =>
      exact h.move rfl rfl (fun _ => id) trivial

end Marks

/-! ## The pool behind a shutdown -/

/-- The places that a worker leaves only when it is woken. -/
def Place.rests : Place T J → Bool
  | .waiting | .asleep => true
  | _ => false

def Place.broadcasts : Place T J → Bool
  | .broadcasting => true
  | _ => false

/-- No worker sleeps or is about to, except for those that a broadcast will wake. -/
structure Ended (s : State T J) : Prop where
  not_waiting : ∀ t, s.place t ≠ .waiting
  awake : (∃ t, s.place t = .broadcasting) ∨ ∀ t, (s.place t).rests = false

theorem Place.awake_of_entry {p q : Place T J} (h : p.entry = some q) :
    q.rests = false ∧ p.broadcasts = false := by
  unfold Place.entry at h
  split at h <;> cases h <;> exact ⟨rfl, rfl⟩

theorem Place.awake_of_exit {p q : Place T J} (h : p.exit = some q) (hp : p ≠ .waiting) :
    q.rests = false ∧ p.broadcasts = false := by
  unfold Place.exit at h
  split at h <;> cases h
  case h_1 => exact absurd rfl hp
  all_goals exact ⟨rfl, rfl⟩

theorem Looks.awake {s : State T J} {t : T} {p q : Place T J} (h : Looks s t p q)
    (hflag : p = .terminateTest → s.terminate t = true) :
    q.rests = false ∧ p.broadcasts = false := by
  cases h with
  | untold huntold => exact absurd (hflag rfl) (Bool.eq_false_iff.mp huntold)
  | _ => exact ⟨rfl, rfl⟩

section Ended

variable [DecidableEq T]

theorem Ended.move {s s' : State T J} (h : Ended s) {t : T} {q : Place T J}
    (hplace : s'.place = Function.update s.place t q) (hq : q.rests = false)
    (ht : (s.place t).broadcasts = false) : Ended s' := by
  have hother : ∀ {u}, u ≠ t → s'.place u = s.place u := fun hu => by
    rw [hplace, Function.update_of_ne hu]
  have hself : s'.place t = q := by rw [hplace, Function.update_self]
  refine ⟨fun u => ?_, ?_⟩
  · by_cases hu : u = t
    · rw [hu, hself]
      rintro rfl
      cases hq
    · rw [hother hu]
      exact h.not_waiting u
  · rcases h.awake with ⟨u, hu⟩ | hawake
    · have hut : u ≠ t := by
        rintro rfl
        rw [hu] at ht
        cases ht
      exact .inl ⟨u, (hother hut).trans hu⟩
    · refine .inr fun u => ?_
      by_cases hut : u = t
      · rw [hut, hself]
        exact hq
      · rw [hother hut]
        exact hawake u

variable [Fintype T] [DecidableEq J]

theorem Moves.ended {s s' : State T J} {crew : List T} {e : Event T J} (hmoves : Moves s e s')
    (hsound : Sound crew s) (hmarked : Marked crew s)
    (h : s.workers.head = none → Ended s) (hover : s'.workers.head = none) : Ended s' := by
  cases hmoves with
  | @lock t q hplace =>
      obtain ⟨hq, ht⟩ := Place.awake_of_entry hplace
      exact (h hover).move rfl hq ht
  | @unlock t q hplace =>
      obtain ⟨hq, ht⟩ := Place.awake_of_exit hplace ((h hover).not_waiting t)
      exact (h hover).move rfl hq ht
  | @look t q hplace =>
      obtain ⟨hq, ht⟩ := hplace.awake fun hp =>
        hmarked.terminate hover ((hsound.isWorker t).mp (by rw [hp]; rfl))
      exact (h hover).move rfl hq ht
  | @clear t hplace =>
      have hself : (s.place t).holds = true := by rw [hplace]; rfl
      refine ⟨fun u => ?_, .inl ⟨t, Function.update_self ..⟩⟩
      simp only [State.move]
      intro hwaits
      have hu : u = t := by
        by_contra hu
        rw [Function.update_of_ne hu] at hwaits
        exact hu (hsound.exclusive.eq (by rw [hwaits]; rfl) hself)
      rw [hu, Function.update_self] at hwaits
      cases hwaits
  | @broadcast t hplace =>
      have hnone : ∀ u, (s.wakeAll.place u).rests = false := fun u => by
        have hnot := (h hover).not_waiting u
        simp only [State.wakeAll]
        generalize s.place u = place at hnot
        cases place <;> first | rfl | exact absurd rfl hnot
      have hafter : ∀ u, ((s.wakeAll.move t .returning).place u).rests = false := fun u => by
        simp only [State.move]
        by_cases hu : u = t
        · rw [hu, Function.update_self]
          rfl
        · rw [Function.update_of_ne hu]
          exact hnone u
      refine ⟨fun u hu => ?_, .inr hafter⟩
      have hrests := hafter u
      rw [hu] at hrests
      cases hrests
  | @signal t woken hplace hwoken =>
      have hne : t ≠ woken := by
        rintro rfl
        rw [hplace] at hwoken
        cases hwoken
      have hfirst : Ended (s.move woken .locking) :=
        (h hover).move rfl rfl (by rw [hwoken]; rfl)
      refine hfirst.move rfl rfl ?_
      simp only [State.move, Function.update_of_ne hne, hplace]
      rfl
  | take hplace | add hplace | mark hplace | stride hplace | noSignal hplace | wakeUp hplace
  | finish hplace | callAddJob hplace | callShutdown hplace =>
      exact (h hover).move rfl rfl (by rw [hplace]; rfl)

/-- A run from the start, and the pool behind a shutdown. -/
theorem ended_run {s s' : State T J} {crew : List T} {events : List (Event T J)}
    (hready : Ready s crew) (hrun : Machine.run State.step s events = some s') :
    Sound crew s' ∧ Marked crew s' ∧ (s'.workers.head = none → Ended s') := by
  refine @Machine.run_invariant _ _ _
    (fun s => Sound crew s ∧ Marked crew s ∧ (s.workers.head = none → Ended s))
    (fun s e s' hinv hstep => ?_) events _ _ ⟨hready.sound, hready.marked, fun _ => ?_⟩ hrun
  · have hmoves := moves_of_step hstep
    exact ⟨hinv.1.step hstep, hmoves.marked hinv.2.1, hmoves.ended hinv.1 hinv.2.1 hinv.2.2⟩
  · refine ⟨fun t ht => ?_, .inr fun t => ?_⟩
    · rcases hready.place_cases t with hplace | hplace <;> rw [hplace] at ht <;> cases ht
    · rcases hready.place_cases t with hplace | hplace <;> rw [hplace] <;> rfl

/-- Whoever shuts down, and however often: the queue is only cut when every worker has been told to
terminate, and stays so. -/
theorem cut_after_marking {numWorkers : Int} {attempts : Attempts T}
    {events : List (Event T J)} {s : State T J}
    (hrun : Machine.run State.step (State.workqueueInit numWorkers attempts).1 events = some s)
    (hcut : s.workers.head = none ∨ ∃ t, s.place t = .clearing) (w : T)
    (hw : (State.workqueueInit (J := J) numWorkers attempts).1.place w = .locking) :
    s.terminate w = true := by
  obtain ⟨crew, hready, -⟩ := ready_workqueueInit (J := J) numWorkers attempts
  obtain ⟨-, hmarked, -⟩ := ended_run hready hrun
  have hcrew : w ∈ crew := by
    by_contra hnot
    rw [hready.outside w hnot] at hw
    cases hw
  rcases hcut with hover | ⟨t, ht⟩
  · exact hmarked.terminate hover hcrew
  · have hwalk := hmarked.walk t
    rw [ht] at hwalk
    exact (hwalk w hcrew).resolve_right List.not_mem_nil

theorem cut_after_marking_oneWorker :
    ∃ s, Machine.run State.step (State.workqueueInit (J := Nat) 1 oneWorker).1 shutdownRun =
        some s ∧ s.terminate true = true :=
  ⟨_, rfl, @cut_after_marking Bool Nat _ _ _ 1 oneWorker shutdownRun _ rfl (.inl rfl) true rfl⟩

/-- A shutdown ends one worker: when the threads of a pool that has been shut down rest and no job
is at work any more, one worker is gone with the mutex, and every other waits for it. -/
theorem shutdown_ends_one {numWorkers : Int} {attempts : Attempts T}
    {events : List (Event T J)} {s : State T J}
    (hinit : (State.workqueueInit (J := J) numWorkers attempts).2 = 0)
    (hrun : Machine.run State.step (State.workqueueInit numWorkers attempts).1 events = some s)
    (hover : s.workers.head = none) (hstuck : Stuck s)
    (hidle : ∀ t job, s.place t ≠ .running job) :
    ∃ w, s.place w = .gone ∧ s.jobsMutex = some w ∧
      ∀ t, (State.workqueueInit (J := J) numWorkers attempts).1.place t = .locking → t ≠ w →
        s.place t = .locking := by
  obtain ⟨crew, hready, hlength⟩ := ready_workqueueInit (J := J) numWorkers attempts
  obtain ⟨hsound, -, hended⟩ := ended_run hready hrun
  have hawake : ∀ t, (s.place t).rests = false := by
    refine (hended hover).awake.resolve_left fun ⟨t, ht⟩ => ?_
    have hgone := hstuck.gone (t := t) (by rw [ht]; rfl)
    rw [ht] at hgone
    cases hgone
  -- A worker that does not have the mutex waits for it.
  have hlocking : ∀ t, t ∈ crew → (s.place t).holds = false → s.place t = .locking := by
    intro t ht hfree
    have hworker := (hsound.isWorker t).mpr ht
    have hasleep := hawake t
    have hrunning := hidle t
    generalize s.place t = place at hfree hworker hasleep hrunning ⊢
    cases place with
    | locking => rfl
    | asleep => cases hasleep
    | running job => exact absurd rfl (hrunning job)
    | outside | addLocking | marking | striding => cases hworker
    | _ => cases hfree
  obtain ⟨w, hmutex⟩ : ∃ w, s.jobsMutex = some w := by
    by_contra hnone
    have hfree : s.jobsMutex = none := Option.eq_none_iff_forall_ne_some.mpr
      fun w hw => hnone ⟨w, hw⟩
    -- There is a worker, and it would lock the mutex.
    have hcount := hlength hinit
    obtain ⟨t, ht⟩ : ∃ t, t ∈ crew := List.exists_mem_of_length_pos (by omega)
    have hplace := hlocking t ht (Bool.eq_false_iff.mpr fun hholds => by
      have howner := (hsound.exclusive t).mp hholds
      rw [hfree] at howner
      cases howner)
    have hnext := hstuck.next t
    simp [State.next, State.lock, hplace, hfree] at hnext
  have hholds := (hsound.exclusive w).mpr hmutex
  refine ⟨w, hstuck.gone hholds, hmutex, fun t hplace hne => ?_⟩
  have ht : t ∈ crew := by
    by_contra hnot
    rw [hready.outside t hnot] at hplace
    cases hplace
  exact hlocking t ht (Bool.eq_false_iff.mpr fun hother => hne (hsound.exclusive.eq hother hholds))

end Ended

theorem shutdown_ends_one_oneWorker :
    ∃ s, Machine.run State.step (State.workqueueInit (J := Nat) 1 oneWorker).1
        (shutdownRun ++ [.step true]) = some s ∧
      ∃ w, s.place w = .gone ∧ s.jobsMutex = some w ∧
        ∀ t, (State.workqueueInit (J := Nat) 1 oneWorker).1.place t = .locking → t ≠ w →
          s.place t = .locking := by
  refine ⟨_, rfl, @shutdown_ends_one Bool Nat _ _ _ 1 oneWorker
    (shutdownRun ++ [.step true]) _ rfl rfl rfl ?_ ?_⟩
  · intro e he
    cases e with
    | step t =>
        revert t
        exact Bool.forall_bool.mpr ⟨fun _ => rfl, fun _ => rfl⟩
    | signal t woken =>
        cases woken with
        | none =>
            revert t
            exact Bool.forall_bool.mpr ⟨fun _ => rfl, fun _ => rfl⟩
        | some woken =>
            revert t
            exact Bool.forall_bool.mpr ⟨fun _ => rfl, fun _ => rfl⟩
    | wakeUp | finish | callAddJob | callShutdown => cases he
  · exact Bool.forall_bool.mpr ⟨fun _ h => (by cases h), fun _ h => (by cases h)⟩

end Workqueue

end RobotServer
