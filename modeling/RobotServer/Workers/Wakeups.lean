import RobotServer.Workers.Ledger

/-!
# Wakeups — no job waits beside an idle worker

As long as no worker has been told to terminate, there are at least as many threads on their way
to the queue as there are jobs in it, if any worker sleeps.  A signal that has still to be sent
counts as one of them: `coming` is what a place adds to that number.

- `Sound` collects what holds of every state that is reached;
- `weight` bounds how long the threads can go on by themselves, and where they stop no job waits
  or every worker has one.
-/

namespace RobotServer

namespace Workqueue

open Interaction Memory Maps

variable {T J : Type}

/-! ## The threads of the workers -/

/-- The places of `worker_function`. -/
def Place.isWorker : Place T J → Bool
  | .locking | .queueTest | .terminateTest | .waiting | .asleep | .leaveTest | .taking
  | .unlocking _ | .running _ | .leaving | .gone => true
  | _ => false

theorem Place.isWorker_of_entry {p q : Place T J} (h : p.entry = some q) :
    q.isWorker = p.isWorker := by
  unfold Place.entry at h
  split at h <;> cases h <;> rfl

theorem Place.isWorker_of_exit {p q : Place T J} (h : p.exit = some q) :
    q.isWorker = p.isWorker := by
  unfold Place.exit at h
  split at h <;> cases h <;> rfl

theorem Looks.isWorker {s : State T J} {t : T} {p q : Place T J} (h : Looks s t p q) :
    q.isWorker = p.isWorker := by
  cases h <;> rfl

section Moves

variable [DecidableEq T]

theorem isWorker_update {place : T → Place T J} {t : T} {q : Place T J}
    (h : q.isWorker = (place t).isWorker) (u : T) :
    (Function.update place t q u).isWorker = (place u).isWorker := by
  by_cases hu : u = t
  · subst hu
    rw [Function.update_self, h]
  · rw [Function.update_of_ne hu]

variable [DecidableEq J]

/-- A thread stays in its function, or outside of it. -/
theorem Moves.isWorker {s s' : State T J} {e : Event T J} (hmoves : Moves s e s') (u : T) :
    (s'.place u).isWorker = (s.place u).isWorker := by
  cases hmoves with
  | lock hplace => exact isWorker_update (Place.isWorker_of_entry hplace) u
  | unlock hplace => exact isWorker_update (Place.isWorker_of_exit hplace) u
  | look hplace => exact isWorker_update hplace.isWorker u
  | @broadcast t hplace =>
      refine (isWorker_update ?_ u).trans ?_
      · simp only [State.wakeAll, hplace]
        rfl
      · simp only [State.wakeAll]
        cases s.place u <;> rfl
  | @signal t woken hplace hwoken =>
      have hne : t ≠ woken := by
        rintro rfl
        rw [hplace] at hwoken
        cases hwoken
      refine (isWorker_update ?_ u).trans (isWorker_update (by rw [hwoken]; rfl) u)
      simp only [State.move, Function.update_of_ne hne, hplace]
      rfl
  | take hplace | add hplace | mark hplace | stride hplace | clear hplace | noSignal hplace
  | wakeUp hplace | finish hplace | callAddJob hplace | callShutdown hplace =>
      exact isWorker_update (by rw [hplace]; rfl) u

end Moves

/-! ## What holds of every state -/

/-- A state that is reached, where `crew` are the workers. -/
structure Sound [Fintype T] (crew : List T) (s : State T J) : Prop where
  exclusive : Exclusive s
  aware : Aware s
  follows : ∃ p, Follows p s
  isWorker : ∀ t, (s.place t).isWorker = true ↔ t ∈ crew

section Sound

variable [Fintype T]

theorem Ready.sound {s : State T J} {crew : List T} (h : Ready s crew) : Sound crew s := by
  refine ⟨h.exclusive, h.aware, ⟨_, h.follows⟩, fun t => ?_⟩
  by_cases ht : t ∈ crew
  · rw [h.locking t ht]
    exact iff_of_true rfl ht
  · rw [h.outside t ht]
    exact iff_of_false Bool.false_ne_true ht

variable [DecidableEq T] [DecidableEq J]

theorem Sound.step {s s' : State T J} {crew : List T} {e : Event T J} (h : Sound crew s)
    (hstep : s.step e = some s') : Sound crew s' := by
  have hmoves := moves_of_step hstep
  obtain ⟨p, hfollows⟩ := h.follows
  obtain ⟨p', -, hfollows'⟩ := hmoves.follows hfollows
  refine ⟨hmoves.exclusive h.exclusive, hmoves.aware h.exclusive h.aware, ⟨p', hfollows'⟩,
    fun t => ?_⟩
  rw [hmoves.isWorker t]
  exact h.isWorker t

end Sound

/-! ## Waking up in time -/

/-- What a place counts for: a worker that will look at the queue, or a signal to be sent. -/
def Place.coming : Place T J → Nat
  | .locking | .queueTest | .leaveTest | .taking | .signalling => 1
  | _ => 0

/-- If a worker sleeps, every job that waits is being fetched. -/
def Attended [Fintype T] (s : State T J) : Prop :=
  ∀ waiting, s.waitingJobs.Represents waiting → (∃ t, s.place t = .asleep) →
    waiting.length ≤ total Place.coming s.place

theorem Place.coming_of_entry {p q : Place T J} (h : p.entry = some q) :
    q.coming = p.coming ∧ q ≠ .asleep := by
  unfold Place.entry at h
  split at h <;> cases h <;> exact ⟨rfl, fun hsleep => by cases hsleep⟩

theorem Place.coming_of_exit {p q : Place T J} (h : p.exit = some q) :
    p = .waiting ∨ (p.coming ≤ q.coming ∧ q ≠ .asleep) := by
  unfold Place.exit at h
  split at h <;> cases h
  case h_1 => exact .inl rfl
  case h_2 => exact .inr ⟨Nat.le_refl _, fun hsleep => by cases hsleep⟩
  case h_3 => exact .inr ⟨Nat.zero_le _, fun hsleep => by cases hsleep⟩
  case h_4 => exact .inr ⟨Nat.le_refl _, fun hsleep => by cases hsleep⟩

section Attended

variable [Fintype T]

theorem attended_of_head {s : State T J} (hhead : s.waitingJobs.head = none) : Attended s := by
  intro waiting hwaiting _
  have hnil : waiting = [] := by
    rw [← List.head?_eq_none_iff, ← hwaiting.start]
    exact hhead
  rw [hnil]
  exact Nat.zero_le _

variable [DecidableEq T]

theorem total_le_update {share : Place T J → Nat} {place : T → Place T J} {t : T}
    {q : Place T J} (h : share (place t) ≤ share q) :
    total share place ≤ total share (Function.update place t q) := by
  have hupdate := total_update share place t q
  omega

omit [Fintype T] in
/-- A thread that does not go to sleep was not the one that sleeps. -/
theorem exists_asleep_of_update {place : T → Place T J} {t : T} {q : Place T J}
    (hq : q ≠ .asleep) (h : ∃ u, Function.update place t q u = .asleep) :
    ∃ u, place u = .asleep := by
  obtain ⟨u, hu⟩ := h
  by_cases hut : u = t
  · subst hut
    rw [Function.update_self] at hu
    exact absurd hu hq
  · rw [Function.update_of_ne hut] at hu
    exact ⟨u, hu⟩

theorem Attended.move {s s' : State T J} (h : Attended s) {t : T} {q : Place T J}
    (hplace : s'.place = Function.update s.place t q) (hlist : s'.waitingJobs = s.waitingJobs)
    (hq : q ≠ .asleep) (hcoming : (s.place t).coming ≤ q.coming) : Attended s' := by
  intro waiting hwaiting hsleep
  rw [hplace] at hsleep ⊢
  rw [hlist] at hwaiting
  exact (h waiting hwaiting (exists_asleep_of_update hq hsleep)).trans (total_le_update hcoming)

omit [Fintype T] [DecidableEq T] in
/-- A test behind which a thread is not on its way any more has found the queue empty, or the
thread is told to terminate. -/
theorem Looks.coming {s : State T J} {t : T} {p q : Place T J} (h : Looks s t p q)
    (hsees : Sees s t p) (hflag : s.terminate t = false) :
    s.waitingJobs.head = none ∨ (p.coming ≤ q.coming ∧ q ≠ .asleep) := by
  cases h with
  | empty hhead => exact .inl hhead
  | nothing hhead => exact .inl hhead
  | leave htold => exact absurd htold (Bool.eq_false_iff.mp hflag)
  | full | told | untold | stay | free =>
      exact .inr ⟨Nat.le_of_ble_eq_true rfl, fun hsleep => by cases hsleep⟩

variable [DecidableEq J]

theorem Attended.take {s : State T J} (h : Attended s) {p : Pool T J} (hfollows : Follows p s)
    {t : T} {job : J} (hplace : s.place t = .taking) (hhead : s.waitingJobs.head = some job) :
    Attended
      { s.move t (.unlocking (some job)) with waitingJobs := llRemove job s.waitingJobs } := by
  intro waiting hwaiting hsleep
  obtain ⟨rest, hstack⟩ := List.head?_eq_some_iff.mp (hfollows.stacked.head.symm.trans hhead)
  have hstacked := hfollows.stacked
  rw [hstack] at hstacked
  have hbefore := h _ hstacked.represents
    (exists_asleep_of_update (fun hq => by cases hq) hsleep)
  have hrest : waiting = rest := hwaiting.unique hstacked.llRemove_head.represents
  have hcoming : total Place.coming (Function.update s.place t (.unlocking (some job))) + 1 =
      total Place.coming s.place := total_loss (by rw [hplace]; rfl) rfl
  rw [hrest]
  change rest.length ≤ total Place.coming (Function.update s.place t (.unlocking (some job)))
  rw [List.length_cons] at hbefore
  omega

theorem Attended.add {s : State T J} (h : Attended s) {p : Pool T J} (hfollows : Follows p s)
    {t : T} {job : J} (hplace : s.place t = .adding job) :
    Attended { s.move t .signalling with waitingJobs := llAdd job s.waitingJobs } := by
  intro waiting hwaiting hsleep
  have hnew : job ∉ p.stack := hfollows.not_mem_stack (t := t) (by
    rw [hplace]
    exact Multiset.mem_singleton_self job)
  have hbefore := h _ hfollows.stacked.represents
    (exists_asleep_of_update (fun hq => by cases hq) hsleep)
  have hwaits : waiting = job :: p.stack :=
    hwaiting.unique (hfollows.stacked.llAdd hnew).represents
  have hcoming : total Place.coming (Function.update s.place t .signalling) =
      total Place.coming s.place + 1 := total_gain (by rw [hplace]; rfl) rfl
  rw [hwaits, List.length_cons]
  change _ ≤ total Place.coming (Function.update s.place t .signalling)
  omega

omit [DecidableEq J] in
theorem Attended.signal {s : State T J} (h : Attended s) {t woken : T}
    (hplace : s.place t = .signalling) (hwoken : s.place woken = .asleep) :
    Attended ((s.move woken .locking).move t .returning) := by
  have hne : t ≠ woken := by
    rintro rfl
    rw [hplace] at hwoken
    cases hwoken
  intro waiting hwaiting hsleep
  have hbefore := h waiting hwaiting ⟨woken, hwoken⟩
  have hgain : total Place.coming (Function.update s.place woken .locking) =
      total Place.coming s.place + 1 := total_gain (by rw [hwoken]; rfl) rfl
  have hloss : total Place.coming (Function.update (Function.update s.place woken .locking) t
      .returning) + 1 = total Place.coming (Function.update s.place woken .locking) :=
    total_loss (by rw [Function.update_of_ne hne, hplace]; rfl) rfl
  change _ ≤ total Place.coming (Function.update (Function.update s.place woken .locking) t _)
  omega

omit [Fintype T] in
/-- A flag is not taken back. -/
theorem Moves.terminate {s s' : State T J} {e : Event T J} (hmoves : Moves s e s') {u : T}
    (hu : s.terminate u = true) : s'.terminate u = true := by
  cases hmoves with
  | @mark t worker hplace =>
      by_cases huw : u = worker
      · subst huw
        exact Function.update_self ..
      · exact (Function.update_of_ne huw ..).trans hu
  | _ => exact hu

theorem terminate_of_step {s s' : State T J} {e : Event T J} (hstep : s.step e = some s')
    (hflags : ∀ t, s'.terminate t = false) (t : T) : s.terminate t = false := by
  by_contra hflag
  have hlater := (moves_of_step hstep).terminate (Bool.eq_true_of_not_eq_false hflag)
  rw [hflags t] at hlater
  cases hlater

/-- One step, as long as nobody is told to terminate. -/
theorem Attended.step {s s' : State T J} {crew : List T} {e : Event T J} (hsound : Sound crew s)
    (h : Attended s) (hstep : s.step e = some s') (hflags : ∀ t, s'.terminate t = false) :
    Attended s' := by
  obtain ⟨p, hfollows⟩ := hsound.follows
  cases moves_of_step hstep with
  | lock hplace =>
      obtain ⟨hcoming, hawake⟩ := Place.coming_of_entry hplace
      exact h.move rfl rfl hawake (Nat.le_of_eq hcoming.symm)
  | @unlock t q hplace =>
      rcases Place.coming_of_exit hplace with hwaits | ⟨hcoming, hawake⟩
      · have hsees := hsound.aware t
        rw [hwaits] at hsees
        exact attended_of_head hsees
      · exact h.move rfl rfl hawake hcoming
  | @look t q hplace =>
      rcases hplace.coming (hsound.aware t) (hflags t) with hhead | ⟨hcoming, hawake⟩
      · exact attended_of_head hhead
      · exact h.move rfl rfl hawake hcoming
  | take hplace hhead => exact h.take hfollows hplace hhead
  | add hplace => exact h.add hfollows hplace
  | @mark t worker hplace =>
      have hflag : Function.update s.terminate worker true worker = false := hflags worker
      rw [Function.update_self] at hflag
      cases hflag
  | clear => exact attended_of_head rfl
  | @broadcast t hplace =>
      intro waiting _ hsleep
      -- Nobody sleeps behind a broadcast.
      obtain ⟨u, hu⟩ := exists_asleep_of_update (fun hq => by cases hq) hsleep
      simp only [State.wakeAll] at hu
      cases hplace : s.place u <;> rw [hplace] at hu <;> cases hu
  | signal hplace hwoken => exact h.signal hplace hwoken
  | noSignal hplace hnone =>
      intro waiting _ hsleep
      obtain ⟨u, hu⟩ := exists_asleep_of_update (fun hq => by cases hq) hsleep
      exact absurd hu (hnone u)
  | stride hplace | wakeUp hplace | finish hplace | callAddJob hplace | callShutdown hplace =>
      exact h.move rfl rfl (fun hq => by cases hq) (by rw [hplace]; exact Nat.zero_le _)

theorem attended_run {s s' : State T J} {crew : List T} {events : List (Event T J)}
    (hready : Ready s crew) (hrun : Machine.run State.step s events = some s') :
    Sound crew s' ∧ ((∀ t, s'.terminate t = false) → Attended s') := by
  refine @Machine.run_invariant _ _ _
    (fun s => Sound crew s ∧ ((∀ t, s.terminate t = false) → Attended s))
    (fun s e s' hinv hstep => ?_) events _ _ ⟨hready.sound, fun _ => ?_⟩ hrun
  · refine ⟨hinv.1.step hstep, fun hflags => ?_⟩
    exact (hinv.2 (terminate_of_step hstep hflags)).step hinv.1 hstep hflags
  · exact attended_of_head (hready.waitingJobs ▸ rfl)

/-- As long as no worker is told to terminate, no wake-up is lost: where a worker sleeps, every job
that waits is being fetched by another. -/
theorem no_lost_wakeup {numWorkers : Int} {attempts : Attempts T} {events : List (Event T J)}
    {s : State T J}
    (hrun : Machine.run State.step (State.workqueueInit numWorkers attempts).1 events = some s)
    (hflags : ∀ t, s.terminate t = false) {waiting : List J}
    (hwaiting : s.waitingJobs.Represents waiting) (hsleep : ∃ t, s.place t = .asleep) :
    waiting.length ≤ ∑ t, (s.place t).coming := by
  obtain ⟨crew, hready, -⟩ := ready_workqueueInit (J := J) numWorkers attempts
  exact (attended_run hready hrun).2 hflags waiting hwaiting hsleep

end Attended

/-- The worker goes to sleep, and the other thread adds a job without having signalled. -/
def sleepyWorker : List (Event Bool Nat) :=
  [.step true, .step true, .step true, .step true, .callAddJob false 7, .step false, .step false]

theorem no_lost_wakeup_sleepyWorker :
    ∃ s, Machine.run State.step (State.workqueueInit 1 oneWorker).1 sleepyWorker = some s ∧
      ([7] : List Nat).length ≤ ∑ t, (s.place t).coming :=
  ⟨_, rfl, @no_lost_wakeup Bool Nat _ _ _ 1 oneWorker sleepyWorker _ rfl (fun _ => rfl) [7]
    ⟨rfl, rfl⟩ ⟨true, rfl⟩⟩

/-! ## Coming to rest -/

/-- The steps a thread takes by itself, and the signals it sends. -/
def Event.isOwn : Event T J → Bool
  | .step _ | .signal _ _ => true
  | _ => false

/-- The places of `workqueue_shutdown`, as far as they are told from others. -/
def Place.isShutdown : Place T J → Bool
  | .marking _ | .striding _ | .clearing | .broadcasting => true
  | _ => false

/-- No shutdown has been called. -/
def Open (s : State T J) : Prop :=
  ∀ t, s.terminate t = false ∧ (s.place t).isShutdown = false

/-- How many steps a thread can take before it rests, a worker that it wakes up included. -/
def Place.weight : Place T J → Nat
  | .locking => 7
  | .queueTest => 6
  | .terminateTest => 5
  | .waiting => 1
  | .leaveTest => 4
  | .taking => 3
  | .unlocking _ => 2
  | .addLocking _ => 12
  | .adding _ => 11
  | .signalling => 10
  | .returning => 1
  | _ => 0

theorem Place.weight_le (p : Place T J) : p.weight ≤ 12 := by
  cases p <;> exact Nat.le_of_ble_eq_true rfl

theorem Place.weight_of_entry {p q : Place T J} (h : p.entry = some q)
    (hp : p.isShutdown = false) : q.weight < p.weight ∧ q.isShutdown = false := by
  unfold Place.entry at h
  split at h <;> cases h
  case h_1 => exact ⟨Nat.le_of_ble_eq_true rfl, rfl⟩
  case h_2 => exact ⟨Nat.le_of_ble_eq_true rfl, rfl⟩
  case h_3 => cases hp

theorem Place.weight_of_exit {s : State T J} {t : T} {p q : Place T J} (h : p.exit = some q)
    (hsees : Sees s t p) : q.weight < p.weight ∧ q.isShutdown = false := by
  unfold Place.exit at h
  split at h <;> cases h
  case h_3 => exact hsees.elim
  all_goals exact ⟨Nat.le_of_ble_eq_true rfl, rfl⟩

theorem Looks.weight {s : State T J} {t : T} {p q : Place T J} (h : Looks s t p q)
    (hsees : Sees s t p) (hflag : s.terminate t = false) :
    q.weight < p.weight ∧ q.isShutdown = false := by
  cases h with
  | told htold | leave htold => exact absurd htold (Bool.eq_false_iff.mp hflag)
  | free => exact absurd hsees (Bool.eq_false_iff.mp hflag)
  | empty | full | untold | stay | nothing => exact ⟨Nat.le_of_ble_eq_true rfl, rfl⟩

section Rest

variable [Fintype T] [DecidableEq T]

theorem total_update_lt {share : Place T J → Nat} {place : T → Place T J} {t : T}
    {q : Place T J} (h : share q < share (place t)) :
    total share (Function.update place t q) < total share place := by
  have hupdate := total_update share place t q
  omega

omit [Fintype T] in
theorem Open.move {s s' : State T J} (h : Open s) {t : T} {q : Place T J}
    (hplace : s'.place = Function.update s.place t q) (hflag : s'.terminate = s.terminate)
    (hq : q.isShutdown = false) : Open s' := by
  intro u
  rw [hplace, hflag]
  by_cases hu : u = t
  · subst hu
    rw [Function.update_self]
    exact ⟨(h u).1, hq⟩
  · rw [Function.update_of_ne hu]
    exact h u

variable [DecidableEq J]

/-- By itself a thread comes closer to its rest with every step. -/
theorem Moves.rests {s s' : State T J} {crew : List T} {e : Event T J} (hmoves : Moves s e s')
    (hsound : Sound crew s) (h : Open s) (hown : e.isOwn = true) :
    Open s' ∧ total Place.weight s'.place < total Place.weight s.place := by
  cases hmoves with
  | @lock t q hplace =>
      obtain ⟨hweight, hq⟩ := Place.weight_of_entry hplace (h t).2
      exact ⟨h.move rfl rfl hq, total_update_lt hweight⟩
  | @unlock t q hplace =>
      obtain ⟨hweight, hq⟩ := Place.weight_of_exit hplace (hsound.aware t)
      exact ⟨h.move rfl rfl hq, total_update_lt hweight⟩
  | @look t q hplace =>
      obtain ⟨hweight, hq⟩ := hplace.weight (hsound.aware t) (h t).1
      exact ⟨h.move rfl rfl hq, total_update_lt hweight⟩
  | @mark t worker hplace | @stride t worker hplace =>
      have hopen := (h t).2
      rw [hplace] at hopen
      cases hopen
  | @clear t hplace | @broadcast t hplace =>
      have hopen := (h t).2
      rw [hplace] at hopen
      cases hopen
  | @signal t woken hplace hwoken =>
      have hne : t ≠ woken := by
        rintro rfl
        rw [hplace] at hwoken
        cases hwoken
      have hfirst : Open (s.move woken .locking) := h.move rfl rfl rfl
      refine ⟨hfirst.move rfl rfl rfl, ?_⟩
      have hgain : total Place.weight (Function.update s.place woken .locking) =
          total Place.weight s.place + 7 := total_gain (by rw [hwoken]; rfl) rfl
      have hloss := total_update Place.weight (Function.update s.place woken .locking) t .returning
      rw [Function.update_of_ne hne, hplace] at hloss
      change total Place.weight _ + 10 = _ + 1 at hloss
      change total Place.weight (Function.update (Function.update s.place woken .locking) t _) < _
      omega
  | take hplace | add hplace | noSignal hplace =>
      exact ⟨h.move rfl rfl rfl, total_update_lt (by
        rw [hplace]
        exact Nat.le_of_ble_eq_true rfl)⟩
  | wakeUp | finish | callAddJob | callShutdown => cases hown

/-- No thread can go on by itself. -/
def Stuck (s : State T J) : Prop :=
  ∀ e : Event T J, e.isOwn = true → s.step e = none

theorem Stuck.next {s : State T J} (h : Stuck s) (t : T) : s.next t = none :=
  h (.step t) rfl

/-- Where nothing moves, the mutex is free or with a thread that is gone. -/
theorem Stuck.gone {s : State T J} (h : Stuck s) {t : T} (ht : (s.place t).holds = true) :
    s.place t = .gone := by
  have hnext := h.next t
  unfold State.next at hnext
  cases hplace : s.place t with
  | gone => rfl
  | signalling =>
      -- A signal can be sent: to one that sleeps, or to nobody.
      by_cases hsleep : ∃ u, s.place u = .asleep
      · obtain ⟨u, hu⟩ := hsleep
        have hsignal := h (.signal t (some u)) rfl
        simp [State.step, State.signal, hplace, hu] at hsignal
      · have hsignal := h (.signal t none) rfl
        simp only [State.step, State.signal, hplace, true_and,
          if_pos (not_exists.mp hsleep)] at hsignal
        cases hsignal
  | unlocking job => cases job <;> simp [hplace] at hnext
  | queueTest | terminateTest | leaveTest =>
      simp only [hplace] at hnext
      split at hnext <;> cases hnext
  | taking =>
      simp only [hplace] at hnext
      split at hnext <;> cases hnext
  | waiting | leaving | adding | clearing | broadcasting | returning => simp [hplace] at hnext
  | outside | locking | asleep | running | addLocking | marking | striding =>
      rw [hplace] at ht
      cases ht

/-- Where no shutdown has been called, what rests is outside, asleep or at work. -/
theorem Stuck.place {s : State T J} {crew : List T} (h : Stuck s) (hsound : Sound crew s)
    (hopen : Open s) (t : T) :
    s.place t = .outside ∨ s.place t = .asleep ∨ ∃ job, s.place t = .running job := by
  have hnotgone : ∀ u, (s.place u).holds = true → False := fun u hu => by
    have hsees := hsound.aware u
    rw [h.gone hu] at hsees
    exact absurd hsees (Bool.eq_false_iff.mp (hopen u).1)
  have hfree : s.jobsMutex = none := by
    cases hmutex : s.jobsMutex with
    | none => rfl
    | some u => exact (hnotgone u ((hsound.exclusive u).mpr hmutex)).elim
  have hnext := h.next t
  have hnotheld := hnotgone t
  have hshut := (hopen t).2
  unfold State.next State.lock at hnext
  cases hplace : s.place t with
  | outside => exact .inl rfl
  | asleep => exact .inr (.inl rfl)
  | running job => exact .inr (.inr ⟨job, rfl⟩)
  | locking | addLocking => simp [hplace, hfree] at hnext
  | marking | striding =>
      rw [hplace] at hshut
      cases hshut
  | _ =>
      rw [hplace] at hnotheld
      exact (hnotheld rfl).elim

/-- A run of such steps, in which every step brings the threads closer to their rest. -/
theorem own_run {s s' : State T J} {crew : List T} {own : List (Event T J)}
    (hinv : Sound crew s ∧ Open s) (hown : ∀ e ∈ own, e.isOwn = true)
    (hrun : Machine.run State.step s own = some s') :
    (Sound crew s' ∧ Open s') ∧
      own.length + total Place.weight s'.place ≤ total Place.weight s.place :=
  @Machine.run_length _ _ _ (fun s => Sound crew s ∧ Open s) (fun e => e.isOwn = true)
    (fun s => total Place.weight s.place)
    (fun _ _ _ hinv hown hstep =>
      ⟨hinv.1.step hstep, ((moves_of_step hstep).rests hinv.1 hinv.2 hown).1⟩)
    (fun _ _ _ hinv hown hstep => ((moves_of_step hstep).rests hinv.1 hinv.2 hown).2)
    own s s' hinv hown hrun

/-- Without a shutdown the threads come to rest by themselves, after at most twelve steps for each.
Where they rest, every call to add a job has returned, and no job waits or every worker has one. -/
theorem settles {numWorkers : Int} {attempts : Attempts T} {events own : List (Event T J)}
    {s s' : State T J}
    (hrun : Machine.run State.step (State.workqueueInit numWorkers attempts).1 events = some s)
    (hopen : Open s) (hown : ∀ e ∈ own, e.isOwn = true)
    (hmore : Machine.run State.step s own = some s') :
    own.length ≤ 12 * Fintype.card T ∧
      (Stuck s' →
        (∀ t, (State.workqueueInit (J := J) numWorkers attempts).1.place t ≠ .locking →
          s'.place t = .outside) ∧
        ∀ waiting, s'.waitingJobs.Represents waiting → waiting = [] ∨
          ∀ t, (State.workqueueInit (J := J) numWorkers attempts).1.place t = .locking →
            ∃ job, s'.place t = .running job) := by
  obtain ⟨crew, hready, -⟩ := ready_workqueueInit (J := J) numWorkers attempts
  have hcrew : ∀ t, (State.workqueueInit (J := J) numWorkers attempts).1.place t = .locking ↔
      t ∈ crew := fun t => by
    refine ⟨fun hplace => ?_, hready.locking t⟩
    by_contra ht
    rw [hready.outside t ht] at hplace
    cases hplace
  have hsound := (attended_run hready hrun).1
  obtain ⟨⟨hsound', hopen'⟩, hlength⟩ := own_run ⟨hsound, hopen⟩ hown hmore
  refine ⟨?_, fun hstuck => ⟨fun t ht => ?_, fun waiting hwaiting => ?_⟩⟩
  · have hweight : total Place.weight s.place ≤ ∑ _t : T, 12 :=
      Finset.sum_le_sum fun t _ => Place.weight_le (s.place t)
    rw [Finset.sum_const_nat fun _ _ => rfl, Finset.card_univ] at hweight
    omega
  · have hworker : ¬(s'.place t).isWorker = true := fun hin =>
      ht ((hcrew t).mpr ((hsound'.isWorker t).mp hin))
    rcases hstuck.place hsound' hopen' t with hplace | hplace | ⟨job, hplace⟩
    · exact hplace
    · exact absurd (by rw [hplace]; rfl) hworker
    · exact absurd (by rw [hplace]; rfl) hworker
  · by_cases hsleep : ∃ t, s'.place t = .asleep
    · -- Nobody is on the way, so nothing can wait.
      have hall : Machine.run State.step (State.workqueueInit numWorkers attempts).1
          (events ++ own) = some s' := Machine.run_append_iff.mpr ⟨s, hrun, hmore⟩
      have hattended := (attended_run hready hall).2 (fun t => (hopen' t).1)
      have hcoming : total Place.coming s'.place = 0 := total_eq_zero fun t => by
        rcases hstuck.place hsound' hopen' t with hplace | hplace | ⟨job, hplace⟩ <;>
          rw [hplace] <;> rfl
      have hnone := hattended waiting hwaiting hsleep
      rw [hcoming] at hnone
      exact .inl (List.length_eq_zero_iff.mp (Nat.le_zero.mp hnone))
    · refine .inr fun t ht => ?_
      have hworker := (hsound'.isWorker t).mpr ((hcrew t).mp ht)
      rcases hstuck.place hsound' hopen' t with hplace | hplace | hrunning
      · rw [hplace] at hworker
        cases hworker
      · exact absurd ⟨t, hplace⟩ hsleep
      · exact hrunning

end Rest

theorem settles_oneJob :
    ∃ s, Machine.run State.step (State.workqueueInit 1 oneWorker).1
        ([.callAddJob false 7] : List (Event Bool Nat)) = some s ∧
      ∃ s', Machine.run State.step s oneJob.tail = some s' ∧
        oneJob.tail.length ≤ 12 * Fintype.card Bool ∧
          (Stuck s' →
            (∀ t, (State.workqueueInit (J := Nat) 1 oneWorker).1.place t ≠ .locking →
              s'.place t = .outside) ∧
            ∀ waiting, s'.waitingJobs.Represents waiting → waiting = [] ∨
              ∀ t, (State.workqueueInit (J := Nat) 1 oneWorker).1.place t = .locking →
                ∃ job, s'.place t = .running job) :=
  ⟨_, rfl, _, rfl, @settles Bool Nat _ _ _ 1 oneWorker [.callAddJob false 7] oneJob.tail _ _ rfl
    (Bool.forall_bool.mpr ⟨⟨rfl, rfl⟩, ⟨rfl, rfl⟩⟩) (by decide) rfl⟩

end Workqueue

end RobotServer
