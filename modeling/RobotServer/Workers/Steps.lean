import RobotServer.Model.Workqueue

/-!
# Steps — what each step of the work queue can do, and what every thread knows

`Moves s e s'` lists the steps: which thread moves from where to where, and what it does to the
shared state.  Two invariants follow from the list:

- `Exclusive`: the mutex is with the thread that stands between a lock and an unlock;
- `Aware`: a thread that holds the mutex still finds the queue as it has seen it.
-/

namespace RobotServer

namespace Workqueue

open Interaction Memory

variable {T J : Type}

/-! ## Places -/

namespace Place

/-- Where a thread is once it has locked the mutex. -/
def entry : Place T J → Option (Place T J)
  | .locking => some .queueTest
  | .addLocking job => some (.adding job)
  | .marking none => some .clearing
  | _ => none

/-- Where a thread is once it has unlocked the mutex. -/
def exit : Place T J → Option (Place T J)
  | .waiting => some .asleep
  | .unlocking (some job) => some (.running job)
  | .unlocking none => some .locking
  | .returning => some .outside
  | _ => none

/-- The places between a lock and an unlock.  A thread that is gone has not unlocked. -/
def holds : Place T J → Bool
  | .queueTest | .terminateTest | .waiting | .leaveTest | .taking | .unlocking _ | .leaving
  | .gone | .adding _ | .signalling | .clearing | .broadcasting | .returning => true
  | _ => false

theorem holds_of_entry {p q : Place T J} (h : p.entry = some q) :
    p.holds = false ∧ q.holds = true := by
  unfold entry at h
  split at h <;> cases h <;> exact ⟨rfl, rfl⟩

theorem holds_of_exit {p q : Place T J} (h : p.exit = some q) :
    p.holds = true ∧ q.holds = false := by
  unfold exit at h
  split at h <;> cases h <;> exact ⟨rfl, rfl⟩

@[simp] theorem holds_awoken (p : Place T J) : (State.awoken p).holds = p.holds := by
  cases p <;> rfl

end Place

/-! ## The steps -/

/-- Thread `t`, which has the mutex, moves on without touching what is shared. -/
inductive Looks (s : State T J) (t : T) : Place T J → Place T J → Prop where
  | empty : s.waitingJobs.head = none → Looks s t .queueTest .terminateTest
  | full : s.waitingJobs.head ≠ none → Looks s t .queueTest .leaveTest
  | told : s.terminate t = true → Looks s t .terminateTest .leaveTest
  | untold : s.terminate t = false → Looks s t .terminateTest .waiting
  | leave : s.terminate t = true → Looks s t .leaveTest .leaving
  | stay : s.terminate t = false → Looks s t .leaveTest .taking
  | nothing : s.waitingJobs.head = none → Looks s t .taking (.unlocking none)
  | free : Looks s t .leaving .gone

theorem Looks.holds {s : State T J} {t : T} {p q : Place T J} (h : Looks s t p q) :
    p.holds = true ∧ q.holds = true := by
  cases h <;> exact ⟨rfl, rfl⟩

section Moves

variable [DecidableEq T] [DecidableEq J]

inductive Moves (s : State T J) : Event T J → State T J → Prop where
  | lock {t : T} {q : Place T J} (hplace : (s.place t).entry = some q)
      (hfree : s.jobsMutex = none) :
      Moves s (.step t) { s.move t q with jobsMutex := some t }
  | unlock {t : T} {q : Place T J} (hplace : (s.place t).exit = some q) :
      Moves s (.step t) (s.unlock t q)
  | look {t : T} {q : Place T J} (hplace : Looks s t (s.place t) q) :
      Moves s (.step t) (s.move t q)
  | take {t : T} {job : J} (hplace : s.place t = .taking)
      (hhead : s.waitingJobs.head = some job) :
      Moves s (.step t)
        { s.move t (.unlocking (some job)) with waitingJobs := llRemove job s.waitingJobs }
  | add {t : T} {job : J} (hplace : s.place t = .adding job) :
      Moves s (.step t) { s.move t .signalling with waitingJobs := llAdd job s.waitingJobs }
  | mark {t worker : T} (hplace : s.place t = .marking (some worker))
      (hworker : s.place worker ≠ .gone) :
      Moves s (.step t)
        { s.move t (.striding worker) with terminate := Function.update s.terminate worker true }
  | stride {t worker : T} (hplace : s.place t = .striding worker)
      (hworker : s.place worker ≠ .gone) :
      Moves s (.step t) (s.move t (.marking (s.workers.next worker)))
  | clear {t : T} (hplace : s.place t = .clearing) :
      Moves s (.step t)
        { s.move t .broadcasting with
          workers := { s.workers with head := none }
          waitingJobs := { s.waitingJobs with head := none } }
  | broadcast {t : T} (hplace : s.place t = .broadcasting) :
      Moves s (.step t) (s.wakeAll.move t .returning)
  | signal {t woken : T} (hplace : s.place t = .signalling) (hwoken : s.place woken = .asleep) :
      Moves s (.signal t (some woken)) ((s.move woken .locking).move t .returning)
  | noSignal {t : T} (hplace : s.place t = .signalling)
      (hnone : ∀ other, s.place other ≠ .asleep) :
      Moves s (.signal t none) (s.move t .returning)
  | wakeUp {t : T} (hplace : s.place t = .asleep) : Moves s (.wakeUp t) (s.move t .locking)
  | finish {t : T} {job : J} (hplace : s.place t = .running job) :
      Moves s (.finish t) { s.move t .locking with heap := s.heap.erase job }
  | callAddJob {t : T} {job : J} (hplace : s.place t = .outside) (hfresh : job ∉ s.heap) :
      Moves s (.callAddJob t job) { s.move t (.addLocking job) with heap := insert job s.heap }
  | callShutdown {t : T} (hplace : s.place t = .outside) :
      Moves s (.callShutdown t) (s.move t (.marking s.workers.head))

omit [DecidableEq J] in
theorem State.lock_eq_some {s s' : State T J} {t : T} {q : Place T J}
    (h : s.lock t q = some s') :
    s.jobsMutex = none ∧ s' = { s.move t q with jobsMutex := some t } := by
  unfold State.lock at h
  split at h
  case isTrue hfree => exact ⟨hfree, (Option.some.inj h).symm⟩
  case isFalse => cases h

theorem moves_of_next {s s' : State T J} {t : T} (h : s.next t = some s') :
    Moves s (.step t) s' := by
  unfold State.next at h
  split at h
  case h_1 hplace =>
      obtain ⟨hfree, rfl⟩ := State.lock_eq_some h
      exact .lock (by rw [hplace]; rfl) hfree
  case h_2 hplace =>
      split at h
      case isTrue hhead => cases h; exact .look (hplace ▸ .empty hhead)
      case isFalse hhead => cases h; exact .look (hplace ▸ .full hhead)
  case h_3 hplace =>
      split at h
      case isTrue htold => cases h; exact .look (hplace ▸ .told htold)
      case isFalse htold => cases h; exact .look (hplace ▸ .untold (Bool.not_eq_true _ ▸ htold))
  case h_4 hplace => cases h; exact .unlock (by rw [hplace]; rfl)
  case h_5 hplace =>
      split at h
      case isTrue htold => cases h; exact .look (hplace ▸ .leave htold)
      case isFalse htold => cases h; exact .look (hplace ▸ .stay (Bool.not_eq_true _ ▸ htold))
  case h_6 hplace =>
      split at h
      case h_1 job hhead => cases h; exact .take hplace hhead
      case h_2 hhead => cases h; exact .look (hplace ▸ .nothing hhead)
  case h_7 job hplace => cases h; exact .unlock (by rw [hplace]; rfl)
  case h_8 hplace => cases h; exact .unlock (by rw [hplace]; rfl)
  case h_9 hplace => cases h; exact .look (hplace ▸ .free)
  case h_10 job hplace =>
      obtain ⟨hfree, rfl⟩ := State.lock_eq_some h
      exact .lock (by rw [hplace]; rfl) hfree
  case h_11 job hplace => cases h; exact .add hplace
  case h_12 worker hplace =>
      split at h
      case isTrue => cases h
      case isFalse hworker => cases h; exact .mark hplace hworker
  case h_13 worker hplace =>
      split at h
      case isTrue => cases h
      case isFalse hworker => cases h; exact .stride hplace hworker
  case h_14 hplace =>
      obtain ⟨hfree, rfl⟩ := State.lock_eq_some h
      exact .lock (by rw [hplace]; rfl) hfree
  case h_15 hplace => cases h; exact .clear hplace
  case h_16 hplace => cases h; exact .broadcast hplace
  case h_17 hplace => cases h; exact .unlock (by rw [hplace]; rfl)
  all_goals cases h

variable [Fintype T]

/-- Every step is in the list. -/
theorem moves_of_step {s s' : State T J} {e : Event T J} (h : s.step e = some s') :
    Moves s e s' := by
  unfold State.step at h
  cases e with
  | step t => exact moves_of_next h
  | signal t woken =>
      simp only [State.signal] at h
      split at h
      case h_1 woken =>
          split at h
          case isTrue hplaces => cases h; exact .signal hplaces.1 hplaces.2
          case isFalse => cases h
      case h_2 =>
          split at h
          case isTrue hplaces => cases h; exact .noSignal hplaces.1 hplaces.2
          case isFalse => cases h
  | wakeUp t =>
      simp only at h
      split at h
      case isTrue hplace => cases h; exact .wakeUp hplace
      case isFalse => cases h
  | finish t =>
      simp only at h
      split at h
      case h_1 job hplace => cases h; exact .finish hplace
      case h_2 => cases h
  | callAddJob t job =>
      simp only at h
      split at h
      case isTrue hcan => cases h; exact .callAddJob hcan.1 hcan.2
      case isFalse => cases h
  | callShutdown t =>
      simp only at h
      split at h
      case isTrue hplace => cases h; exact .callShutdown hplace
      case isFalse => cases h

end Moves

/-! ## Who has the mutex -/

/-- The mutex is with the thread that stands between a lock and an unlock. -/
def Exclusive (s : State T J) : Prop :=
  ∀ t, (s.place t).holds = true ↔ s.jobsMutex = some t

theorem Exclusive.owner {s : State T J} (h : Exclusive s) {t : T} {p : Place T J}
    (hplace : s.place t = p) (hp : p.holds = true) : s.jobsMutex = some t :=
  (h t).mp (hplace ▸ hp)

theorem Exclusive.eq {s : State T J} (h : Exclusive s) {t u : T} (ht : (s.place t).holds = true)
    (hu : (s.place u).holds = true) : t = u :=
  Option.some.inj (((h t).mp ht).symm.trans ((h u).mp hu))

section Keep

variable [DecidableEq T]

/-- A thread that moves from place to place without passing a lock. -/
theorem Exclusive.move {s : State T J} (h : Exclusive s) {t : T} {q : Place T J}
    (hq : q.holds = (s.place t).holds) : Exclusive (s.move t q) := by
  intro u
  by_cases hu : u = t
  · subst hu
    simp only [State.move, Function.update_self, hq]
    exact h u
  · simp only [State.move, Function.update_of_ne hu]
    exact h u

theorem Exclusive.lock {s : State T J} (h : Exclusive s) {t : T} {q : Place T J}
    (hfree : s.jobsMutex = none) (hq : q.holds = true) :
    Exclusive { s.move t q with jobsMutex := some t } := by
  intro u
  by_cases hu : u = t
  · subst hu
    simp only [State.move, Function.update_self, hq]
  · simp only [State.move, Function.update_of_ne hu, h u, hfree, Option.some.injEq]
    exact ⟨fun hnone => (nomatch hnone), fun heq => absurd heq.symm hu⟩

theorem Exclusive.unlock {s : State T J} (h : Exclusive s) {t : T} {q : Place T J}
    (ht : (s.place t).holds = true) (hq : q.holds = false) : Exclusive (s.unlock t q) := by
  intro u
  by_cases hu : u = t
  · subst hu
    simp only [State.unlock, State.move, Function.update_self, hq]
    exact ⟨fun hfalse => (nomatch hfalse), fun hnone => (nomatch hnone)⟩
  · simp only [State.unlock, State.move, Function.update_of_ne hu]
    exact ⟨fun hother => absurd (h.eq hother ht) hu, fun hnone => (nomatch hnone)⟩

omit [DecidableEq T] in
theorem Exclusive.wakeAll {s : State T J} (h : Exclusive s) : Exclusive s.wakeAll := by
  intro u
  simp only [State.wakeAll, Place.holds_awoken]
  exact h u

omit [DecidableEq T] in
/-- The other fields play no part. -/
theorem Exclusive.congr {s s' : State T J} (h : Exclusive s) (hplace : s'.place = s.place)
    (hmutex : s'.jobsMutex = s.jobsMutex) : Exclusive s' := by
  intro u
  rw [hplace, hmutex]
  exact h u

variable [DecidableEq J]

theorem Moves.exclusive {s s' : State T J} {e : Event T J} (hmoves : Moves s e s')
    (h : Exclusive s) : Exclusive s' := by
  cases hmoves with
  | lock hplace hfree => exact h.lock hfree (Place.holds_of_entry hplace).2
  | unlock hplace =>
      exact h.unlock (Place.holds_of_exit hplace).1 (Place.holds_of_exit hplace).2
  | look hplace => exact h.move (by rw [hplace.holds.1, hplace.holds.2])
  | take hplace => exact (h.move (by rw [hplace]; rfl)).congr rfl rfl
  | add hplace => exact (h.move (by rw [hplace]; rfl)).congr rfl rfl
  | mark hplace => exact (h.move (by rw [hplace]; rfl)).congr rfl rfl
  | stride hplace => exact h.move (by rw [hplace]; cases s.workers.next _ <;> rfl)
  | clear hplace => exact (h.move (by rw [hplace]; rfl)).congr rfl rfl
  | @broadcast t hplace =>
      refine h.wakeAll.move ?_
      simp only [State.wakeAll, hplace]
      rfl
  | @signal t woken hplace hwoken =>
      have hne : t ≠ woken := by
        rintro rfl
        rw [hplace] at hwoken
        cases hwoken
      refine (h.move (by rw [hwoken]; rfl)).move ?_
      simp only [State.move, Function.update_of_ne hne, hplace]
      rfl
  | noSignal hplace => exact h.move (by rw [hplace]; rfl)
  | wakeUp hplace => exact h.move (by rw [hplace]; rfl)
  | finish hplace => exact (h.move (by rw [hplace]; rfl)).congr rfl rfl
  | callAddJob hplace => exact (h.move (by rw [hplace]; rfl)).congr rfl rfl
  | callShutdown hplace => exact h.move (by rw [hplace]; cases s.workers.head <;> rfl)

end Keep

/-! ## What a thread knows -/

/-- What a thread has found out and still holds. -/
def Sees (s : State T J) (t : T) : Place T J → Prop
  | .terminateTest | .waiting => s.waitingJobs.head = none
  | .leaveTest => s.waitingJobs.head ≠ none ∨ s.terminate t = true
  | .taking => s.waitingJobs.head ≠ none
  | .unlocking none => False
  | .leaving | .gone => s.terminate t = true
  | _ => True

def Aware (s : State T J) : Prop :=
  ∀ t, Sees s t (s.place t)

/-- A queue that has not changed and flags that have not been taken back. -/
theorem Sees.mono {s s' : State T J} {t : T} {p : Place T J} (h : Sees s t p)
    (hhead : s'.waitingJobs.head = s.waitingJobs.head)
    (hflag : s.terminate t = true → s'.terminate t = true) : Sees s' t p := by
  cases p with
  | terminateTest | waiting => exact hhead.trans h
  | leaveTest => exact Or.imp (fun hfull => hhead ▸ hfull) hflag h
  | taking => exact fun hempty => h (hhead.symm.trans hempty)
  | unlocking job => cases job <;> exact h
  | leaving | gone => exact hflag h
  | _ => trivial

/-- A thread without the mutex counts on nothing. -/
theorem sees_of_not_holds {s : State T J} {t : T} {p : Place T J} (hp : p.holds = false) :
    Sees s t p := by
  unfold Sees
  split <;> trivial

section Keep

variable [DecidableEq T]

theorem Aware.move {s s' : State T J} (h : Aware s) {t : T} {q : Place T J}
    (hplace : s'.place = (s.move t q).place)
    (hhead : s'.waitingJobs.head = s.waitingJobs.head)
    (hflag : ∀ u, s.terminate u = true → s'.terminate u = true) (hq : Sees s' t q) :
    Aware s' := by
  intro u
  rw [hplace]
  by_cases hu : u = t
  · subst hu
    simp only [State.move, Function.update_self]
    exact hq
  · simp only [State.move, Function.update_of_ne hu]
    exact (h u).mono hhead (hflag u)

/-- The thread that has the mutex may change the queue: the others do not look at it. -/
theorem Exclusive.aware_move {s s' : State T J} (h : Exclusive s) {t : T} {q : Place T J}
    (ht : (s.place t).holds = true) (hplace : s'.place = (s.move t q).place)
    (hq : Sees s' t q) : Aware s' := by
  intro u
  rw [hplace]
  by_cases hu : u = t
  · subst hu
    simp only [State.move, Function.update_self]
    exact hq
  · simp only [State.move, Function.update_of_ne hu]
    refine sees_of_not_holds (Bool.eq_false_iff.mpr fun hholds => hu (h.eq hholds ht))

omit [DecidableEq T] in
theorem Sees.look {s : State T J} {t : T} {p q : Place T J} (h : Looks s t p q)
    (hp : Sees s t p) : Sees s t q := by
  cases h with
  | empty hhead => exact hhead
  | full hhead => exact .inl hhead
  | told htold => exact .inr htold
  | untold => exact hp
  | leave htold => exact htold
  | stay hflag =>
      rcases hp with hhead | htold
      · exact hhead
      · rw [hflag] at htold
        cases htold
  | nothing hhead => exact absurd hhead hp
  | free => exact hp

variable [DecidableEq J]

theorem Moves.aware {s s' : State T J} {e : Event T J} (hmoves : Moves s e s')
    (hexcl : Exclusive s) (h : Aware s) : Aware s' := by
  cases hmoves with
  | lock hplace hfree =>
      refine h.move rfl rfl (fun _ => id) ?_
      unfold Place.entry at hplace
      split at hplace <;> cases hplace <;> trivial
  | @unlock t q hplace =>
      exact h.move rfl rfl (fun _ => id) (sees_of_not_holds (Place.holds_of_exit hplace).2)
  | @look t q hplace => exact h.move rfl rfl (fun _ => id) ((Sees.look hplace (h t)).mono rfl id)
  | take hplace => exact hexcl.aware_move (by rw [hplace]; rfl) rfl trivial
  | add hplace => exact hexcl.aware_move (by rw [hplace]; rfl) rfl trivial
  | @mark t worker hplace =>
      refine h.move rfl rfl (fun u hu => ?_) trivial
      by_cases huw : u = worker
      · subst huw
        exact Function.update_self ..
      · exact (Function.update_of_ne huw ..).trans hu
  | stride hplace => exact h.move rfl rfl (fun _ => id) trivial
  | clear hplace => exact hexcl.aware_move (by rw [hplace]; rfl) rfl trivial
  | broadcast hplace =>
      refine hexcl.wakeAll.aware_move ?_ rfl trivial
      simp only [State.wakeAll, hplace]
      rfl
  | @signal t woken hplace hwoken =>
      have hwoke : Aware (s.move woken .locking) := h.move rfl rfl (fun _ => id) trivial
      exact hwoke.move rfl rfl (fun _ => id) trivial
  | noSignal hplace => exact h.move rfl rfl (fun _ => id) trivial
  | wakeUp hplace => exact h.move rfl rfl (fun _ => id) trivial
  | finish hplace => exact h.move rfl rfl (fun _ => id) trivial
  | callAddJob hplace => exact h.move rfl rfl (fun _ => id) trivial
  | callShutdown hplace => exact h.move rfl rfl (fun _ => id) trivial

end Keep

end Workqueue

end RobotServer
