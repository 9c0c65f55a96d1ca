import Mathlib.Data.List.Induction
import Mathlib.Logic.Function.Basic
import RobotServer.Interaction.Performs

/-!
# Interleaving — programs that run concurrently

Threads are programs over one environment.  A schedule picks threads one after another; the
picked thread performs its next operation, atomically, and the operation is recorded with its
reply.  A thread that has ended is picked in vain.

- `Config.run_concat` is the induction rule of a run: one more operation at its end;
- `Config.run_performs` hands a property of the operations of every program to the history.
-/

namespace Interaction

/-! ## Configurations -/

/-- An operation as it was performed by a thread. -/
structure Event (ι : Type) (I : Interface) where
  thread : ι
  op : I.Op
  reply : I.Reply op

/-- The threads, the state of their environment and what has happened so far. -/
structure Config (ι : Type) (I : Interface) (σ : Type) where
  pool : ι → Program I Unit
  state : σ
  history : List (Event ι I)

namespace Config

variable {ι σ : Type} {I : Interface} [DecidableEq ι] (E : Environment I σ)

def start (pool : ι → Program I Unit) (s : σ) : Config ι I σ :=
  ⟨pool, s, []⟩

/-- Thread `i` performs its next operation. -/
def step (c : Config ι I σ) (i : ι) : Config ι I σ :=
  match c.pool i with
  | .call o k =>
      let answer := E.answer o c.state
      ⟨Function.update c.pool i (k answer.1), answer.2, c.history ++ [⟨i, o, answer.1⟩]⟩
  | _ => c

def run (c : Config ι I σ) (schedule : List ι) : Config ι I σ :=
  schedule.foldl (step E) c

@[simp] theorem run_nil (c : Config ι I σ) : c.run E [] = c := rfl

theorem run_concat (c : Config ι I σ) (schedule : List ι) (i : ι) :
    c.run E (schedule ++ [i]) = (c.run E schedule).step E i := by
  rw [run, List.foldl_append]
  rfl

/-- The operation thread `i` is about to perform. -/
def next (c : Config ι I σ) (i : ι) : Option I.Op :=
  match c.pool i with
  | .call o _ => some o
  | _ => none

variable {E}

/-- The step of a thread that is about to perform `o`. -/
theorem step_of_call {c : Config ι I σ} {i : ι} {o : I.Op} {k : I.Reply o → Program I Unit}
    (h : c.pool i = .call o k) :
    c.step E i = ⟨Function.update c.pool i (k (E.answer o c.state).1), (E.answer o c.state).2,
      c.history ++ [⟨i, o, (E.answer o c.state).1⟩]⟩ := by
  unfold step
  rw [h]

omit [DecidableEq ι] in
theorem exists_call_of_next {c : Config ι I σ} {i : ι} {o : I.Op} (h : c.next i = some o) :
    ∃ k, c.pool i = .call o k := by
  unfold next at h
  cases hp : c.pool i with
  | ret a => simp [hp] at h
  | call o' k =>
      rw [hp] at h
      injection h with h
      subst h
      exact ⟨k, rfl⟩
  | fault => simp [hp] at h

theorem step_of_next {c : Config ι I σ} {i : ι} {o : I.Op} (h : c.next i = some o) :
    (c.step E i).state = (E.answer o c.state).2 ∧
      (c.step E i).history = c.history ++ [⟨i, o, (E.answer o c.state).1⟩] := by
  rcases exists_call_of_next h with ⟨k, hcall⟩
  rw [step_of_call hcall]
  exact ⟨rfl, rfl⟩

/-- A step performs the next operation of its thread, or nothing. -/
theorem step_cases (c : Config ι I σ) (i : ι) : c.step E i = c ∨ ∃ o, c.next i = some o := by
  unfold step next
  cases c.pool i with
  | ret a => exact .inl rfl
  | call o k => exact .inr ⟨o, rfl⟩
  | fault => exact .inl rfl

/-- What holds of the operations of every program holds of what was performed. -/
theorem run_performs {P : ι → I.Op → Prop} {pool : ι → Program I Unit}
    (hpool : ∀ i, (pool i).Performs (P i)) (s : σ) (schedule : List ι) :
    (∀ i, (((start pool s).run E schedule).pool i).Performs (P i)) ∧
      ∀ e ∈ ((start pool s).run E schedule).history, P e.thread e.op := by
  induction schedule using List.reverseRecOn with
  | nil => exact ⟨hpool, fun e he => by cases he⟩
  | append_singleton schedule i ih =>
      rcases ih with ⟨hprograms, hhistory⟩
      rw [run_concat]
      rcases step_cases (E := E) ((start pool s).run E schedule) i with hsame | ⟨o, hnext⟩
      · rw [hsame]
        exact ⟨hprograms, hhistory⟩
      · rcases exists_call_of_next hnext with ⟨k, hcall⟩
        have hthread := hprograms i
        rw [hcall] at hthread
        rw [step_of_call hcall]
        refine ⟨?_, ?_⟩
        · intro j
          -- Only the thread that took the step has moved.
          by_cases hj : j = i
          · subst hj
            simp only [Function.update_self]
            exact hthread.2 _
          · simp only [Function.update_of_ne hj]
            exact hprograms j
        · intro e he
          rcases List.mem_append.mp he with hold | hnew
          · exact hhistory e hold
          · rw [List.mem_singleton.mp hnew]
            exact hthread.1

end Config

end Interaction
