import RobotServer.Interaction.Machine
import RobotServer.Maps.Total

/-!
# Pool — what a work queue is for

Jobs are added, taken by workers and finished; the job that waits for the shortest time is taken
first, and the jobs that wait can be dropped.  Nothing is said of threads here.

- `content_run`: every job that is added waits, is in a hand, is finished or was dropped;
- `newer_taken`: a job is taken only when the jobs that came after it have been taken.
-/

namespace RobotServer

open Interaction Maps

structure Pool (T J : Type) where
  stack : List J
  inHand : T → Option J
  dropped : List J

namespace Pool

variable {T J : Type}

inductive Act (T J : Type) where
  | add (job : J)
  | take (worker : T) (job : J)
  | finish (worker : T) (job : J)
  | drop
  deriving DecidableEq, Repr

def empty : Pool T J :=
  ⟨[], fun _ => none, []⟩

def step [DecidableEq T] [DecidableEq J] (p : Pool T J) : Act T J → Option (Pool T J)
  | .add job => some { p with stack := job :: p.stack }
  | .take worker job =>
      if p.stack.head? = some job ∧ p.inHand worker = none then
        some { p with
          stack := p.stack.tail
          inHand := Function.update p.inHand worker (some job) }
      else none
  | .finish worker job =>
      if p.inHand worker = some job then
        some { p with inHand := Function.update p.inHand worker none }
      else none
  | .drop => some { p with stack := [], dropped := p.stack ++ p.dropped }

theorem step_take [DecidableEq T] [DecidableEq J] {p : Pool T J} {worker : T} {job : J}
    {rest : List J} (hstack : p.stack = job :: rest) (hempty : p.inHand worker = none) :
    p.step (.take worker job) =
      some ⟨rest, Function.update p.inHand worker (some job), p.dropped⟩ := by
  simp [step, hstack, hempty]

theorem step_finish [DecidableEq T] [DecidableEq J] {p : Pool T J} {worker : T} {job : J}
    (hheld : p.inHand worker = some job) :
    p.step (.finish worker job) =
      some { p with inHand := Function.update p.inHand worker none } :=
  if_pos hheld

/-! ## What a list of acts does -/

def Act.added? : Act T J → Option J
  | .add job => some job
  | _ => none

def Act.taken? : Act T J → Option J
  | .take _ job => some job
  | _ => none

def Act.finished? : Act T J → Option J
  | .finish _ job => some job
  | _ => none

/-- The jobs that are added, as often as they are. -/
def added (acts : List (Act T J)) : Multiset J :=
  ↑(acts.filterMap Act.added?)

def taken (acts : List (Act T J)) : Multiset J :=
  ↑(acts.filterMap Act.taken?)

def finished (acts : List (Act T J)) : Multiset J :=
  ↑(acts.filterMap Act.finished?)

theorem added_cons (act : Act T J) (rest : List (Act T J)) :
    added (act :: rest) = added [act] + added rest := by
  rw [added, added, added, Multiset.coe_add, ← List.filterMap_append]
  rfl

theorem taken_cons (act : Act T J) (rest : List (Act T J)) :
    taken (act :: rest) = taken [act] + taken rest := by
  rw [taken, taken, taken, Multiset.coe_add, ← List.filterMap_append]
  rfl

theorem finished_cons (act : Act T J) (rest : List (Act T J)) :
    finished (act :: rest) = finished [act] + finished rest := by
  rw [finished, finished, finished, Multiset.coe_add, ← List.filterMap_append]
  rfl

/-- The jobs in a hand. -/
def held (job : Option J) : Multiset J :=
  ↑job.toList

section Content

variable [Fintype T]

/-- The jobs that have come and are not finished. -/
def content (p : Pool T J) : Multiset J :=
  ↑p.stack + ↑p.dropped + total held p.inHand

variable [DecidableEq T] [DecidableEq J]

theorem content_step {p p' : Pool T J} {act : Act T J} (h : p.step act = some p') :
    p'.content + finished [act] = p.content + added [act] := by
  cases act with
  | add job =>
      cases h
      change (↑(job :: p.stack) : Multiset J) + _ + _ + 0 = _ + {job}
      rw [content, ← Multiset.cons_coe, ← Multiset.singleton_add]
      abel
  | take worker job =>
      simp only [step] at h
      split at h
      case isFalse => cases h
      case isTrue hcan =>
          cases h
          obtain ⟨hhead, hempty⟩ := hcan
          have hstack : p.stack = job :: p.stack.tail := (List.cons_head?_tail hhead).symm
          have hhands : total held (Function.update p.inHand worker (some job)) =
              total held p.inHand + {job} := total_gain (by rw [hempty]; rfl) rfl
          change (↑p.stack.tail : Multiset J) + _ + _ + 0 = _ + 0
          rw [content, hstack, ← Multiset.cons_coe, ← Multiset.singleton_add, ← hstack, hhands]
          abel
  | finish worker job =>
      simp only [step] at h
      split at h
      case isFalse => cases h
      case isTrue hheld =>
          cases h
          have hhands : total held (Function.update p.inHand worker none) + {job} =
              total held p.inHand := total_loss (by rw [hheld]; rfl) rfl
          change ↑p.stack + ↑p.dropped + _ + {job} = content p + 0
          rw [add_assoc, hhands, content, add_zero]
  | drop =>
      cases h
      change (0 : Multiset J) + ↑(p.stack ++ p.dropped) + _ + 0 = _ + 0
      rw [content, ← Multiset.coe_add, zero_add]

/-- Nothing is lost and nothing comes twice. -/
theorem content_run {acts : List (Act T J)} : ∀ {p p' : Pool T J},
    Machine.run step p acts = some p' →
      p'.content + finished acts = p.content + added acts := by
  induction acts with
  | nil =>
      intro p p' hrun
      cases hrun
      rfl
  | cons act rest ih =>
      intro p p'' hrun
      obtain ⟨p', hstep, hrest⟩ := Machine.run_cons_iff.mp hrun
      have hone := content_step hstep
      have hmore := ih hrest
      calc p''.content + finished (act :: rest)
          = p''.content + finished rest + finished [act] := by rw [finished_cons act rest]; abel
        _ = p'.content + finished [act] + added rest := by rw [hmore]; abel
        _ = p.content + added (act :: rest) := by rw [hone, added_cons act rest]; abel

end Content

theorem dropped_run [DecidableEq T] [DecidableEq J] {acts : List (Act T J)} :
    ∀ {p p' : Pool T J}, Machine.run step p acts = some p' → .drop ∉ acts →
      p'.dropped = p.dropped := by
  induction acts with
  | nil =>
      intro p p' hrun _
      cases hrun
      rfl
  | cons act rest ih =>
      intro p p'' hrun hdrop
      obtain ⟨p', hstep, hrest⟩ := Machine.run_cons_iff.mp hrun
      rw [ih hrest fun hin => hdrop (List.mem_cons_of_mem _ hin)]
      cases act with
      | add job => cases hstep; rfl
      | take worker job =>
          simp only [step] at hstep
          split at hstep <;> cases hstep
          rfl
      | finish worker job =>
          simp only [step] at hstep
          split at hstep <;> cases hstep
          rfl
      | drop => exact absurd List.mem_cons_self hdrop

/-! ## Newest first -/

section Newest

variable [DecidableEq T] [DecidableEq J]

/-- The act has nothing to do with the coming and going of `job`. -/
def Act.Spares (job : J) (act : Act T J) : Prop :=
  act.added? ≠ some job ∧ act.taken? ≠ some job

theorem not_mem_stack_step {p p' : Pool T J} {act : Act T J} {job : J} (h : p.step act = some p')
    (hspares : act.Spares job) (hnotin : job ∉ p.stack) : job ∉ p'.stack := by
  cases act with
  | add other =>
      cases h
      exact fun hin => (List.mem_cons.mp hin).elim
        (fun heq => hspares.1 (congrArg some heq.symm)) hnotin
  | take worker other =>
      simp only [step] at h
      split at h
      case isFalse => cases h
      case isTrue => cases h; exact fun hin => hnotin (List.mem_of_mem_tail hin)
  | finish worker other =>
      simp only [step] at h
      split at h
      case isFalse => cases h
      case isTrue => cases h; exact hnotin
  | drop => cases h; exact List.not_mem_nil

/-- `job` waits with `newer` in front of it, or does not wait any more. -/
def Behind (job : J) (older newer : List J) (p : Pool T J) : Prop :=
  p.stack = newer ++ job :: older ∧ job ∉ newer

theorem behind_step {p p' : Pool T J} {act : Act T J} {job : J} {older newer : List J}
    (h : p.step act = some p') (hspares : act.Spares job) (hbehind : Behind job older newer p) :
    (∃ newer', Behind job older newer' p' ∧
        (newer' : Multiset J) + taken [act] = newer + added [act]) ∨ job ∉ p'.stack := by
  obtain ⟨hstack, hnewer⟩ := hbehind
  cases act with
  | add other =>
      cases h
      refine .inl ⟨other :: newer, ⟨by rw [List.cons_append, hstack], fun hin => ?_⟩, ?_⟩
      · exact (List.mem_cons.mp hin).elim (fun heq => hspares.1 (congrArg some heq.symm)) hnewer
      · change (↑(other :: newer) : Multiset J) + 0 = ↑newer + {other}
        rw [add_zero, ← Multiset.cons_coe, ← Multiset.singleton_add, add_comm]
  | take worker other =>
      simp only [step] at h
      split at h
      case isFalse => cases h
      case isTrue hcan =>
          cases h
          -- What is taken stands first: it is one of the newer ones, as it is not `job`.
          rcases newer with - | ⟨first, newer⟩
          · rw [hstack] at hcan
            exact absurd hcan.1.symm hspares.2
          · rw [hstack] at hcan
            have hfirst : first = other := Option.some.inj hcan.1
            subst hfirst
            refine .inl ⟨newer, ⟨by rw [hstack]; rfl, ?_⟩, ?_⟩
            · exact fun hin => hnewer (List.mem_cons_of_mem _ hin)
            · change (↑newer : Multiset J) + {first} = ↑(first :: newer) + 0
              rw [add_zero, ← Multiset.cons_coe, ← Multiset.singleton_add, add_comm]
  | finish worker other =>
      simp only [step] at h
      split at h
      case isFalse => cases h
      case isTrue => cases h; exact .inl ⟨newer, ⟨hstack, hnewer⟩, rfl⟩
  | drop => cases h; exact .inr List.not_mem_nil

theorem not_mem_stack_run {acts : List (Act T J)} {job : J} : ∀ {p p' : Pool T J},
    Machine.run step p acts = some p' → (∀ act ∈ acts, act.Spares job) → job ∉ p.stack →
      job ∉ p'.stack := by
  induction acts with
  | nil =>
      intro p p' hrun _ hnotin
      cases hrun
      exact hnotin
  | cons act rest ih =>
      intro p p'' hrun hspares hnotin
      obtain ⟨p', hstep, hrest⟩ := Machine.run_cons_iff.mp hrun
      exact ih hrest (fun act' h => hspares act' (List.mem_cons_of_mem _ h))
        (not_mem_stack_step hstep (hspares act List.mem_cons_self) hnotin)

theorem behind_run {acts : List (Act T J)} {job : J} {older : List J} :
    ∀ {p p' : Pool T J} {newer : List J}, Machine.run step p acts = some p' →
      (∀ act ∈ acts, act.Spares job) → Behind job older newer p →
        (∃ newer', Behind job older newer' p' ∧
          (newer' : Multiset J) + taken acts = newer + added acts) ∨ job ∉ p'.stack := by
  induction acts with
  | nil =>
      intro p p' newer hrun _ hbehind
      cases hrun
      exact .inl ⟨newer, hbehind, rfl⟩
  | cons act rest ih =>
      intro p p'' newer hrun hspares hbehind
      obtain ⟨p', hstep, hrest⟩ := Machine.run_cons_iff.mp hrun
      have hrestSpares := fun act' h => hspares act' (List.mem_cons_of_mem _ h)
      rcases behind_step hstep (hspares act List.mem_cons_self) hbehind with
        ⟨newer', hbehind', hone⟩ | hgone
      · rcases ih hrest hrestSpares hbehind' with ⟨newer'', hbehind'', hmore⟩ | hgone
        · refine .inl ⟨newer'', hbehind'', ?_⟩
          calc (newer'' : Multiset J) + taken (act :: rest)
              = ↑newer'' + taken rest + taken [act] := by rw [taken_cons act rest]; abel
            _ = ↑newer' + taken [act] + added rest := by rw [hmore]; abel
            _ = ↑newer + added (act :: rest) := by rw [hone, added_cons act rest]; abel
        · exact .inr hgone
      · exact .inr (not_mem_stack_run hrest hrestSpares hgone)

/-- Between the coming of a job and its being taken, the jobs that come are taken. -/
theorem newer_taken {p p' : Pool T J} {between : List (Act T J)} {job : J} {worker : T}
    (hrun : Machine.run step p (.add job :: between ++ [.take worker job]) = some p')
    (hspares : ∀ act ∈ between, act.Spares job) : taken between = added between := by
  obtain ⟨p₂, hfirst, hlast⟩ := Machine.run_append_iff.mp hrun
  obtain ⟨p₁, hadd, hbetween⟩ := Machine.run_cons_iff.mp hfirst
  cases hadd
  have hstart : Behind job p.stack [] ({ p with stack := job :: p.stack } : Pool T J) :=
    ⟨rfl, List.not_mem_nil⟩
  obtain ⟨p₃, htake, -⟩ := Machine.run_cons_iff.mp hlast
  simp only [step] at htake
  split at htake
  case isFalse => cases htake
  case isTrue hcan =>
      rcases behind_run hbetween hspares hstart with ⟨newer, hbehind, hcount⟩ | hgone
      · rcases newer with - | ⟨first, newer⟩
        · simpa using hcount
        · rw [hbehind.1] at hcan
          have hfirst : first = job := Option.some.inj hcan.1
          exact absurd (hfirst ▸ List.mem_cons_self) hbehind.2
      · exact absurd (List.mem_of_head? hcan.1) hgone

end Newest

end Pool

end RobotServer
