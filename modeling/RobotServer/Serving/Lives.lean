import RobotServer.Model.Server
import RobotServer.Model.World

/-!
# Lives — connections side by side

Each connection holds a descriptor, the memory of its `client_t` and its libevent objects.
`owning fd pointer` is what it holds where `fd` is its open descriptor and `pointer` tells the
objects it has.  Every function is followed by what is held behind it, and with that the
connections stay apart in every order of their calls: no descriptor is closed twice or by another
connection, and nothing is freed twice.  What a call is on are the resources in `needed`: libevent's
own reads and writes on a descriptor, and the threads that a callback starts, are not among them.
-/

namespace RobotServer

namespace Server

open Interaction

/-! ## Resources -/

inductive Resource where
  | descriptor (fd : Int)
  | block (kind : Block) (pointer : Option Nat)
  deriving DecidableEq, Repr

/-- What a call is on.  Nobody holds the descriptor `-1` or a null pointer. -/
def needed : Call → List Resource
  | .accept => []
  | .getFlags fd => [.descriptor fd]
  | .setFlags fd _ => [.descriptor fd]
  | .close fd => [.descriptor fd]
  | .allocate _ => []
  | .bufferevent_new fd client => [.descriptor fd, .block .client client]
  | .enable evbase bufEv => [.block .evbase evbase, .block .bufEv bufEv]
  | .free kind pointer => [.block kind pointer]
  | .addJob job client => [.block .job job, .block .client client]
  | .dispatch evbase bufEv client =>
      [.block .evbase evbase, .block .bufEv bufEv, .block .client client]
  | .service client bufEv outputBuffer pBlock o =>
      .block .client client :: .block .pBlock pBlock ::
        if o.isWriteBuffer then [.block .outputBuffer outputBuffer, .block .bufEv bufEv] else []

def released : Call → Option Resource
  | .close fd => some (.descriptor fd)
  | .free kind pointer => some (.block kind pointer)
  | _ => none

def acquired : (c : Call) → c.Reply → Option Resource
  | .accept, fd => if fd ≥ 0 then some (.descriptor fd) else none
  | .allocate kind, pointer => pointer.map fun address => .block kind (some address)
  | .bufferevent_new _ _, pointer => pointer.map fun address => .block .bufEv (some address)
  | _, _ => none

def lifeLedger : Ledger lifeInterface Resource where
  needs := needed
  releases := released
  acquires := acquired

theorem released_needed (c : Call) (r : Resource) (h : released c = some r) : r ∈ needed c := by
  cases c with
  | close fd | free kind pointer => cases h; exact List.mem_singleton_self _
  | _ => cases h

/-! ## What a connection holds -/

/-- The descriptor `fd`, if it is open, and the objects of `objects`. -/
def owning (fd : Int) (objects : Block → Option Nat) : Set Resource :=
  {r | match r with
    | .descriptor d => 0 ≤ fd ∧ d = fd
    | .block kind p => p ≠ none ∧ p = objects kind}

variable {fd : Int} {objects : Block → Option Nat} {kind : Block}

theorem descriptor_mem_owning (h : 0 ≤ fd) : .descriptor fd ∈ owning fd objects :=
  ⟨h, rfl⟩

theorem block_mem_owning (h : objects kind ≠ none) :
    .block kind (objects kind) ∈ owning fd objects :=
  ⟨h, rfl⟩

theorem owning_none : owning (-1) (fun _ => none) = ∅ := by
  ext r
  cases r with
  | descriptor d => exact iff_of_false (fun h => absurd h.1 (by decide)) (Set.notMem_empty _)
  | block kind p => exact iff_of_false (fun h => h.1 h.2) (Set.notMem_empty _)

theorem owning_of_neg (h : fd < 0) : owning fd objects = owning (-1) objects := by
  ext r
  cases r with
  | descriptor d =>
      exact iff_of_false (fun hd => absurd hd.1 (Int.not_le.mpr h))
        fun hd => absurd hd.1 (by decide)
  | block kind p => exact Iff.rfl

theorem owning_close : owning fd objects \ {.descriptor fd} = owning (-1) objects := by
  ext r
  cases r with
  | descriptor d =>
      exact iff_of_false (fun hd => hd.2 (congrArg _ hd.1.2)) fun hd => absurd hd.1 (by decide)
  | block kind p => exact ⟨fun h => h.1, fun h => ⟨h, fun heq => nomatch heq⟩⟩

theorem owning_free :
    owning fd objects \ {.block kind (objects kind)} =
      owning fd (Function.update objects kind none) := by
  ext r
  cases r with
  | descriptor d => exact ⟨fun h => h.1, fun h => ⟨h, fun heq => nomatch heq⟩⟩
  | block kind' p =>
      by_cases hkind : kind' = kind
      · subst hkind
        refine iff_of_false (fun h => h.2 (congrArg _ h.1.2)) fun h => h.1 ?_
        exact h.2.trans (Function.update_self ..)
      · simp only [owning, Set.mem_sdiff, Set.mem_ofPred_eq, Set.mem_singleton_iff,
          Function.update_of_ne hkind, Resource.block.injEq, hkind, false_and, not_false_eq_true,
          and_true]

theorem owning_allocate {address : Nat} (h : objects kind = none) :
    insert (.block kind (some address)) (owning fd objects) =
      owning fd (Function.update objects kind (some address)) := by
  ext r
  cases r with
  | descriptor d =>
      exact ⟨fun hin => hin.resolve_left fun heq => (nomatch heq), fun hin => .inr hin⟩
  | block kind' p =>
      by_cases hkind : kind' = kind
      · subst hkind
        simp only [owning, Set.mem_insert_iff, Set.mem_ofPred_eq, Function.update_self, h,
          Resource.block.injEq, true_and]
        constructor
        · rintro (rfl | ⟨hne, heq⟩)
          · exact ⟨Option.some_ne_none _, rfl⟩
          · exact absurd heq hne
        · exact fun hp => .inl hp.2
      · simp only [owning, Set.mem_insert_iff, Set.mem_ofPred_eq, Function.update_of_ne hkind,
          Resource.block.injEq, hkind, false_and, false_or]

theorem owning_accept (h : 0 ≤ fd) : insert (.descriptor fd) ∅ = owning fd fun _ => none := by
  ext r
  cases r with
  | descriptor d =>
      constructor
      · rintro (heq | hin)
        · cases heq
          exact ⟨h, rfl⟩
        · exact absurd hin (Set.notMem_empty _)
      · exact fun hd => .inl (congrArg _ hd.2)
  | block kind p =>
      refine iff_of_false ?_ fun hp => hp.1 hp.2
      rintro (heq | hin)
      · cases heq
      · exact absurd hin (Set.notMem_empty _)

/-! ## Calls -/

variable {α : Type} {Q : α → Set Resource → Prop} {held : Set Resource}

theorem owns_call {c : Call} {f : c.Reply → Life α} (hneeds : ∀ r ∈ needed c, r ∈ held)
    (hf : ∀ reply, (f reply).Owns lifeLedger Q (lifeLedger.after held c reply)) :
    (call c >>= f).Owns lifeLedger Q held :=
  ⟨hneeds, fun reply _ => hf reply⟩

/-- A call that hands nothing over. -/
theorem owns_plain {c : Call} {f : c.Reply → Life α} (hneeds : ∀ r ∈ needed c, r ∈ held)
    (hreleased : released c = none) (hacquired : ∀ reply, acquired c reply = none)
    (hf : ∀ reply, (f reply).Owns lifeLedger Q held) :
    (call c >>= f).Owns lifeLedger Q held := by
  refine owns_call hneeds fun reply => ?_
  rw [Ledger.after_of_none lifeLedger hreleased (hacquired reply)]
  exact hf reply

theorem owns_close {f : Unit → Life α} (h : 0 ≤ fd)
    (hf : (f ()).Owns lifeLedger Q (owning (-1) objects)) :
    (call (.close fd) >>= f).Owns lifeLedger Q (owning fd objects) := by
  refine owns_call (fun r hr => ?_) fun _ => ?_
  · rw [List.mem_singleton.mp hr]
    exact descriptor_mem_owning h
  · rw [Ledger.after_of_release lifeLedger (r := .descriptor fd) rfl rfl, owning_close]
    exact hf

theorem owns_free {f : Unit → Life α} {p : Option Nat} (hp : objects kind = p) (h : p ≠ none)
    (hf : (f ()).Owns lifeLedger Q (owning fd (Function.update objects kind none))) :
    (call (.free kind p) >>= f).Owns lifeLedger Q (owning fd objects) := by
  subst hp
  refine owns_call (fun r hr => ?_) fun _ => ?_
  · rw [List.mem_singleton.mp hr]
    exact block_mem_owning h
  · rw [Ledger.after_of_release lifeLedger (r := .block kind (objects kind)) rfl rfl, owning_free]
    exact hf

/-- What an allocation hands over, if it hands over anything. -/
theorem after_allocate (kind : Block) (result : Option Nat) {c : Call} {reply : c.Reply}
    (hreleased : released c = none)
    (hacquired : acquired c reply = result.map fun address => .block kind (some address))
    (h : objects kind = none) :
    lifeLedger.after (owning fd objects) c reply =
      owning fd (Function.update objects kind result) := by
  cases result with
  | none =>
      rw [Ledger.after_of_none lifeLedger hreleased hacquired, ← h, Function.update_eq_self]
  | some address =>
      rw [Ledger.after_of_acquire lifeLedger hreleased hacquired, owning_allocate h]

theorem allocate_owns (h : objects kind = none) :
    (call (.allocate kind)).Owns lifeLedger
      (fun result held => held = owning fd (Function.update objects kind result))
      (owning fd objects) := by
  refine owns_call (f := pure) (fun r hr => nomatch hr) fun result => ?_
  exact after_allocate kind result rfl rfl h

/-! ## Tearing down -/

/-- The objects of a connection and its job. -/
def Client.pointers (client : Client) (job : Option Nat) : Block → Option Nat
  | .client => client.address
  | .bufEv => client.bufEv
  | .evbase => client.evbase
  | .outputBuffer => client.outputBuffer
  | .pBlock => client.pBlock
  | .job => job

theorem closeClient_owns (client : Client) :
    (closeClient client).Owns lifeLedger
      (fun client' held => client' = { client with fd := client'.fd } ∧ client'.fd < 0 ∧
        held = owning client'.fd objects) (owning client.fd objects) := by
  unfold closeClient
  by_cases hfd : client.fd ≥ 0
  · rw [if_pos hfd]
    exact owns_close hfd ⟨rfl, Int.negSucc_lt_zero 0, rfl⟩
  · rw [if_neg hfd]
    exact ⟨rfl, Int.not_le.mp hfd, rfl⟩

theorem freeIfSet_owns {p : Option Nat} (h : objects kind = p) :
    (freeIfSet kind p).Owns lifeLedger
      (fun _ held => held = owning fd (Function.update objects kind none))
      (owning fd objects) := by
  cases p with
  | none =>
      change owning fd objects = _
      rw [← h, Function.update_eq_self]
  | some address => exact owns_free (f := pure) h (Option.some_ne_none address) rfl

theorem closeAndFreeClient_owns {client : Client} {job : Option Nat}
    (haddress : client.address ≠ none) :
    (closeAndFreeClient client).Owns lifeLedger
      (fun _ held => held = owning (-1) (Function.update (fun _ => none) .job job))
      (owning client.fd (client.pointers job)) := by
  unfold closeAndFreeClient
  refine Program.Owns.bind ?_ (closeClient_owns client)
  rintro client' _ ⟨hsame, hfd, rfl⟩
  rw [hsame]
  refine Program.Owns.bind ?_ (freeIfSet_owns rfl)
  rintro - _ rfl
  refine Program.Owns.bind ?_ (freeIfSet_owns rfl)
  rintro - _ rfl
  refine Program.Owns.bind ?_ (freeIfSet_owns rfl)
  rintro - _ rfl
  refine Program.Owns.bind ?_ (freeIfSet_owns rfl)
  rintro - _ rfl
  refine owns_free (f := pure) rfl haddress ?_
  change owning client'.fd _ = _
  rw [owning_of_neg hfd]
  congr 1
  funext kind
  cases kind <;> rfl

/-! ## Callbacks -/

/-- A connection as its job finds it. -/
structure Client.Complete (client : Client) : Prop where
  address : client.address ≠ none
  evbase : client.evbase ≠ none
  bufEv : client.bufEv ≠ none
  outputBuffer : client.outputBuffer ≠ none
  pBlock : client.pBlock ≠ none

/-- A callback leaves a connection with the objects it had. -/
def Kept (client : Client) (job : Option Nat) (client' : Client) (held : Set Resource) : Prop :=
  client'.Complete ∧ client'.pointers job = client.pointers job ∧
    held = owning client'.fd (client'.pointers job)

theorem closeClient_kept {client : Client} {job : Option Nat} (h : client.Complete) :
    (closeClient client).Owns lifeLedger (Kept client job)
      (owning client.fd (client.pointers job)) := by
  refine Program.Owns.mono ?_ (closeClient_owns client)
  rintro client' held ⟨hsame, -, rfl⟩
  rw [hsame]
  exact ⟨⟨h.address, h.evbase, h.bufEv, h.outputBuffer, h.pBlock⟩, rfl, rfl⟩

/-- An operation of a callback is on the memory of the connection. -/
theorem needed_service {client : Client} {job : Option Nat} (h : client.Complete) (o : Op) :
    ∀ r ∈ needed (.service client.address client.bufEv client.outputBuffer client.pBlock o),
      r ∈ owning client.fd (client.pointers job) := by
  intro r hr
  rcases List.mem_cons.mp hr with rfl | hr
  · exact ⟨h.address, rfl⟩
  rcases List.mem_cons.mp hr with rfl | hr
  · exact ⟨h.pBlock, rfl⟩
  split at hr
  case isTrue =>
      rcases List.mem_cons.mp hr with rfl | hr
      · exact ⟨h.outputBuffer, rfl⟩
      · rw [List.mem_singleton.mp hr]
        exact ⟨h.bufEv, rfl⟩
  case isFalse => cases hr

theorem serve_call {o : Op} {k : o.Reply → Action α} {client : Client} (h : o ≠ .closeClient) :
    serve (.call (I := serverInterface) o k) client =
      call (.service client.address client.bufEv client.outputBuffer client.pBlock o) >>=
        fun reply => serve (k reply) client := by
  cases o <;> first | rfl | exact absurd rfl h

theorem serve_kept (p : Action α) {job : Option Nat} : ∀ {client : Client}, client.Complete →
    (serve p client).Owns lifeLedger (fun r => Kept client job r.2)
      (owning client.fd (client.pointers job)) := by
  induction p with
  | ret a => exact fun h => ⟨h, rfl, rfl⟩
  | fault => exact fun _ => trivial
  | call o k ih =>
      intro client h
      by_cases hclose : o = .closeClient
      · subst hclose
        refine Program.Owns.bind ?_ (closeClient_kept h)
        rintro client' _ ⟨h', hsame, rfl⟩
        refine Program.Owns.mono ?_ (ih () h')
        rintro r held ⟨hr, hrsame, hheld⟩
        exact ⟨hr, hrsame.trans hsame, hheld⟩
      · rw [serve_call hclose]
        refine owns_plain (needed_service h o) rfl (fun _ => rfl) fun reply => ih reply h

theorem bufferedOnRead_kept {client : Client} {job : Option Nat} (input : Evbuffer)
    (h : client.Complete) :
    (bufferedOnRead client input).Owns lifeLedger (fun r => Kept client job r.1)
      (owning client.fd (client.pointers job)) := by
  refine Program.Owns.bind ?_ (serve_kept _ h)
  rintro ⟨⟨block, rest⟩, client'⟩ held ⟨h', hsame, rfl⟩
  exact ⟨⟨h'.address, h'.evbase, h'.bufEv, h'.outputBuffer, h'.pBlock⟩, hsame, rfl⟩

theorem callbacks_kept {job : Option Nat} (made : List Callback) : ∀ {client : Client}
    {pending : Evbuffer}, client.Complete →
      (callbacks client pending made).Owns lifeLedger (Kept client job)
        (owning client.fd (client.pointers job)) := by
  induction made with
  | nil => exact fun h => ⟨h, rfl, rfl⟩
  | cons callback rest ih =>
      intro client pending h
      have hrest : ∀ {client' : Client} {pending' : Evbuffer} {held : Set Resource},
          Kept client job client' held →
            (callbacks client' pending' rest).Owns lifeLedger (Kept client job) held := by
        rintro client' pending' _ ⟨h', hsame, rfl⟩
        refine Program.Owns.mono ?_ (ih h')
        rintro client'' held ⟨h'', hsame', hheld⟩
        exact ⟨h'', hsame'.trans hsame, hheld⟩
      cases callback with
      | read arrived =>
          exact Program.Owns.bind (fun r _ hkept => hrest hkept) (bufferedOnRead_kept _ h)
      | write => exact hrest ⟨h, rfl, rfl⟩
      | error => exact Program.Owns.bind (fun _ _ hkept => hrest hkept) (closeClient_kept h)

/-! ## From `accept` to the end -/

theorem closeAndFreeClient_empty {client : Client} (h : client.address ≠ none) :
    (closeAndFreeClient client).Owns lifeLedger (fun _ held => held = ∅)
      (owning client.fd (client.pointers none)) := by
  refine Program.Owns.mono ?_ (closeAndFreeClient_owns h)
  rintro - held rfl
  rw [← owning_none]
  congr 1
  exact Function.update_eq_self ..

theorem serverJobFunction_owns {client : Client} {job : Option Nat} (h : client.Complete)
    (hjob : job ≠ none) :
    (serverJobFunction job client).Owns lifeLedger (fun _ held => held = ∅)
      (owning client.fd (client.pointers job)) := by
  refine owns_plain (fun r hr => ?_) rfl (fun _ => rfl) fun made => ?_
  · rcases List.mem_cons.mp hr with rfl | hr
    · exact ⟨h.evbase, rfl⟩
    rcases List.mem_cons.mp hr with rfl | hr
    · exact ⟨h.bufEv, rfl⟩
    · rw [List.mem_singleton.mp hr]
      exact ⟨h.address, rfl⟩
  refine Program.Owns.bind ?_ (callbacks_kept made h)
  rintro client' _ ⟨h', -, rfl⟩
  refine Program.Owns.bind ?_ (closeAndFreeClient_owns h'.address)
  rintro - _ rfl
  -- Only the job is left.
  refine owns_free (f := pure) (Function.update_self ..) hjob ?_
  change owning (-1) _ = ∅
  rw [Function.update_idem, ← owning_none]
  congr 1
  exact Function.update_eq_self ..

theorem setnonblock_owns (h : 0 ≤ fd) :
    (setnonblock fd).Owns lifeLedger (fun _ held => held = owning fd objects)
      (owning fd objects) := by
  have hneeds : ∀ r ∈ [Resource.descriptor fd], r ∈ owning fd objects := fun r hr => by
    rw [List.mem_singleton.mp hr]
    exact descriptor_mem_owning h
  refine owns_plain hneeds rfl (fun _ => rfl) fun flags => ?_
  split
  case isTrue => rfl
  case isFalse =>
      refine owns_plain hneeds rfl (fun _ => rfl) fun result => ?_
      split <;> rfl

/-- What is held where a connection has been accepted, or where it has not. -/
def Accepted : Option (Client × Option Nat) → Set Resource → Prop
  | some (client, job), held =>
      client.Complete ∧ job ≠ none ∧ held = owning client.fd (client.pointers job)
  | none, held => held = ∅

theorem refused_owns {client : Client} (h : client.address ≠ none) :
    (closeAndFreeClient client >>= fun _ => (pure none : Life (Option (Client × Option Nat)))).Owns
      lifeLedger Accepted (owning client.fd (client.pointers none)) :=
  Program.Owns.bind (fun _ _ hheld => hheld) (closeAndFreeClient_empty h)

theorem after_accept (h : 0 ≤ fd) :
    Ledger.after lifeLedger (o := Call.accept) ∅ fd = owning fd fun _ => none :=
  (Ledger.after_of_acquire lifeLedger (o := Call.accept) rfl (if_pos h)).trans (owning_accept h)

theorem after_refuse (h : fd < 0) : Ledger.after lifeLedger (o := Call.accept) ∅ fd = ∅ :=
  Ledger.after_of_none lifeLedger (o := Call.accept) rfl (if_neg (Int.not_le.mpr h))

/-- A part of the `client_t` that is asked for: without it the connection is refused. -/
theorem owns_part {ask : Life (Option Nat)} {client : Client} {next : Option Nat → Client}
    {go : Option Nat → Life (Option (Client × Option Nat))} (haddress : client.address ≠ none)
    (hask : ask.Owns lifeLedger
      (fun result held => held = owning client.fd ((next result).pointers none))
      (owning client.fd (client.pointers none)))
    (hnext : ∀ result, (next result).address = client.address ∧ (next result).fd = client.fd)
    (hgo : ∀ result, result ≠ none →
      (go result).Owns lifeLedger Accepted (owning client.fd ((next result).pointers none))) :
    (ask >>= fun result => if result = none then do
        closeAndFreeClient (next result)
        pure none
      else go result).Owns lifeLedger Accepted (owning client.fd (client.pointers none)) := by
  refine Program.Owns.bind ?_ hask
  rintro result _ rfl
  split
  case isTrue =>
      rw [← (hnext result).2]
      exact refused_owns ((hnext result).1 ▸ haddress)
  case isFalse hresult => exact hgo result hresult

/-- The buffered event is made for the descriptor and the memory that the connection holds. -/
theorem bufferevent_new_owns {client : Client} (hfd : 0 ≤ client.fd)
    (haddress : client.address ≠ none) (hbufEv : client.bufEv = none) :
    (call (.bufferevent_new client.fd client.address)).Owns lifeLedger
      (fun result held =>
        held = owning client.fd (({ client with bufEv := result } : Client).pointers none))
      (owning client.fd (client.pointers none)) := by
  refine owns_call (f := pure) (fun r hr => ?_) fun result => ?_
  · rcases List.mem_cons.mp hr with rfl | hr
    · exact descriptor_mem_owning hfd
    · rw [List.mem_singleton.mp hr]
      exact ⟨haddress, rfl⟩
  · have hafter : lifeLedger.after (owning client.fd (client.pointers none))
        (.bufferevent_new client.fd client.address) result =
          owning client.fd (Function.update (client.pointers none) .bufEv result) :=
      after_allocate .bufEv result rfl rfl hbufEv
    refine hafter.trans (congrArg _ ?_)
    funext kind
    cases kind <;> rfl

/-- What `on_accept` does once it has its `client_t`. -/
theorem onAccept_owns : onAccept.Owns lifeLedger Accepted ∅ := by
  refine owns_call (fun r hr => nomatch hr) fun clientFd => ?_
  by_cases hfd : clientFd < 0
  · rw [if_pos hfd, after_refuse hfd]
    rfl
  have hopen : 0 ≤ clientFd := Int.not_lt.mp hfd
  rw [if_neg hfd, after_accept hopen]
  refine Program.Owns.bind ?_ (setnonblock_owns hopen)
  rintro result _ rfl
  split
  case isTrue => exact owns_close hopen owning_none
  refine Program.Owns.bind ?_ (allocate_owns rfl)
  rintro address _ rfl
  split
  case isTrue haddress =>
      rw [haddress, Function.update_eq_self]
      exact owns_close hopen owning_none
  rename_i haddress
  -- From here on what is held is what the `client_t` points to.
  have hfields : ∀ (client : Client) (p : Option Nat),
      Function.update (client.pointers none) .outputBuffer p =
          ({ client with outputBuffer := p } : Client).pointers none ∧
        Function.update (client.pointers none) .evbase p =
          ({ client with evbase := p } : Client).pointers none ∧
        Function.update (client.pointers none) .pBlock p =
          ({ client with pBlock := p } : Client).pointers none := fun client p => by
    refine ⟨?_, ?_, ?_⟩ <;> (funext kind; cases kind <;> rfl)
  have hclient : Function.update (fun _ => none) Block.client address =
      Client.pointers ⟨address, clientFd, none, none, none, none, .zero⟩ none := by
    funext kind
    cases kind <;> rfl
  rw [hclient]
  refine @owns_part _ ⟨address, clientFd, none, none, none, none, .zero⟩
    (fun p => ⟨address, clientFd, none, none, p, none, .zero⟩) _ haddress ?_
    (fun _ => ⟨rfl, rfl⟩) fun outputBuffer houtputBuffer => ?_
  · exact Program.Owns.mono (fun r held hheld => hheld.trans (by rw [(hfields _ r).1]))
      (allocate_owns rfl)
  refine @owns_part _ ⟨address, clientFd, none, none, outputBuffer, none, .zero⟩
    (fun p => ⟨address, clientFd, p, none, outputBuffer, none, .zero⟩) _ haddress ?_
    (fun _ => ⟨rfl, rfl⟩) fun evbase hevbase => ?_
  · exact Program.Owns.mono (fun r held hheld => hheld.trans (by rw [(hfields _ r).2.1]))
      (allocate_owns rfl)
  refine @owns_part _ ⟨address, clientFd, evbase, none, outputBuffer, none, .zero⟩
    (fun p => ⟨address, clientFd, evbase, none, outputBuffer, p, .zero⟩) _ haddress ?_
    (fun _ => ⟨rfl, rfl⟩) fun pBlock hpBlock => ?_
  · exact Program.Owns.mono (fun r held hheld => hheld.trans (by rw [(hfields _ r).2.2]))
      (allocate_owns rfl)
  refine @owns_part _ ⟨address, clientFd, evbase, none, outputBuffer, pBlock, .zero⟩
    (fun p => ⟨address, clientFd, evbase, p, outputBuffer, pBlock, .zero⟩) _ haddress ?_
    (fun _ => ⟨rfl, rfl⟩) fun bufEv hbufEv => ?_
  · exact @bufferevent_new_owns ⟨address, clientFd, evbase, none, outputBuffer, pBlock, .zero⟩
      hopen haddress rfl
  have hcomplete : Client.Complete
      ⟨address, clientFd, evbase, bufEv, outputBuffer, pBlock, .zero⟩ :=
    ⟨haddress, hevbase, hbufEv, houtputBuffer, hpBlock⟩
  refine owns_plain (fun r hr => ?_) rfl (fun _ => rfl) fun _ => ?_
  · rcases List.mem_cons.mp hr with rfl | hr
    · exact ⟨hevbase, rfl⟩
    · rw [List.mem_singleton.mp hr]
      exact ⟨hbufEv, rfl⟩
  refine Program.Owns.bind ?_ (allocate_owns rfl)
  rintro job _ rfl
  have hjobs : Function.update
      (Client.pointers ⟨address, clientFd, evbase, bufEv, outputBuffer, pBlock, .zero⟩ none)
      .job job =
        Client.pointers ⟨address, clientFd, evbase, bufEv, outputBuffer, pBlock, .zero⟩ job := by
    funext kind
    cases kind <;> rfl
  rw [hjobs]
  split
  case isTrue hjob =>
      rw [hjob]
      exact refused_owns haddress
  case isFalse hjob =>
      refine owns_plain (fun r hr => ?_) rfl (fun _ => rfl) fun _ => ⟨hcomplete, hjob, rfl⟩
      rcases List.mem_cons.mp hr with rfl | hr
      · exact ⟨hjob, rfl⟩
      · rw [List.mem_singleton.mp hr]
        exact ⟨haddress, rfl⟩

/-- A connection gives back all it took, whatever comes of its calls. -/
theorem life_owns : life.Owns lifeLedger (fun _ held => held = ∅) ∅ := by
  refine Program.Owns.bind ?_ onAccept_owns
  rintro (- | ⟨client, job⟩) held haccepted
  · exact haccepted
  · obtain ⟨hcomplete, hjob, rfl⟩ := haccepted
    exact serverJobFunction_owns hcomplete hjob

/-! ## A kernel that numbers what it hands out -/

def Resource.number : Resource → Nat
  | .descriptor fd => fd.toNat
  | .block _ pointer => pointer.getD 0

structure Desk where
  used : List Resource
  next : Nat
  world : World
  fresh : ∀ r ∈ used, r.number < next

namespace Desk

def take (d : Desk) (r : Resource) (h : r.number = d.next) : Desk where
  used := r :: d.used
  next := d.next + 1
  world := d.world
  fresh r' hr' := by
    rcases List.mem_cons.mp hr' with rfl | hold
    · exact Nat.lt_succ_of_le (Nat.le_of_eq h)
    · exact Nat.lt_succ_of_lt (d.fresh r' hold)

def drop (d : Desk) (r : Resource) : Desk where
  used := d.used.filter (· ≠ r)
  next := d.next
  world := d.world
  fresh r' hr' := d.fresh r' (List.mem_filter.mp hr').1

def answer : (c : Call) → Desk → c.Reply × Desk
  | .accept, d => (d.next, d.take (.descriptor d.next) rfl)
  | .getFlags _, d => ((0 : Int), d)
  | .setFlags _ _, d => ((0 : Int), d)
  | .close fd, d => ((), d.drop (.descriptor fd))
  | .allocate kind, d => (some d.next, d.take (.block kind (some d.next)) rfl)
  | .bufferevent_new _ _, d => (some d.next, d.take (.block .bufEv (some d.next)) rfl)
  | .enable _ _, d => ((), d)
  | .free kind pointer, d => ((), d.drop (.block kind pointer))
  | .addJob _ _, d => ((), d)
  | .dispatch _ _ _, d => ([.error], d)
  | .service _ _ _ _ o, d => ((World.answer o d.world).1, d)

def kernel : Environment lifeInterface Desk where
  answer := answer

def start : Desk :=
  ⟨[], 0, World.empty, fun _ h => nomatch h⟩

theorem start_live : {r | r ∈ start.used} = ∅ :=
  Set.eq_empty_iff_forall_notMem.mpr fun _ hr => absurd hr List.not_mem_nil

theorem not_mem_used (d : Desk) {r : Resource} (h : r.number = d.next) : r ∉ d.used :=
  fun hr => Nat.ne_of_lt (d.fresh r hr) h

theorem live_drop (d : Desk) (r : Resource) {c : Call} {reply : c.Reply}
    (hreleased : released c = some r) (hacquired : acquired c reply = none) :
    {r' | r' ∈ (d.drop r).used} = lifeLedger.after {r' | r' ∈ d.used} c reply := by
  rw [Ledger.after_of_release lifeLedger hreleased hacquired]
  ext r'
  simp [drop]

theorem live_take (d : Desk) {r : Resource} (h : r.number = d.next) {c : Call} {reply : c.Reply}
    (hreleased : released c = none) (hacquired : acquired c reply = some r) :
    {r' | r' ∈ (d.take r h).used} = lifeLedger.after {r' | r' ∈ d.used} c reply := by
  rw [Ledger.after_of_acquire lifeLedger hreleased hacquired]
  ext r'
  simp [take]

theorem honest : Honest lifeLedger kernel fun d => {r | r ∈ d.used} where
  fresh := by
    intro c d r hr
    cases c with
    | accept | allocate | bufferevent_new =>
        cases hr
        exact d.not_mem_used rfl
    | _ => cases hr
  live_answer := by
    intro c d
    cases c with
    | accept => exact d.live_take rfl rfl rfl
    | allocate => exact d.live_take rfl rfl rfl
    | bufferevent_new => exact d.live_take rfl rfl rfl
    | close => exact d.live_drop _ rfl rfl
    | free => exact d.live_drop _ rfl rfl
    | _ => exact (Ledger.after_of_none lifeLedger rfl rfl).symm

end Desk

/-! ## Side by side -/

section SideBySide

variable {ι σ : Type} [DecidableEq ι] {E : Environment lifeInterface σ}
  {live : σ → Set Resource}

/-- Of connections that run side by side, in any order of their calls, each call is on what its
connection has got and not given back, and what no other connection has. -/
theorem connections_apart (hhonest : Honest lifeLedger E live) {s : σ} (hlive : live s = ∅)
    (schedule : List ι) {before after : List (Event ι lifeInterface)}
    {e : Event ι lifeInterface}
    (hhistory : ((Config.start (fun _ => life) s).run E schedule).history =
      before ++ e :: after) :
    ∀ r ∈ needed e.op, r ∈ Config.holdings lifeLedger e.thread before ∧
      ∀ i, i ≠ e.thread → r ∉ Config.holdings lifeLedger i before := by
  intro r hr
  obtain ⟨hholds, hunique⟩ := (Config.run_owns hhonest released_needed (fun _ => life_owns) hlive
    schedule).needs before e after hhistory r hr
  exact ⟨hholds, fun i hi hin => hi (hunique i hin)⟩

/-- Two connections whose calls alternate, up to the end of both. -/
def twoClients : List Bool :=
  (List.replicate 19 [false, true]).flatten

/-- The error callback of the first connection closes its descriptor. -/
theorem connections_apart_twoClients :
    ∃ before after : List (Event Bool lifeInterface),
      ((Config.start (fun _ => life) Desk.start).run Desk.kernel twoClients).history =
          before ++ ⟨false, Call.close 0, ()⟩ :: after ∧
        .descriptor 0 ∈ Config.holdings lifeLedger false before ∧
          ∀ i, i ≠ false → .descriptor 0 ∉ Config.holdings lifeLedger i before := by
  have hhistory : ((Config.start (fun _ => life) Desk.start).run Desk.kernel twoClients).history =
      ((Config.start (fun _ => life) Desk.start).run Desk.kernel twoClients).history.take 24 ++
        ⟨false, Call.close 0, ()⟩ ::
          ((Config.start (fun _ => life) Desk.start).run Desk.kernel twoClients).history.drop 25 :=
    rfl
  exact ⟨_, _, hhistory, connections_apart Desk.honest Desk.start_live twoClients hhistory
    (.descriptor 0) (List.mem_singleton_self _)⟩

/-- A connection that has come to its end has given back the resources it was handed: its descriptor,
`client_t`, block buffer, output buffer, event base, buffered event and job; where all have come to
their end, no resource is left.  One that faulted has not come to its end. -/
theorem connections_leave_nothing (hhonest : Honest lifeLedger E live) {s : σ}
    (hlive : live s = ∅) (schedule : List ι) :
    (∀ i, ((Config.start (fun _ => life) s).run E schedule).pool i = .ret () →
      Config.holdings lifeLedger i
        ((Config.start (fun _ => life) s).run E schedule).history = ∅) ∧
      ((∀ i, ((Config.start (fun _ => life) s).run E schedule).pool i = .ret ()) →
        live ((Config.start (fun _ => life) s).run E schedule).state = ∅) := by
  have hapart := Config.run_owns hhonest released_needed (fun _ => life_owns) hlive schedule
  have hended : ∀ i, ((Config.start (fun _ => life) s).run E schedule).pool i = .ret () →
      Config.holdings lifeLedger i
        ((Config.start (fun _ => life) s).run E schedule).history = ∅ := fun i hi => by
    have howns := hapart.owns i
    rw [hi] at howns
    exact howns
  refine ⟨hended, fun hall => Set.eq_empty_iff_forall_notMem.mpr fun r hr => ?_⟩
  obtain ⟨i, hi⟩ := (hapart.live_iff r).mp hr
  rw [hended i (hall i)] at hi
  exact hi

theorem connections_leave_nothing_twoClients :
    {r | r ∈ ((Config.start (fun _ => life) Desk.start).run Desk.kernel
      twoClients).state.used} = ∅ :=
  (connections_leave_nothing Desk.honest Desk.start_live twoClients).2
    (Bool.forall_bool.mpr ⟨rfl, rfl⟩)

end SideBySide

end Server

end RobotServer
