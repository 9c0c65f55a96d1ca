import RobotServer.Interaction.Machine
import RobotServer.Model.MysqlPool

/-!
# Connections — what becomes of the connections of the pool

`Sound` is the invariant of the pool: closed items have no connection, and no connection stands in
two items.  A call of `get_connection_from_pool` keeps it, and a connection comes back to its item
where no closed one stands before it.  `pool_conserved_iff` says in which runs every operation gives
its connection back.
-/

namespace RobotServer

namespace MysqlPool

open Interaction

/-! ## The invariant of the items -/

abbrev Items := List MySqlConnectionItem

/-- The connections of the items. -/
def conns (items : Items) : List Nat :=
  items.filterMap fun item => item.conn

structure Sound (accepted : Nat) (items : Items) : Prop where
  closed : ∀ item ∈ items, item.conn = none ↔ item.status = .close
  nodup : (conns items).Nodup
  lt_accepted : ∀ conn ∈ conns items, conn < accepted

theorem mem_conns {items : Items} {conn : Nat} :
    conn ∈ conns items ↔ ∃ item ∈ items, item.conn = some conn :=
  List.mem_filterMap

theorem sound_nil (accepted : Nat) : Sound accepted [] :=
  ⟨fun _ h => absurd h List.not_mem_nil, List.nodup_nil, fun _ h => absurd h List.not_mem_nil⟩

theorem conns_cons_some {item : MySqlConnectionItem} {conn : Nat} (h : item.conn = some conn)
    (rest : Items) : conns (item :: rest) = conn :: conns rest :=
  List.filterMap_cons_some h

theorem conns_cons_none {item : MySqlConnectionItem} (h : item.conn = none) (rest : Items) :
    conns (item :: rest) = conns rest :=
  List.filterMap_cons_none h

theorem Sound.tail {accepted : Nat} {item : MySqlConnectionItem} {rest : Items}
    (h : Sound accepted (item :: rest)) : Sound accepted rest := by
  refine ⟨fun x hx => h.closed x (List.mem_cons_of_mem _ hx), ?_, ?_⟩
  · exact (List.Sublist.filterMap _ (List.sublist_cons_self item rest)).nodup h.nodup
  · intro conn hconn
    exact h.lt_accepted conn
      ((List.Sublist.filterMap _ (List.sublist_cons_self item rest)).subset hconn)

theorem Sound.mono {accepted accepted' : Nat} {items : Items} (h : Sound accepted items)
    (hle : accepted ≤ accepted') : Sound accepted' items :=
  ⟨h.closed, h.nodup, fun conn hconn => (h.lt_accepted conn hconn).trans_le hle⟩

/-- An item in front whose connection, if it has one, stands nowhere behind it. -/
theorem Sound.cons {accepted : Nat} {item : MySqlConnectionItem} {rest : Items}
    (h : Sound accepted rest) (hclosed : item.conn = none ↔ item.status = .close)
    (hconn : ∀ conn, item.conn = some conn → conn ∉ conns rest ∧ conn < accepted) :
    Sound accepted (item :: rest) := by
  refine ⟨List.forall_mem_cons.mpr ⟨hclosed, h.closed⟩, ?_, ?_⟩
  · cases hitem : item.conn with
    | none =>
        rw [conns_cons_none hitem]
        exact h.nodup
    | some conn =>
        rw [conns_cons_some hitem]
        exact List.nodup_cons.mpr ⟨(hconn conn hitem).1, h.nodup⟩
  · intro conn hmem
    rcases mem_conns.mp hmem with ⟨x, hx, hxconn⟩
    rcases List.mem_cons.mp hx with rfl | hrest
    · exact (hconn conn hxconn).2
    · exact h.lt_accepted conn (mem_conns.mpr ⟨x, hrest, hxconn⟩)

theorem Sound.head_notMem {accepted : Nat} {item : MySqlConnectionItem} {rest : Items} {conn : Nat}
    (h : Sound accepted (item :: rest)) (hitem : item.conn = some conn) : conn ∉ conns rest := by
  have hnodup := h.nodup
  rw [conns_cons_some hitem] at hnodup
  exact (List.nodup_cons.mp hnodup).1

/-- A connection stands in one item. -/
theorem Sound.item_eq {accepted : Nat} {items : Items} (h : Sound accepted items)
    {item item' : MySqlConnectionItem} (hmem : item ∈ items) (hmem' : item' ∈ items) {conn : Nat}
    (hconn : item.conn = some conn) (hconn' : item'.conn = some conn) : item = item' := by
  induction items with
  | nil => cases hmem
  | cons first rest ih =>
      rcases List.mem_cons.mp hmem with rfl | hrest
      · rcases List.mem_cons.mp hmem' with rfl | hrest'
        · rfl
        · exact absurd (mem_conns.mpr ⟨item', hrest', hconn'⟩) (h.head_notMem hconn)
      · rcases List.mem_cons.mp hmem' with rfl | hrest'
        · exact absurd (mem_conns.mpr ⟨item, hrest, hconn⟩) (h.head_notMem hconn')
        · exact ih h.tail hrest hrest'

/-! ## Attempts -/

/-- What an attempt leaves of a closed item. -/
theorem connect_spec {item : MySqlConnectionItem} (hstatus : item.status = .close) (accepted : Nat)
    (attempt : Attempt) :
    ((connect item accepted attempt).1.conn = none ↔
        (connect item accepted attempt).1.status = .close) ∧
      accepted ≤ (connect item accepted attempt).2 ∧
        ∀ conn, (connect item accepted attempt).1.conn = some conn →
          accepted ≤ conn ∧ conn < (connect item accepted attempt).2 := by
  cases attempt with
  | initFailed =>
      refine ⟨iff_of_true rfl hstatus, Nat.le_refl _, ?_⟩
      rintro conn ⟨⟩
  | refused =>
      refine ⟨iff_of_true rfl rfl, Nat.le_refl _, ?_⟩
      rintro conn ⟨⟩
  | connected =>
      refine ⟨iff_of_false ?_ ?_, Nat.le_succ _, ?_⟩
      · rintro ⟨⟩
      · rintro ⟨⟩
      · rintro conn ⟨⟩
        exact ⟨Nat.le_refl _, Nat.lt_succ_self _⟩

/-- The items of a fresh pool. -/
theorem initLoop_sound (attempts : List Attempt) : ∀ accepted,
    Sound (initLoop attempts accepted).2 (initLoop attempts accepted).1 ∧
      accepted ≤ (initLoop attempts accepted).2 ∧
        ∀ conn ∈ conns (initLoop attempts accepted).1, accepted ≤ conn := by
  induction attempts with
  | nil => exact fun accepted => ⟨sound_nil accepted, Nat.le_refl _, fun _ h => nomatch h⟩
  | cons attempt rest ih =>
      intro accepted
      rcases @connect_spec ⟨none, .close⟩ rfl accepted attempt with ⟨hclosed, hle, hconn⟩
      rcases ih (connect ⟨none, .close⟩ accepted attempt).2 with ⟨hsound, hle', hge⟩
      refine ⟨hsound.cons hclosed ?_, hle.trans hle', ?_⟩
      · intro conn hsome
        have hbounds := hconn conn hsome
        -- The later connections have later numbers.
        exact ⟨fun hmem => absurd (hge conn hmem) (Nat.not_le_of_lt hbounds.2),
          hbounds.2.trans_le hle'⟩
      · intro conn hmem
        rcases mem_conns.mp hmem with ⟨item, hitem, hsome⟩
        rcases List.mem_cons.mp hitem with rfl | hrest
        · exact (hconn conn hsome).1
        · exact hle.trans (hge conn (mem_conns.mpr ⟨item, hrest, hsome⟩))

/-! ## Taking a connection -/

/-- What a call makes of the items: the ones that are taken stay, and the connection that is handed
out was free. -/
structure Taken (accepted : Nat) (items : Items) (conn : Option Nat) (items' : Items)
    (accepted' : Nat) : Prop where
  sound : Sound accepted' items'
  le : accepted ≤ accepted'
  conns_or : ∀ c ∈ conns items', c ∈ conns items ∨ accepted ≤ c
  keeps : ∀ item ∈ items, item.status = .on → item ∈ items'
  was_off : ∀ c, conn = some c → ⟨some c, .off⟩ ∈ items
  is_on : ∀ c, conn = some c → ⟨some c, .on⟩ ∈ items'

/-- An item in front that keeps its connection or gets a new one. -/
theorem Taken.cons {accepted accepted₁ accepted' : Nat} {item item' : MySqlConnectionItem}
    {rest rest' : Items} {conn : Option Nat} (h : Taken accepted₁ rest conn rest' accepted')
    (hsound : Sound accepted (item :: rest)) (hle : accepted ≤ accepted₁)
    (hclosed : item'.conn = none ↔ item'.status = .close)
    (hconn : ∀ c, item'.conn = some c → item.conn = some c ∨ accepted ≤ c ∧ c < accepted₁)
    (hkeep : item.status = .on → item' = item) :
    Taken accepted (item :: rest) conn (item' :: rest') accepted' := by
  refine ⟨h.sound.cons hclosed ?_, hle.trans h.le, ?_, ?_, ?_, ?_⟩
  · intro c hc
    rcases hconn c hc with hold | hnew
    · have hlt := hsound.lt_accepted c (mem_conns.mpr ⟨item, List.mem_cons_self, hold⟩)
      refine ⟨fun hmem => ?_, (hlt.trans_le hle).trans_le h.le⟩
      rcases h.conns_or c hmem with hrest | hge
      · exact hsound.head_notMem hold hrest
      · exact absurd (hlt.trans_le hle) (Nat.not_lt_of_le hge)
    · refine ⟨fun hmem => ?_, hnew.2.trans_le h.le⟩
      -- The new connection is neither an old one nor one of a later attempt.
      rcases h.conns_or c hmem with hrest | hge
      · exact absurd (hsound.tail.lt_accepted c hrest) (Nat.not_lt_of_le hnew.1)
      · exact absurd hnew.2 (Nat.not_lt_of_le hge)
  · intro c hmem
    rcases mem_conns.mp hmem with ⟨x, hx, hxconn⟩
    rcases List.mem_cons.mp hx with rfl | hrest
    · rcases hconn c hxconn with hold | hnew
      · exact .inl (mem_conns.mpr ⟨item, List.mem_cons_self, hold⟩)
      · exact .inr hnew.1
    · rcases h.conns_or c (mem_conns.mpr ⟨x, hrest, hxconn⟩) with hold | hge
      · rcases mem_conns.mp hold with ⟨y, hy, hyconn⟩
        exact .inl (mem_conns.mpr ⟨y, List.mem_cons_of_mem _ hy, hyconn⟩)
      · exact .inr (hle.trans hge)
  · intro x hx hon
    rcases List.mem_cons.mp hx with rfl | hrest
    · rw [hkeep hon]
      exact List.mem_cons_self
    · exact List.mem_cons_of_mem _ (h.keeps x hrest hon)
  · exact fun c hc => List.mem_cons_of_mem _ (h.was_off c hc)
  · exact fun c hc => List.mem_cons_of_mem _ (h.is_on c hc)

/-- The first item that is free is taken. -/
theorem taken_head {accepted c : Nat} {rest : Items} (h : Sound accepted (⟨some c, .off⟩ :: rest)) :
    Taken accepted (⟨some c, .off⟩ :: rest) (some c) (⟨some c, .on⟩ :: rest) accepted := by
  have hlt := h.lt_accepted c (mem_conns.mpr ⟨_, List.mem_cons_self, rfl⟩)
  have hclosed : (some c = none ↔ ConnectionType.on = .close) :=
    iff_of_false (fun h => nomatch h) (fun h => nomatch h)
  refine ⟨h.tail.cons hclosed ?_, Nat.le_refl _, fun _ hmem => .inl hmem, ?_, ?_, ?_⟩
  · rintro _ ⟨⟩
    exact ⟨h.head_notMem rfl, hlt⟩
  · intro x hx hon
    rcases List.mem_cons.mp hx with rfl | hrest
    · cases hon
    · exact List.mem_cons_of_mem _ hrest
  · rintro _ ⟨⟩
    exact List.mem_cons_self
  · rintro _ ⟨⟩
    exact List.mem_cons_self

theorem getLoop_taken (attempts : Nat → Attempt) (items : Items) : ∀ i accepted,
    Sound accepted items →
      Taken accepted items (getLoop attempts i accepted items).1
        (getLoop attempts i accepted items).2.1 (getLoop attempts i accepted items).2.2 := by
  induction items with
  | nil =>
      intro i accepted hsound
      refine ⟨hsound, Nat.le_refl _, fun _ h => .inl h, fun _ h _ => h, ?_, ?_⟩
      · rintro _ ⟨⟩
      · rintro _ ⟨⟩
  | cons item rest ih =>
      intro i accepted hsound
      have hclosed := hsound.closed item List.mem_cons_self
      rcases item with ⟨conn, status⟩
      cases status with
      | off =>
          cases conn with
          -- A slot that is off has a connection.
          | none => exact absurd (hclosed.mp rfl) (by decide)
          | some c => exact taken_head hsound
      | close =>
          -- The slot may come to have a connection; the search goes on behind it all the same.
          rcases @connect_spec ⟨conn, .close⟩ rfl accepted (attempts i) with
            ⟨hclosed', hle, hconn⟩
          exact (ih (i + 1) _ (hsound.tail.mono hle)).cons hsound hle hclosed'
            (fun c hc => .inr (hconn c hc)) (fun h => nomatch h)
      | on =>
          exact (ih (i + 1) accepted hsound.tail).cons hsound (Nat.le_refl _) hclosed
            (fun c hc => .inl hc) (fun _ => rfl)

/-! ## Giving a connection back -/

/-- The items in front of the connection. -/
def below (conn : Nat) (items : Items) : Items :=
  items.takeWhile fun item => item.conn ≠ some conn

/-- A connection is found at its item unless a null handle is followed before. -/
theorem returnLoop_eq {threadId : Nat → Nat} (hinj : Function.Injective threadId) (conn : Nat)
    (item : MySqlConnectionItem) (hitem : item.conn = some conn) (after : Items) :
    ∀ before : Items, (∀ x ∈ before, x.conn ≠ some conn) →
      returnLoop threadId conn (before ++ item :: after) =
        if ∀ x ∈ before, x.conn ≠ none then
          some (some (before ++ { item with status := .off } :: after))
        else none := by
  intro before
  induction before with
  | nil =>
      intro _
      rw [List.nil_append, returnLoop, hitem, Option.bind_eq_bind, Option.bind_some,
        if_neg (not_not.mpr rfl), if_pos fun x hx => nomatch hx]
      rfl
  | cons first before ih =>
      intro hne
      have hfirst := hne first List.mem_cons_self
      rw [List.cons_append, returnLoop]
      cases hconn : first.conn with
      | none =>
          -- The connection of a slot without one is read, and the loop has no result.
          rw [if_neg fun h => h first List.mem_cons_self hconn]
          rfl
      | some other =>
          -- Two connections have two threads, so the loop passes this one.
          have hother : threadId conn ≠ threadId other := by
            intro heq
            rw [hconn, hinj heq] at hfirst
            exact hfirst rfl
          rw [Option.bind_eq_bind, Option.bind_some, if_pos hother,
            ih fun x hx => hne x (List.mem_cons_of_mem _ hx)]
          simp only [List.forall_mem_cons, hconn]
          split
          · next hbefore =>
              rw [if_pos ⟨Option.some_ne_none other, hbefore⟩]
              rfl
          · next hbefore =>
              rw [if_neg fun h => hbefore h.2]
              rfl

/-- An item that is taken, between the ones in front of it and the others. -/
theorem Sound.split {accepted conn : Nat} {items : Items} (h : Sound accepted items)
    (hmem : ⟨some conn, .on⟩ ∈ items) :
    ∃ after, items = below conn items ++ ⟨some conn, .on⟩ :: after ∧
      ∀ x ∈ below conn items, x.conn ≠ some conn := by
  rcases List.eq_append_cons_of_mem hmem with ⟨before, after, hsplit, hbefore⟩
  have hne : ∀ x ∈ before, x.conn ≠ some conn := by
    intro x hx heq
    have hx' : x ∈ items := by
      rw [hsplit]
      exact List.mem_append_left _ hx
    rw [h.item_eq hx' hmem heq rfl] at hx
    exact hbefore hx
  have hbelow : below conn items = before := by
    rw [below, hsplit, List.takeWhile_append_of_pos fun x hx => decide_eq_true (hne x hx),
      List.takeWhile_cons_of_neg (by simp), List.append_nil]
  rw [hbelow]
  exact ⟨after, hsplit, hne⟩

theorem conns_append (before after : Items) :
    conns (before ++ after) = conns before ++ conns after :=
  List.filterMap_append

/-- The status of an item with a connection may change between the two that are not closed. -/
theorem Sound.free {accepted conn : Nat} {before after : Items}
    (h : Sound accepted (before ++ ⟨some conn, .on⟩ :: after)) :
    Sound accepted (before ++ ⟨some conn, .off⟩ :: after) := by
  have hconns : conns (before ++ ⟨some conn, .off⟩ :: after) =
      conns (before ++ ⟨some conn, .on⟩ :: after) := by
    rw [conns_append, conns_append]
    rfl
  refine ⟨?_, ?_, ?_⟩
  · intro item hitem
    rcases List.mem_append.mp hitem with hbefore | hrest
    · exact h.closed item (List.mem_append_left _ hbefore)
    · rcases List.mem_cons.mp hrest with rfl | hafter
      · exact iff_of_false (fun h => nomatch h) (fun h => nomatch h)
      · exact h.closed item (List.mem_append_right _ (List.mem_cons_of_mem _ hafter))
  · rw [hconns]
    exact h.nodup
  · rw [hconns]
    exact h.lt_accepted

/-! ## Exits -/

/-- The operation is a loader, and its query fails or all its writes succeed. -/
def SqlOperation.GivesBack (operation : SqlOperation) (answers : Answers) : Prop :=
  match operation with
  | .initUserInfoList => answers.res = true ∨
      ∃ rows, answers.resPtr = some rows ∧ ∀ n < rows.length, answers.written n = true
  | .initUserAndDeviceRelationshipList => answers.res = true ∨
      ∃ rows, answers.resPtr = some rows ∧ ∀ n < 2 * rows.length, answers.written n = true
  | _ => False

theorem userInfoRows_iff (written : Nat → Bool) (rows : List (List CText.Text)) : ∀ n,
    userInfoRows written n rows = true ↔ ∀ k < rows.length, written (n + k) = true := by
  induction rows with
  | nil => exact fun n => iff_of_true rfl fun k hk => absurd hk (Nat.not_lt_zero k)
  | cons row rows ih =>
      intro n
      have hsplit : (∀ k < (row :: rows).length, written (n + k) = true) ↔
          written n = true ∧ ∀ k < rows.length, written (n + 1 + k) = true := by
        rw [List.length_cons, Nat.forall_lt_succ_left]
        simp only [Nat.add_zero, Nat.add_assoc, Nat.add_comm 1]
      rw [userInfoRows, hsplit, ← ih (n + 1)]
      cases written n with
      | false => exact iff_of_false Bool.false_ne_true fun h => Bool.false_ne_true h.1
      | true => exact (and_iff_right rfl).symm

theorem relationshipRows_iff (written : Nat → Bool) (rows : List (List CText.Text)) : ∀ n,
    relationshipRows written n rows = true ↔ ∀ k < 2 * rows.length, written (n + k) = true := by
  induction rows with
  | nil => exact fun n => iff_of_true rfl fun k hk => absurd hk (Nat.not_lt_zero k)
  | cons row rows ih =>
      intro n
      have hsplit : (∀ k < 2 * (row :: rows).length, written (n + k) = true) ↔
          written n = true ∧ written (n + 1) = true ∧
            ∀ k < 2 * rows.length, written (n + 2 + k) = true := by
        rw [List.length_cons, Nat.mul_add_one, Nat.forall_lt_succ_left, Nat.forall_lt_succ_left]
        simp only [Nat.add_zero, Nat.zero_add, Nat.add_assoc, Nat.add_comm 2]
      rw [relationshipRows, hsplit, ← ih (n + 2)]
      cases written n with
      | false => exact iff_of_false Bool.false_ne_true fun h => Bool.false_ne_true h.1
      | true =>
          rw [and_iff_right rfl]
          cases written (n + 1) with
          | false => exact iff_of_false Bool.false_ne_true fun h => Bool.false_ne_true h.1
          | true => exact (and_iff_right rfl).symm

theorem loaderExit_iff (loop : List (List CText.Text) → Bool) (answers : Answers) :
    (loaderExit loop answers).returnsConn = true ↔
      answers.res = true ∨ ∃ rows, answers.resPtr = some rows ∧ loop rows = true := by
  unfold loaderExit
  cases answers.res with
  | true => exact iff_of_true rfl (.inl rfl)
  | false =>
      rw [if_neg Bool.false_ne_true, or_iff_right Bool.false_ne_true]
      cases answers.resPtr with
      | none => exact iff_of_false Bool.false_ne_true fun ⟨_, h, _⟩ => nomatch h
      | some rows => simp

theorem insertExit_returnsConn (answers : Answers) : (insertExit answers).returnsConn = false := by
  unfold insertExit
  split
  · rfl
  · rfl

theorem selectUserId_returnsConn (answers : Answers) :
    (selectUserId answers).returnsConn = false := by
  unfold selectUserId
  split
  · split
    · rfl
    · rfl
  · rfl

theorem updatePassword_returnsConn (answers : Answers) :
    (updatePassword answers).returnsConn = false := by
  unfold updatePassword
  split
  · rfl
  · rfl

theorem selectLocationNewItem_returnsConn (answers : Answers) :
    (selectLocationNewItem answers).returnsConn = false := by
  unfold selectLocationNewItem
  split
  · split
    · rfl
    · rfl
    · split
      · rfl
      · rfl
  · rfl

/-- No other exit returns its connection. -/
theorem returnsConn_iff (operation : SqlOperation) (answers : Answers) :
    (operation.exit answers).returnsConn = true ↔ operation.GivesBack answers := by
  have hnever : ∀ {exit : Exit}, exit.returnsConn = false → (exit.returnsConn = true ↔ False) := by
    intro exit h
    rw [h]
    exact iff_of_false Bool.false_ne_true not_false
  cases operation with
  | insertDeviceGps => exact hnever (insertExit_returnsConn answers)
  | insertUser => exact hnever (insertExit_returnsConn answers)
  | selectUserId => exact hnever (selectUserId_returnsConn answers)
  | updatePassword => exact hnever (updatePassword_returnsConn answers)
  | selectLocationNewItem => exact hnever (selectLocationNewItem_returnsConn answers)
  | initUserInfoList =>
      refine (loaderExit_iff _ answers).trans ?_
      simp only [userInfoRows_iff, Nat.zero_add, SqlOperation.GivesBack]
  | initUserAndDeviceRelationshipList =>
      refine (loaderExit_iff _ answers).trans ?_
      simp only [relationshipRows_iff, Nat.zero_add, SqlOperation.GivesBack]

/-! ## The system -/

/-- No connection is held by two operations. -/
def Exclusive (s : System) : Prop :=
  ∀ id id' conn, s.phase id = .holding conn → s.phase id' = .holding conn → id = id'

structure Inv (s : System) : Prop where
  unlocked : s.pool.poolLock = false
  sound : Sound s.accepted s.pool.connQueue
  held : ∀ id conn, s.phase id = .holding conn → ⟨some conn, .on⟩ ∈ s.pool.connQueue
  exclusive : Exclusive s

/-- The turn comes to an end, the lock is free behind it, every connection has one operation, and an
operation that ends leaves its connection off. -/
def Conserves (s : System) (turn : Turn) (after : Option System) : Prop :=
  ∃ s', after = some s' ∧ Exclusive s' ∧ s'.pool.poolLock = false ∧
    ∀ conn, s.phase turn.id = .holding conn → ⟨some conn, .off⟩ ∈ s'.pool.connQueue

/-- An operation that ends gives its connection back, and no item in front of its own is closed. -/
def EndsWell (operation : Nat → SqlOperation) (s : System) (turn : Turn) : Prop :=
  ∀ conn, s.phase turn.id = .holding conn →
    (operation turn.id).GivesBack turn.answers ∧
      ∀ item ∈ below conn s.pool.connQueue, item.conn ≠ none

theorem start_inv (attempts : Vector Attempt connectionPoolSize) : Inv (System.start attempts) := by
  refine ⟨rfl, (initLoop_sound attempts.toList 0).1, ?_, ?_⟩
  · rintro id conn ⟨⟩
  · rintro id id' conn ⟨⟩

section Steps

variable {threadId : Nat → Nat} {operation : Nat → SqlOperation} {s : System} {turn : Turn}

/-- A call of `get_connection_from_pool` returns and keeps the invariant. -/
theorem step_waiting (hinv : Inv s) (hphase : s.phase turn.id = .waiting) :
    ∃ s', step threadId operation s turn = some s' ∧ Inv s' := by
  have htaken := getLoop_taken turn.attempts s.pool.connQueue 0 s.accepted hinv.sound
  have hget : getConnectionFromPool turn.attempts s.pool s.accepted =
      some ((getLoop turn.attempts 0 s.accepted s.pool.connQueue).1,
        ⟨(getLoop turn.attempts 0 s.accepted s.pool.connQueue).2.1, false⟩,
        (getLoop turn.attempts 0 s.accepted s.pool.connQueue).2.2) := by
    rw [getConnectionFromPool, hinv.unlocked]
    rfl
  have hheld : ∀ id conn, s.phase id = .holding conn →
      ⟨some conn, .on⟩ ∈ (getLoop turn.attempts 0 s.accepted s.pool.connQueue).2.1 :=
    fun id conn h => htaken.keeps _ (hinv.held id conn h) rfl
  unfold step
  rw [hphase]
  dsimp only
  rw [hget, Option.bind_eq_bind, Option.bind_some]
  dsimp only
  cases hconn : (getLoop turn.attempts 0 s.accepted s.pool.connQueue).1 with
  | none => exact ⟨_, rfl, rfl, htaken.sound, hheld, hinv.exclusive⟩
  | some conn =>
      -- The connection was free, so no other operation holds it.
      have hfree : ∀ id, s.phase id ≠ .holding conn := by
        intro id h
        have heq := hinv.sound.item_eq (hinv.held id conn h) (htaken.was_off conn hconn) rfl rfl
        cases heq
      refine ⟨_, rfl, rfl, htaken.sound, ?_, ?_⟩
      · intro id c h
        dsimp only at h
        rw [Function.update_apply] at h
        split at h
        · cases h
          exact htaken.is_on conn hconn
        · exact hheld id c h
      · intro id id' c h h'
        dsimp only at h h'
        rw [Function.update_apply] at h h'
        split at h
        · next hid =>
            split at h'
            · next hid' => exact hid.trans hid'.symm
            · cases h
              exact absurd h' (hfree id')
        · split at h'
          · cases h'
            exact absurd h (hfree id)
          · exact hinv.exclusive id id' c h h'

theorem step_of_holding {conn : Nat} (hphase : s.phase turn.id = .holding conn) :
    step threadId operation s turn =
      if ((operation turn.id).exit turn.answers).returnsConn then do
        let (_, pool) ← returnConnectionToPool threadId conn s.pool
        some { s with pool := pool, phase := Function.update s.phase turn.id .done }
      else some { s with phase := Function.update s.phase turn.id .done } := by
  unfold step
  rw [hphase]

/-- A connection that is held comes back unless a closed item stands in front of it. -/
theorem returnConnectionToPool_eq (hinj : Function.Injective threadId) (hinv : Inv s) {conn : Nat}
    (hmem : ⟨some conn, .on⟩ ∈ s.pool.connQueue) :
    ∃ after, s.pool.connQueue = below conn s.pool.connQueue ++ ⟨some conn, .on⟩ :: after ∧
      returnConnectionToPool threadId conn s.pool =
        if ∀ item ∈ below conn s.pool.connQueue, item.conn ≠ none then
          some (.ok, ⟨below conn s.pool.connQueue ++ ⟨some conn, .off⟩ :: after, false⟩)
        else none := by
  rcases hinv.sound.split hmem with ⟨after, hsplit, hne⟩
  have hloop := returnLoop_eq hinj conn ⟨some conn, .on⟩ rfl after _ hne
  rw [← hsplit] at hloop
  refine ⟨after, hsplit, ?_⟩
  rw [returnConnectionToPool, hinv.unlocked, if_neg Bool.false_ne_true, hloop]
  split
  · rfl
  · rfl

/-- The phases behind an ending. -/
theorem holding_of_update_done {id id' conn : Nat}
    (h : Function.update s.phase id .done id' = .holding conn) :
    id' ≠ id ∧ s.phase id' = .holding conn := by
  rw [Function.update_apply] at h
  split at h
  · cases h
  · next hne => exact ⟨hne, h⟩

theorem step_holding_of_endsWell (hinj : Function.Injective threadId) (hinv : Inv s) {conn : Nat}
    (hphase : s.phase turn.id = .holding conn) (hends : EndsWell operation s turn) :
    ∃ s', step threadId operation s turn = some s' ∧ Inv s' ∧
      ⟨some conn, .off⟩ ∈ s'.pool.connQueue := by
  have hmem := hinv.held _ _ hphase
  rcases hends conn hphase with ⟨hgives, hbelow⟩
  rcases returnConnectionToPool_eq hinj hinv hmem with ⟨after, hsplit, hreturn⟩
  rw [if_pos hbelow] at hreturn
  rw [step_of_holding hphase, if_pos ((returnsConn_iff _ _).mpr hgives), hreturn]
  refine ⟨_, rfl, ⟨rfl, ?_, ?_, ?_⟩, List.mem_append_right _ List.mem_cons_self⟩
  · have hsound := hinv.sound
    rw [hsplit] at hsound
    exact hsound.free
  · intro id c h
    rcases holding_of_update_done h with ⟨hne, hid⟩
    have hother := hinv.held id c hid
    rw [hsplit] at hother
    -- The connection of another operation is another one, so its item is not touched.
    rcases List.mem_append.mp hother with hbefore | hrest
    · exact List.mem_append_left _ hbefore
    · rcases List.mem_cons.mp hrest with heq | hafter
      · cases heq
        exact absurd (hinv.exclusive id turn.id conn hid hphase) hne
      · exact List.mem_append_right _ (List.mem_cons_of_mem _ hafter)
  · intro id id' c h h'
    exact hinv.exclusive id id' c (holding_of_update_done h).2 (holding_of_update_done h').2

/-- An operation that ends otherwise leaves its connection on, or the call does not return. -/
theorem endsWell_of_conserves (hinj : Function.Injective threadId) (hinv : Inv s)
    (h : Conserves s turn (step threadId operation s turn)) : EndsWell operation s turn := by
  intro conn hphase
  have hmem := hinv.held _ _ hphase
  rcases h with ⟨s', hstep, -, -, hoff⟩
  have hoff := hoff conn hphase
  rw [step_of_holding hphase] at hstep
  split at hstep
  · next hgives =>
      refine ⟨(returnsConn_iff _ _).mp hgives, ?_⟩
      rcases returnConnectionToPool_eq hinj hinv hmem with ⟨after, -, hreturn⟩
      by_contra hbelow
      -- A slot without a connection in front of its own leaves the return without a result.
      rw [hreturn, if_neg hbelow] at hstep
      cases hstep
  · cases hstep
    -- Nothing is returned, so the item is on, and the connection has no other one.
    have heq := hinv.sound.item_eq hmem hoff rfl rfl
    cases heq

/-- A turn that ends well goes on, keeps the invariant and gives its connection back. -/
theorem step_of_endsWell (hinj : Function.Injective threadId) (hinv : Inv s)
    (hends : EndsWell operation s turn) :
    ∃ s', step threadId operation s turn = some s' ∧ Inv s' ∧
      ∀ conn, s.phase turn.id = .holding conn → ⟨some conn, .off⟩ ∈ s'.pool.connQueue := by
  cases hphase : s.phase turn.id with
  | waiting =>
      rcases step_waiting hinv hphase with ⟨s', hstep, hinv'⟩
      refine ⟨s', hstep, hinv', ?_⟩
      rintro conn ⟨⟩
  | holding conn =>
      rcases step_holding_of_endsWell hinj hinv hphase hends with ⟨s', hstep, hinv', hoff⟩
      refine ⟨s', hstep, hinv', ?_⟩
      rintro _ ⟨⟩
      exact hoff
  | done =>
      refine ⟨s, ?_, hinv, ?_⟩
      · unfold step
        rw [hphase]
      · rintro conn ⟨⟩

theorem conserves_iff_endsWell (hinj : Function.Injective threadId) (hinv : Inv s) :
    Conserves s turn (step threadId operation s turn) ↔ EndsWell operation s turn := by
  refine ⟨endsWell_of_conserves hinj hinv, fun hends => ?_⟩
  rcases step_of_endsWell hinj hinv hends with ⟨s', hstep, hinv', hoff⟩
  exact ⟨s', hstep, hinv'.exclusive, hinv'.unlocked, hoff⟩

theorem inv_of_step (hinj : Function.Injective threadId) (hinv : Inv s)
    (hends : EndsWell operation s turn) {s' : System}
    (hstep : step threadId operation s turn = some s') : Inv s' := by
  rcases step_of_endsWell hinj hinv hends with ⟨t, ht, hinv', -⟩
  rw [hstep] at ht
  cases ht
  exact hinv'

end Steps

/-! ## Runs -/

section Runs

variable {threadId : Nat → Nat}

/-- **The pool neither drains nor stays locked exactly when every operation ends well**, for every
mix of open and closed items and every order of the operations. -/
theorem pool_conserved_iff (hinj : Function.Injective threadId) (operation : Nat → SqlOperation)
    (attempts : Vector Attempt connectionPoolSize) (turns : List Turn) :
    Machine.EachStep (step threadId operation) Conserves (System.start attempts) turns ↔
      Machine.EachStep (step threadId operation) (fun s turn _ => EndsWell operation s turn)
        (System.start attempts) turns :=
  Machine.eachStep_iff (fun _ _ hinv => conserves_iff_endsWell hinj hinv)
    (fun _ _ _ hinv hends hstep => inv_of_step hinj hinv hends hstep) turns _ (start_inv attempts)

/-- The database accepts every connection, the statement succeeds, and its result is empty. -/
def successfulTurn : Turn where
  id := 0
  attempts := fun _ => .connected
  answers := ⟨false, some [], fun _ => true⟩

def openPool : Vector Attempt connectionPoolSize :=
  Vector.replicate connectionPoolSize .connected

/-- A loader takes a connection, loads, and gives it back. -/
theorem pool_conserved_iff_loader :
    Machine.EachStep (step id fun _ => .initUserInfoList) Conserves (System.start openPool)
      [successfulTurn, successfulTurn] := by
  refine (pool_conserved_iff Function.injective_id _ openPool _).mpr ⟨?_, ?_⟩
  · rintro conn ⟨⟩
  · intro s hs
    have hget : step id (fun _ => .initUserInfoList) (System.start openPool) successfulTurn =
        some ⟨⟨⟨some 0, .on⟩ :: (System.start openPool).pool.connQueue.tail, false⟩, 50,
          Function.update (fun _ => .waiting) 0 (.holding 0)⟩ := rfl
    obtain rfl := Option.some.inj (hget.symm.trans hs)
    refine ⟨?_, fun _ _ => trivial⟩
    rintro conn ⟨⟩
    refine ⟨.inr ⟨[], rfl, fun n hn => absurd hn (Nat.not_lt_zero n)⟩, ?_⟩
    -- The connection is the first of the list.
    exact fun item hitem => (nomatch hitem)

/-- `insertUser` takes the first connection and ends without giving it back. -/
theorem insertUser_keeps_connection :
    ¬ Machine.EachStep (step id fun _ => .insertUser) Conserves (System.start openPool)
      [successfulTurn, successfulTurn] := by
  intro h
  have hget : step id (fun _ => .insertUser) (System.start openPool) successfulTurn =
      some ⟨⟨⟨some 0, .on⟩ :: (System.start openPool).pool.connQueue.tail, false⟩, 50,
        Function.update (fun _ => .waiting) 0 (.holding 0)⟩ := rfl
  have hwaiting : EndsWell (fun _ => .insertUser) (System.start openPool) successfulTurn := by
    rintro conn ⟨⟩
  have hinv := inv_of_step Function.injective_id (start_inv openPool) hwaiting hget
  exact (endsWell_of_conserves Function.injective_id hinv (h.2 _ hget).1 0 rfl).1

end Runs

end MysqlPool

end RobotServer
