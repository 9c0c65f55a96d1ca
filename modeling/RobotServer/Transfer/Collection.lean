import RobotServer.Model.Hex
import RobotServer.Model.World
import RobotServer.Transfer.Receiver

/-!
# Collection — what a receiver stores when datagrams are lost, repeated or mixed

`Collected` is what one would have to remember to say what the receiver saves: the packets of a
transfer that it accepted since its block was last cleared.  `saves_eq_collected` proves that the
blocks saved are exactly those `Collected` predicts.  Datagrams of several transfers never mix
while each transfer arrives once and in order (`saves_interleaved`).
-/

namespace RobotServer

open CText Memory Interaction

namespace Transfer

variable (t : Transfer)

/-- Storing a packet brings its part of the file and leaves the rest alone. -/
theorem peek_store {i x : Nat} (hx : x < t.content.length) (block : BlockData) :
    (t.store i block).peek x = if x / 992 = i then t.content.getD x 0 else block.peek x := by
  have hlength := packetData_length t.content i
  have hblock : x < 32768 := hx.trans_le t.content_length_le
  by_cases hin : x / 992 = i
  · rw [if_pos hin]
    rcases Nat.exists_eq_add_of_le (show i * 992 ≤ x by omega) with ⟨j, rfl⟩
    have hj : j < (packetData t.content i).length := by omega
    rw [store, Cells.peek_place_add _ _ _ hblock hj]
    exact packetData_getD hj
  · rw [if_neg hin]
    rcases Nat.lt_or_ge x (i * 992) with hlow | hhigh
    · exact Cells.peek_place_of_lt hblock hlow
    · have hnext : i + 1 ≤ x / 992 :=
        Nat.lt_of_le_of_ne ((Nat.le_div_iff_mul_le (by decide)).mpr hhigh) (Ne.symm hin)
      have hbehind : i * 992 + (packetData t.content i).length ≤ x := by
        calc
          i * 992 + (packetData t.content i).length ≤ i * 992 + 992 :=
            Nat.add_le_add_left (packetData_length_le t.content i) _
          _ = (i + 1) * 992 := (Nat.succ_mul i 992).symm
          _ ≤ x := (Nat.le_div_iff_mul_le (by decide)).mp hnext
      exact Cells.peek_place_of_le hblock hbehind

/-- The block with the last packet stored is the file where its other packets are there. -/
theorem slice_store_last {i : Nat} (hi : i + 1 = t.total) {block : BlockData}
    (h : ∀ x, x < i * 992 → block.peek x = t.content.getD x 0) :
    (t.store i block).slice 0 t.content.length = t.content := by
  refine Cells.slice_eq_of_peek _ _ _ ?_
  intro x hx
  rw [Nat.zero_add, t.peek_store hx]
  by_cases hlast : x / 992 = i
  · rw [if_pos hlast]
    rfl
  · rw [if_neg hlast]
    have htotal := packetTotal_eq t.content.length
    have hi' : i + 1 = packetTotal t.content.length := hi
    exact h x (by omega)

end Transfer

/-! ## One transfer -/

/-- What a receiver has of a transfer: whether it remembers the device, the packets accepted since
its block was last cleared, and whether it ever was. -/
structure Collected where
  known : Bool
  held : List Nat
  cleared : Bool
  deriving DecidableEq

namespace Collected

variable (t : Transfer) (initial : BlockData)

/-- Before the first datagram of the run. -/
def start (state : SynerState) : Collected :=
  ⟨decide (state.u8DevId = t.packet), [], false⟩

/-- A block of the length of the file: the file where packets are held, elsewhere what the buffer
held before, which is zero after a clear. -/
def block (c : Collected) : List Byte :=
  (List.range t.content.length).map fun x =>
    if x / 992 ∈ c.held then t.content.getD x 0 else if c.cleared then 0 else initial.peek x

/-- Datagram `i` arrives. -/
def arrive (i : Nat) (c : Collected) : Collected :=
  if i ≠ 0 ∧ c.known = false then c
  else if i + 1 = t.total then ⟨true, [], true⟩
  else ⟨true, i :: c.held, c.cleared⟩

/-- All datagrams of a list arrive. -/
def after (c : Collected) (indices : List Nat) : Collected :=
  indices.foldl (fun c i => c.arrive t i) c

/-- The blocks that are saved while datagrams arrive: one for each accepted last datagram. -/
def saves : Collected → List Nat → List (List Byte)
  | _, [] => []
  | c, i :: rest =>
      if (i = 0 ∨ c.known = true) ∧ i + 1 = t.total then
        block t initial { c with held := i :: c.held } :: saves (c.arrive t i) rest
      else saves (c.arrive t i) rest

/-- `c` describes the state of the receiver. -/
structure Describes (c : Collected) (state : SynerState) : Prop where
  known_iff : c.known = true ↔ state.u8DevId = t.packet
  peek_eq : ∀ x, x < t.content.length → state.u8SynerBlockData.peek x =
    if x / 992 ∈ c.held then t.content.getD x 0 else if c.cleared then 0 else initial.peek x

variable {t initial}

theorem start_describes (state : SynerState) :
    Describes t state.u8SynerBlockData (start t state) state where
  known_iff := by simp [start]
  peek_eq := by
    intro x _
    simp [start]

theorem length_block (c : Collected) : (block t initial c).length = t.content.length := by
  simp [block]

/-- A block whose packets are all held is the file. -/
theorem block_eq_content {c : Collected} (h : ∀ i, i < t.total → i ∈ c.held) :
    block t initial c = t.content := by
  refine List.ext_getElem (length_block c) ?_
  intro x h1 h2
  have hindex : x / 992 < t.total := lt_packetTotal.mpr (by omega)
  simp [block, h _ hindex, h2]

theorem block_getD {c : Collected} {x : Nat} (hx : x < t.content.length) :
    (block t initial c).getD x 0 =
      if x / 992 ∈ c.held then t.content.getD x 0 else if c.cleared then 0 else initial.peek x := by
  rw [List.getD_eq_getElem _ _ (by rw [length_block]; exact hx)]
  simp [block]

/-- Where packets are held a block is the file. -/
theorem block_getD_held {c : Collected} {x : Nat} (hx : x < t.content.length)
    (hheld : x / 992 ∈ c.held) : (block t initial c).getD x 0 = t.content.getD x 0 := by
  rw [block_getD hx, if_pos hheld]

/-- What is stored is what `block` says. -/
theorem Describes.slice_store {c : Collected} {state : SynerState}
    (h : Describes t initial c state) (i : Nat) :
    (t.store i state.u8SynerBlockData).slice 0 t.content.length =
      block t initial { c with held := i :: c.held } := by
  have hslice := Cells.slice_eq_of_peek (t.store i state.u8SynerBlockData) 0
    (block t initial { c with held := i :: c.held })
  rw [length_block] at hslice
  apply hslice
  intro x hx
  refine Eq.trans ?_ (block_getD hx).symm
  rw [Nat.zero_add, t.peek_store hx, h.peek_eq x hx]
  by_cases hi : x / 992 = i
  · rw [if_pos hi, if_pos (by simp [hi])]
  · simp [hi]

/-- `Collected` follows the receiver. -/
theorem Describes.arrive {c : Collected} {state : SynerState} (h : Describes t initial c state)
    (i : Nat) : Describes t initial (c.arrive t i) (t.arrive i state).2 := by
  by_cases haccepts : t.accepts i state
  · have hknown : ¬ (i ≠ 0 ∧ c.known = false) := by
      rintro ⟨hzero, hunknown⟩
      rcases haccepts with hi | hid
      · exact hzero hi
      · exact absurd (h.known_iff.mpr hid) (by simp [hunknown])
    rw [Collected.arrive, if_neg hknown, Transfer.arrive, if_neg (not_not.mpr haccepts)]
    by_cases hlast : i + 1 = t.total
    -- The last packet clears the block behind what it saved.
    · rw [if_pos hlast, if_pos hlast]
      refine ⟨by simp, ?_⟩
      intro x hx
      have hzero : (Cells.fill 0 : BlockData).peek x = 0 :=
        Cells.peek_fill (hx.trans_le t.content_length_le)
      simpa using hzero
    · rw [if_neg hlast, if_neg hlast]
      refine ⟨by simp, ?_⟩
      intro x hx
      have hpeek := t.peek_store hx (i := i) state.u8SynerBlockData
      rw [h.peek_eq x hx] at hpeek
      by_cases hi : x / 992 = i
      · simpa [hi] using hpeek
      · simpa [hi] using hpeek
  · have hzero : i ≠ 0 := fun hi => haccepts (.inl hi)
    have hunknown : c.known = false := by
      cases hknown : c.known with
      | false => rfl
      | true => exact absurd (.inr (h.known_iff.mp hknown)) haccepts
    rw [Collected.arrive, if_pos ⟨hzero, hunknown⟩, Transfer.arrive, if_pos haccepts]
    exact h

/-- The blocks that the receiver saves are the ones predicted. -/
theorem saves_eq_collected (indices : List Nat) :
    ∀ {c : Collected} {state : SynerState}, Describes t initial c state →
      RobotServer.saves state (indices.map fun i => (t, i)) =
        (saves t initial c indices).map fun block => (t.path, block) := by
  induction indices with
  | nil =>
      intro c state _
      rfl
  | cons i rest ih =>
      intro c state h
      have hrest := ih (h.arrive i)
      -- The receiver knows the transfer exactly when it accepts its later packets.
      have hcond : ((i = 0 ∨ c.known = true) ∧ i + 1 = t.total) ↔
          (t.accepts i state ∧ i + 1 = t.total) := by
        rw [h.known_iff]
        rfl
      rw [List.map_cons, RobotServer.saves, saves, hrest]
      by_cases hsaved : t.accepts i state ∧ i + 1 = t.total
      · have hfirst : (t.arrive i state).1 =
            some ((t.store i state.u8SynerBlockData).slice 0 t.content.length) := by
          rw [Transfer.arrive, if_neg (not_not.mpr hsaved.1), if_pos hsaved.2]
        rw [if_pos (hcond.mpr hsaved), hfirst, h.slice_store]
        rfl
      · have hfirst : (t.arrive i state).1 = none := by
          unfold Transfer.arrive
          split
          · rfl
          · next haccepts =>
              rw [if_neg (fun hlast => hsaved ⟨not_not.mp haccepts, hlast⟩)]
        rw [if_neg (fun hc => hsaved (hcond.mp hc)), hfirst]
        rfl

/-- A saved block comes from a last datagram and from what arrived before it. -/
theorem exists_of_mem_saves {indices : List Nat} :
    ∀ {c : Collected} {saved : List Byte}, saved ∈ saves t initial c indices →
      ∃ before last later, indices = before ++ last :: later ∧ last + 1 = t.total ∧
        saved = block t initial
          { after t c before with held := last :: (after t c before).held } := by
  induction indices with
  | nil =>
      intro c saved h
      cases h
  | cons i rest ih =>
      intro c saved h
      have hrest : saved ∈ saves t initial (c.arrive t i) rest →
          ∃ before last later, i :: rest = before ++ last :: later ∧ last + 1 = t.total ∧
            saved = block t initial
              { after t c before with held := last :: (after t c before).held } := by
        intro hmem
        rcases ih hmem with ⟨before, last, later, heq, hlast, hsaved⟩
        exact ⟨i :: before, last, later, congrArg (i :: ·) heq, hlast, hsaved⟩
      rw [saves] at h
      split at h
      · next hcond =>
          rcases List.mem_cons.mp h with hfirst | hmem
          · exact ⟨[], i, rest, rfl, hcond.2, hfirst⟩
          · exact hrest hmem
      · exact hrest h

/-- Without the last datagram nothing is saved. -/
theorem saves_eq_nil (indices : List Nat) :
    (∀ i ∈ indices, i + 1 ≠ t.total) → ∀ c : Collected, saves t initial c indices = [] := by
  induction indices with
  | nil =>
      intro _ c
      rfl
  | cons i rest ih =>
      intro h c
      rw [saves, if_neg (fun hlast => h i (by simp) hlast.2)]
      exact ih (fun j hj => h j (by simp [hj])) _

/-- Known datagrams before the last one are collected. -/
theorem saves_middle (middle : List Nat) :
    (∀ i ∈ middle, i + 1 ≠ t.total) → ∀ (held : List Nat) (cleared : Bool) (rest : List Nat),
      saves t initial ⟨true, held, cleared⟩ (middle ++ rest) =
        saves t initial ⟨true, middle.reverse ++ held, cleared⟩ rest := by
  induction middle with
  | nil =>
      intro _ held cleared rest
      rfl
  | cons i middle ih =>
      intro h held cleared rest
      have hlast : i + 1 ≠ t.total := h i (by simp)
      have harrive : Collected.arrive t i ⟨true, held, cleared⟩ = ⟨true, i :: held, cleared⟩ := by
        simp [Collected.arrive, hlast]
      rw [List.cons_append, saves, if_neg (fun hc => hlast hc.2), harrive,
        ih (fun j hj => h j (by simp [hj]))]
      simp

end Collected

section OneTransfer

variable {σ : Type} (E : Environment serverInterface σ) (s : σ)

theorem synerRun_datagrams (t : Transfer) (state : SynerState) {indices : List Nat}
    (hindices : ∀ i ∈ indices, i < t.total) :
    ((synerRun state (indices.map t.datagram)).run E s).trace =
      (Collected.saves t state.u8SynerBlockData (Collected.start t state) indices).map
        fun block => .writeDat t.path block := by
  have hevents : ∀ e ∈ indices.map fun i => (t, i), e.2 < e.1.total := by
    intro e he
    rcases List.mem_map.mp he with ⟨i, hi, rfl⟩
    exact hindices i hi
  have hrun := (synerRun_run E (indices.map fun i => (t, i)) hevents state s).2
  have hdescribes : Collected.Describes t state.u8SynerBlockData (Collected.start t state) state :=
    Collected.start_describes state
  rw [Collected.saves_eq_collected indices hdescribes, List.map_map, List.map_map] at hrun
  exact hrun

/-- **What is stored of one transfer, whatever is lost, repeated or reordered**: a block is saved
only by a last datagram; it has the length of the file and agrees with it on every packet accepted
since the last clear, so that it is the file when all of them were. -/
theorem synerRun_transfer (t : Transfer) (state : SynerState) (indices : List Nat)
    (hindices : ∀ i ∈ indices, i < t.total) :
    let trace := ((synerRun state (indices.map t.datagram)).run E s).trace
    (∀ o ∈ trace, ∃ before last later block, o = .writeDat t.path block ∧
      indices = before ++ last :: later ∧ last + 1 = t.total ∧
      block.length = t.content.length ∧
      let held := last :: (Collected.after t (Collected.start t state) before).held
      (∀ x, x < t.content.length → x / 992 ∈ held → block.getD x 0 = t.content.getD x 0) ∧
        ((∀ i, i < t.total → i ∈ held) → block = t.content)) ∧
      (t.total - 1 ∉ indices → trace = []) := by
  intro trace
  have htrace : trace = _ := synerRun_datagrams E s t state hindices
  refine ⟨?_, ?_⟩
  · intro o ho
    rw [htrace] at ho
    rcases List.mem_map.mp ho with ⟨block, hblock, rfl⟩
    rcases Collected.exists_of_mem_saves hblock with ⟨before, last, later, heq, hlast, rfl⟩
    exact ⟨before, last, later, _, rfl, heq, hlast, Collected.length_block _,
      fun x hx hheld => Collected.block_getD_held hx hheld,
      fun hall => Collected.block_eq_content hall⟩
  · intro hlast
    rw [htrace, Collected.saves_eq_nil indices, List.map_nil]
    intro i hi heq
    exact hlast (by rwa [← heq, Nat.add_sub_cancel])

/-- Two packets, the first of them delivered twice: only the whole file is written, and nothing as
long as the second one is missing. -/
theorem synerRun_transfer_two_packets :
    let t : Transfer := .ofTwo (Vector.replicate 8 0x11) 7
    let state : SynerState := ⟨Cells.fill 0xFF, Vector.replicate 8 0⟩
    (∀ o ∈ ((synerRun state ([0, 0, 1].map t.datagram)).run world World.empty).trace,
        o = .writeDat t.path t.content) ∧
      ((synerRun state ([0, 0].map t.datagram)).run world World.empty).trace = [] := by
  intro t state
  have htotal : t.total = 2 := Transfer.total_ofTwo _ _
  have hwhole : ∀ i ∈ [0, 0, 1], i < t.total := by
    rw [htotal]
    decide
  have hpart : ∀ i ∈ [0, 0], i < t.total := by
    rw [htotal]
    decide
  refine ⟨?_, (synerRun_transfer world World.empty t state [0, 0] hpart).2 ?_⟩
  · intro o ho
    obtain ⟨before, last, later, block, rfl, hsplit, hlast, -, -, hblock⟩ :=
      (synerRun_transfer world World.empty t state [0, 0, 1] hwhole).1 o ho
    obtain rfl : last = 1 := by omega
    -- The only last datagram is the third one.
    have hbefore : before = [0, 0] := by
      rcases before with _ | ⟨x, _ | ⟨y, _ | ⟨z, before⟩⟩⟩
      all_goals simp at hsplit
      obtain ⟨rfl, rfl, -⟩ := hsplit
      rfl
    subst hbefore
    rw [hblock ?_]
    intro i hi
    have hheld : (Collected.after t (Collected.start t state) [0, 0]).held = [0, 0] := by
      simp [Collected.after, Collected.arrive, htotal, Collected.start]
    rw [hheld]
    rcases (by omega : i = 0 ∨ i = 1) with rfl | rfl
    · decide
    · decide
  · rw [htotal]
    decide

/-- Three packets of which the second is lost: a file is written all the same, and it is not the
one that was sent. -/
theorem synerRun_transfer_hole :
    let t : Transfer := ⟨List.replicate 1985 1, Vector.replicate 8 0x11, multicastTypeAgps,
      by rw [List.length_replicate]; decide⟩
    let state : SynerState := ⟨Cells.fill 0, Vector.replicate 8 0⟩
    let received := [0, 2].map t.datagram
    t.datagram 1 ∈ t.datagrams ∧ t.datagram 1 ∉ received ∧
      ∃ block, ((synerRun state received).run world World.empty).trace = [.writeDat t.path block] ∧
        block ≠ t.content := by
  intro t state received
  have hlength : t.content.length = 1985 := List.length_replicate
  have htotal : t.total = 3 := by
    rw [Transfer.total, packetTotal_eq, hlength]
  have hindices : ∀ i ∈ [0, 2], i < t.total := by
    rw [htotal]
    decide
  have hone : 1 < t.total := by
    rw [htotal]
    decide
  refine ⟨List.mem_map.mpr ⟨1, List.mem_range.mpr hone, rfl⟩, ?_, ?_⟩
  · intro hmem
    rcases List.mem_map.mp hmem with ⟨i, hi, heq⟩
    have hi1 := t.datagram_injective (hindices i hi) hone heq
    rw [hi1] at hi
    exact absurd hi (by decide)
  · have hsaves : Collected.saves t state.u8SynerBlockData (Collected.start t state) [0, 2] =
        [Collected.block t state.u8SynerBlockData ⟨true, [2, 0], false⟩] := by
      simp only [Collected.saves, Collected.arrive, Collected.start, htotal]
      rfl
    have hlt : 992 < t.content.length := by
      rw [hlength]
      decide
    refine ⟨Collected.block t state.u8SynerBlockData ⟨true, [2, 0], false⟩, ?_, ?_⟩
    · rw [synerRun_datagrams world World.empty t state hindices, hsaves]
      rfl
    · intro heq
      -- The first byte of the packet that was lost is still the zero of the empty block.
      have hbyte := congrArg (fun block => block.getD 992 0) heq
      have hzero : state.u8SynerBlockData.peek 992 = 0 := Cells.peek_fill (by decide)
      have hbyte' : t.content.getD 992 0 = 1 := by
        rw [List.getD_eq_getElem _ _ hlt]
        exact List.getElem_replicate _
      simp only [Collected.block_getD hlt, hbyte'] at hbyte
      simp [hzero] at hbyte

end OneTransfer

/-! ## Several transfers -/

section Interleaved

variable {ι : Type} [DecidableEq ι] (transfer : ι → Transfer)

/-- The datagrams of transfer `k` among the events, by their index. -/
def arrived (events : List (ι × Nat)) (k : ι) : List Nat :=
  (events.filter fun e => e.1 = k).map Prod.snd

/-- While its device is remembered, the block holds what has arrived of a transfer. -/
def Holds (count : ι → Nat) (state : SynerState) : Prop :=
  ∀ k, state.u8DevId = (transfer k).packet → 0 < count k → count k < (transfer k).total →
    ∀ x, x < count k * 992 → state.u8SynerBlockData.peek x = (transfer k).content.getD x 0

variable {transfer}

omit [DecidableEq ι] in
/-- A datagram that is accepted finds the part of the file before it. -/
theorem Holds.peek_eq {count : ι → Nat} {state : SynerState} (h : Holds transfer count state)
    {k : ι} (hk : count k < (transfer k).total) (haccepts : (transfer k).accepts (count k) state) :
    ∀ x, x < count k * 992 →
      state.u8SynerBlockData.peek x = (transfer k).content.getD x 0 := by
  intro x hx
  have hpos : 0 < count k := by
    refine Nat.pos_of_ne_zero ?_
    intro hzero
    rw [hzero, Nat.zero_mul] at hx
    exact absurd hx (Nat.not_lt_zero _)
  rcases haccepts with hzero | hknown
  · exact absurd hzero hpos.ne'
  · exact h k hknown hpos hk x hx

/-- The next datagram of a transfer keeps `Holds`. -/
theorem Holds.arrive (hdistinct : Function.Injective fun k => (transfer k).packet)
    {count : ι → Nat} {state : SynerState} (h : Holds transfer count state) {k : ι}
    (hk : count k < (transfer k).total) :
    Holds transfer (Function.update count k (count k + 1))
      ((transfer k).arrive (count k) state).2 := by
  intro j hj hpos hlt x hx
  unfold Transfer.arrive at hj ⊢
  by_cases haccepts : (transfer k).accepts (count k) state
  · rw [if_neg (not_not.mpr haccepts)] at hj ⊢
    -- The device of the accepted datagram is the one remembered.
    have hjk : j = k := by
      split at hj
      · exact (hdistinct hj).symm
      · exact (hdistinct hj).symm
    subst hjk
    rw [Function.update_self] at hlt hx
    rw [if_neg hlt.ne]
    have hcontent : x < (transfer j).content.length := by
      have hbound := lt_packetTotal.mp hlt
      omega
    dsimp only
    rw [(transfer j).peek_store hcontent]
    by_cases hin : x / 992 = count j
    · rw [if_pos hin]
    · rw [if_neg hin]
      have hdiv : x / 992 < count j + 1 := (Nat.div_lt_iff_lt_mul (by decide)).mpr hx
      have hbefore : x / 992 < count j := Nat.lt_of_le_of_ne (Nat.lt_succ_iff.mp hdiv) hin
      exact h.peek_eq hk haccepts x ((Nat.div_lt_iff_lt_mul (by decide)).mp hbefore)
  · rw [if_pos haccepts] at hj ⊢
    have hjk : j ≠ k := by
      rintro rfl
      exact haccepts (.inr hj)
    rw [Function.update_of_ne hjk] at hpos hlt hx
    exact h j hj hpos hlt x hx

omit [DecidableEq ι] in
/-- What the next datagram of a transfer saves is its file. -/
theorem Holds.saved_eq {count : ι → Nat} {state : SynerState} (h : Holds transfer count state)
    {k : ι} (hk : count k < (transfer k).total) {block : List Byte}
    (hsaved : ((transfer k).arrive (count k) state).1 = some block) :
    block = (transfer k).content := by
  unfold Transfer.arrive at hsaved
  split at hsaved
  · cases hsaved
  · next haccepts =>
      split at hsaved
      · next hlast =>
          cases hsaved
          exact (transfer k).slice_store_last hlast (h.peek_eq hk (not_not.mp haccepts))
      · cases hsaved

/-- Whatever the interleaving, only files that were sent are saved. -/
theorem saves_interleaved (hdistinct : Function.Injective fun k => (transfer k).packet)
    (events : List (ι × Nat)) :
    ∀ (count : ι → Nat) (state : SynerState), Holds transfer count state →
      (∀ k, arrived events k = List.range' (count k) ((transfer k).total - count k)) →
      ∀ w ∈ saves state (events.map fun e => (transfer e.1, e.2)),
        ∃ k, w = ((transfer k).path, (transfer k).content) := by
  induction events with
  | nil =>
      intro count state _ _ w hw
      cases hw
  | cons e rest ih =>
      intro count state hholds horder w hw
      rcases e with ⟨k, i⟩
      -- The datagram is the next one of its transfer.
      have hk := horder k
      have hcons : arrived ((k, i) :: rest) k = i :: arrived rest k := by simp [arrived]
      rw [hcons] at hk
      have hlt : count k < (transfer k).total := by
        by_contra hge
        rw [Nat.sub_eq_zero_of_le (Nat.not_lt.mp hge)] at hk
        cases hk
      have hsucc : (transfer k).total - count k = (transfer k).total - (count k + 1) + 1 := by
        omega
      rw [hsucc, List.range'_succ] at hk
      injection hk with hi hrest
      subst hi
      have horder' : ∀ j, arrived rest j =
          List.range' (Function.update count k (count k + 1) j)
            ((transfer j).total - Function.update count k (count k + 1) j) := by
        intro j
        by_cases hjk : j = k
        · subst hjk
          rw [Function.update_self]
          exact hrest
        · have hother : arrived ((k, count k) :: rest) j = arrived rest j := by
            simp [arrived, Ne.symm hjk]
          rw [Function.update_of_ne hjk, ← hother]
          exact horder j
      rcases List.mem_append.mp hw with hfirst | hlater
      · rcases Option.map_eq_some_iff.mp (Option.mem_toList.mp hfirst) with ⟨block, hsaved, rfl⟩
        exact ⟨k, by rw [hholds.saved_eq hlt hsaved]⟩
      · exact ih _ _ (hholds.arrive hdistinct hlt) horder' w hlater

end Interleaved

/-- A path tells the device. -/
theorem synerPathName_injective {flag flag' : Byte} {u8DeviceId u8DeviceId' : Text}
    (h : synerPathName flag u8DeviceId = synerPathName flag' u8DeviceId') :
    u8DeviceId = u8DeviceId' := by
  have hpath : ∀ (f : Byte) (id : Text), synerPathName f id = genBlockFilePathName id ∨
      synerPathName f id = genAgpsFilePathName id := by
    intro f id
    unfold synerPathName
    split
    · exact .inl rfl
    · split
      · exact .inr rfl
      · exact .inl rfl
  rcases hpath flag u8DeviceId with h1 | h1
  · rcases hpath flag' u8DeviceId' with h2 | h2
    · rw [h1, h2] at h
      exact genBlockFilePathName_injective h
    · rw [h1, h2] at h
      exact absurd h (genBlockFilePathName_ne_genAgpsFilePathName _ _)
  · rcases hpath flag' u8DeviceId' with h2 | h2
    · rw [h1, h2] at h
      exact absurd h.symm (genBlockFilePathName_ne_genAgpsFilePathName _ _)
    · rw [h1, h2] at h
      exact genAgpsFilePathName_injective h

section Interleaved

variable {σ : Type} (E : Environment serverInterface σ) (s : σ) {ι : Type} [DecidableEq ι]

/-- **Interleaved transfers never mix**: each transfer arrives once and in order, and what is
written for its device is its file. -/
theorem synerRun_interleaved (transfer : ι → Transfer)
    (hdistinct : Function.Injective fun k => (transfer k).packet) (events : List (ι × Nat))
    (horder : ∀ k, arrived events k = List.range (transfer k).total) (state : SynerState) :
    let trace := ((synerRun state (events.map fun e => (transfer e.1).datagram e.2)).run E s).trace
    (∀ o ∈ trace, ∃ k, o = .writeDat (transfer k).path (transfer k).content) ∧
      ∀ k block, .writeDat (transfer k).path block ∈ trace → block = (transfer k).content := by
  intro trace
  have hevents : ∀ e ∈ events.map fun e => (transfer e.1, e.2), e.2 < e.1.total := by
    intro e he
    rcases List.mem_map.mp he with ⟨⟨k, i⟩, hki, rfl⟩
    have hmem : i ∈ arrived events k :=
      List.mem_map.mpr ⟨(k, i), List.mem_filter.mpr ⟨hki, by simp⟩, rfl⟩
    rw [horder k] at hmem
    exact List.mem_range.mp hmem
  have hrun := (synerRun_run E _ hevents state s).2
  rw [List.map_map] at hrun
  have htrace : trace = _ := hrun
  have hstart : Holds transfer (fun _ => 0) state := by
    intro k _ hpos
    exact absurd hpos (Nat.lt_irrefl 0)
  have horder' : ∀ k, arrived events k = List.range' 0 ((transfer k).total - 0) := by
    intro k
    rw [horder k, List.range_eq_range', Nat.sub_zero]
  have hsaved : ∀ o ∈ trace, ∃ k, o = .writeDat (transfer k).path (transfer k).content := by
    intro o ho
    rw [htrace] at ho
    rcases List.mem_map.mp ho with ⟨w, hw, rfl⟩
    rcases saves_interleaved hdistinct events (fun _ => 0) state hstart horder' w hw with ⟨k, rfl⟩
    exact ⟨k, rfl⟩
  refine ⟨hsaved, ?_⟩
  intro k block hblock
  rcases hsaved _ hblock with ⟨j, heq⟩
  injection heq with hpath hcontent
  -- The path names the device, and the device names the transfer.
  have hjk : k = j := hdistinct (deviceId_text_injective (synerPathName_injective hpath))
  rw [hcontent, hjk]

/-- Two transfers of two packets, packet by packet. -/
theorem synerRun_interleaved_two :
    let transfer : Fin 2 → Transfer := fun k =>
      .ofTwo (Vector.replicate 8 (UInt8.ofNat k)) (UInt8.ofNat k)
    let state : SynerState := ⟨Cells.fill 0xFF, Vector.replicate 8 0⟩
    let events : List (Fin 2 × Nat) := [(1, 0), (0, 0), (0, 1), (1, 1)]
    let trace := ((synerRun state (events.map fun e => (transfer e.1).datagram e.2)).run world
      World.empty).trace
    (∀ o ∈ trace, ∃ k, o = .writeDat (transfer k).path (transfer k).content) ∧
      ∀ k block, .writeDat (transfer k).path block ∈ trace →
        block = twoPackets (UInt8.ofNat k.val) := by
  intro transfer state events
  refine synerRun_interleaved world World.empty transfer (by decide) events ?_ state
  intro k
  rw [show (transfer k).total = 2 from Transfer.total_ofTwo _ _]
  revert k
  decide

end Interleaved

end RobotServer
