import RobotServer.Model.Syner
import RobotServer.Transfer.Packets

/-!
# Datagrams — what `ApolloSynerAction` sends

A `Transfer` is a file on its way to the peers.  Its datagrams are the packets of the file with
the flag in byte 20; `apolloSynerAction_eq` proves that these are what the sender cuts out of its
buffer, in order.
-/

namespace RobotServer

open CText Memory Interaction

/-! ## Transfers -/

/-- A multicast transfer; a longer file does not fit the buffer of the sender. -/
structure Transfer where
  content : List Byte
  packet : DeviceId
  flag : Byte
  length_le : content.length ≤ 31744

namespace Transfer

variable (t : Transfer)

def total : Nat :=
  packetTotal t.content.length

def datagram (i : Nat) : List Byte :=
  (packetAt t.content t.packet i).set 20 t.flag

def datagrams : List (List Byte) :=
  (List.range t.total).map t.datagram

/-- The path a receiver stores the file under. -/
def path : Text :=
  synerPathName t.flag (hextostring t.packet.toList)

theorem total_le : t.total ≤ 32 := by
  have h := t.length_le
  rw [total, packetTotal_eq]
  omega

theorem datagram_length (i : Nat) :
    (t.datagram i).length = (packetAt t.content t.packet i).length :=
  List.length_set

theorem datagram_length_le (i : Nat) : (t.datagram i).length ≤ 1024 :=
  (t.datagram_length i).trans_le (packetAt_length_le _ _ _)

theorem datagram_length_of_lt {i : Nat} (h : i + 1 < t.total) : (t.datagram i).length = 1024 :=
  (t.datagram_length i).trans (packetAt_length_of_lt h)

theorem lt_datagram_length (i : Nat) : 20 < (t.datagram i).length := by
  rw [datagram_length, packetAt_length]
  omega

theorem datagram_getD_of_ne {i x : Nat} (h : x ≠ 20) :
    (t.datagram i).getD x 0 = (packetAt t.content t.packet i).getD x 0 := by
  rw [datagram, List.getD_eq_getElem?_getD, List.getElem?_set_ne h.symm,
    List.getD_eq_getElem?_getD]

theorem datagram_getD_flag (i : Nat) : (t.datagram i).getD 20 0 = t.flag := by
  have hlt : 20 < (packetAt t.content t.packet i).length := by
    rw [packetAt_length]
    omega
  rw [datagram, List.getD_eq_getElem?_getD, List.getElem?_set_self hlt]
  rfl

/-- A datagram tells its index. -/
theorem datagram_injective {i j : Nat} (hi : i < t.total) (hj : j < t.total)
    (h : t.datagram i = t.datagram j) : i = j := by
  have hle := t.total_le
  have hindex : ∀ k, (t.datagram k).getD 13 0 = UInt8.ofNat k := by
    intro k
    rcases packetHeader_getD t.packet (packetTotal t.content.length) k
      (packetData t.content k).length with ⟨-, h13, -⟩
    rw [t.datagram_getD_of_ne (by decide), packetAt_getD_header (by decide), h13]
  have hbyte : UInt8.ofNat i = UInt8.ofNat j := by
    rw [← hindex i, h, hindex j]
  have hnat := congrArg UInt8.toNat hbyte
  rw [UInt8.toNat_ofNat', UInt8.toNat_ofNat'] at hnat
  omega

end Transfer

/-- A file of two packets; the second one holds a byte that the first one does not. -/
def twoPackets (b : Byte) : List Byte :=
  List.replicate 992 b ++ [b + 1]

theorem length_twoPackets (b : Byte) : (twoPackets b).length = 993 := by
  rw [twoPackets, List.length_append, List.length_replicate]
  rfl

/-- Its transfer as AGPS data. -/
def Transfer.ofTwo (packet : DeviceId) (b : Byte) : Transfer where
  content := twoPackets b
  packet := packet
  flag := multicastTypeAgps
  length_le := (length_twoPackets b).le.trans (by decide)

theorem Transfer.total_ofTwo (packet : DeviceId) (b : Byte) : (ofTwo packet b).total = 2 :=
  (packetTotal_eq _).trans (congrArg (fun n => (n + 991) / 992) (length_twoPackets b))

/-! ## The flag -/

/-- The loop of `takeDataPacketFlag` changes byte 20 of every packet. -/
theorem flagPackets_eq_some (data : BlockData) (flag : Byte) (k : Nat) :
    k ≤ 32 → ∃ data', flagPackets data flag k = some data' ∧ ∀ x, x < 32768 →
      data'.peek x = if x % 1024 = 20 ∧ x / 1024 < k then flag else data.peek x := by
  induction k with
  | zero =>
      intro _
      refine ⟨data, rfl, ?_⟩
      intro x _
      rw [if_neg (fun h => Nat.not_lt_zero _ h.2)]
  | succ k ih =>
      intro hk
      rcases ih (by omega) with ⟨data', hdata', hpeek⟩
      have hset : data'.set? ((k * lenBlockPacket + 20 : Nat) : Int) flag =
          some (data'.place (k * 1024 + 20) [flag]) :=
        Cells.set?_of_lt (show k * 1024 + 20 < 32768 by omega)
      refine ⟨data'.place (k * 1024 + 20) [flag], ?_, ?_⟩
      · rw [flagPackets, hdata', Option.bind_eq_bind, Option.bind_some, hset]
      · intro x hx
        rw [Cells.peek_place hx, hpeek x hx]
        simp only [List.length_singleton]
        by_cases hbyte : x = k * 1024 + 20
        · rw [if_pos (by omega), if_pos (by omega), hbyte, Nat.sub_self]
          rfl
        · rw [if_neg (by omega)]
          -- Elsewhere nothing changes, and no other byte 20 comes in.
          by_cases hold : x % 1024 = 20 ∧ x / 1024 < k
          · rw [if_pos hold, if_pos (by omega)]
          · rw [if_neg hold, if_neg (by omega)]

namespace Transfer

variable (t : Transfer)

theorem datagrams_flatten_length :
    t.datagrams.flatten.length = (packetBytes t.content t.packet).length := by
  have hmap : List.length ∘ t.datagram = List.length ∘ packetAt t.content t.packet :=
    funext t.datagram_length
  rw [packetBytes_eq_flatten, List.length_flatten, List.length_flatten, datagrams, packetsOf,
    List.map_map, List.map_map, hmap]
  rfl

theorem packetBytes_length_le : (packetBytes t.content t.packet).length ≤ 32768 := by
  have hle : packetTotal t.content.length ≤ 32 := t.total_le
  have hsize := t.length_le
  rw [packetBytes_length]
  omega

/-- The flagged buffer of the sender holds the datagrams one after another. -/
theorem slice_flagged {data' : BlockData}
    (hpeek : ∀ x, x < 32768 → data'.peek x =
      if x % 1024 = 20 ∧ x / 1024 < ((packetBytes t.content t.packet).length + 1023) / 1024 then
        t.flag
      else ((Cells.fill 0 : BlockData).place 0 (packetBytes t.content t.packet)).peek x) :
    data'.slice 0 (packetBytes t.content t.packet).length = t.datagrams.flatten := by
  have hlength := t.datagrams_flatten_length
  have hle := t.packetBytes_length_le
  have hslice := Cells.slice_eq_of_peek data' 0 t.datagrams.flatten
  rw [hlength] at hslice
  apply hslice
  intro x hx
  have hplace := Cells.peek_place_add (Cells.fill 0 : BlockData) 0
    (packetBytes t.content t.packet) (show 0 + x < 32768 by omega) hx
  have hpackets : (packetBytes t.content t.packet).getD x 0 =
      (packetAt t.content t.packet (x / 1024)).getD (x % 1024) 0 := by
    rw [packetBytes_eq_flatten] at hx ⊢
    exact flatten_getD _ (fun i hi => packetAt_length_of_lt hi) (packetAt_length_le _ _) x hx
  have hdatagrams : t.datagrams.flatten.getD x 0 = (t.datagram (x / 1024)).getD (x % 1024) 0 :=
    flatten_getD _ (fun i hi => t.datagram_length_of_lt hi) t.datagram_length_le x
      (hx.trans_eq hlength.symm)
  rw [Nat.zero_add] at hplace ⊢
  refine Eq.trans ?_ hdatagrams.symm
  rw [hpeek x (by omega)]
  -- Byte 20 of a packet is the flag, and every other byte is the packet's own.
  by_cases hflag : x % 1024 = 20
  · rw [if_pos ⟨hflag, by omega⟩, hflag, t.datagram_getD_flag]
  · rw [if_neg (fun h => hflag h.1), t.datagram_getD_of_ne hflag, ← hpackets]
    exact hplace

theorem slices_datagrams : slices t.datagrams.flatten = t.datagrams := by
  refine slices_flatten _ (fun i hi => t.datagram_length_of_lt hi) t.datagram_length_le ?_
  intro i
  have hlt := t.lt_datagram_length i
  omega

end Transfer

/-! ## The sender -/

/-- The datagrams among the operations of a run. -/
def sentDatagrams (trace : List Op) : List (List Byte) :=
  trace.filterMap fun o =>
    match o with
    | .sendto datagram => some datagram
    | _ => none

/-- `ApolloSynerAction` behind `read_dat`. -/
def sendContent (content : List Byte) (devId : DeviceId) (u8flag : Byte) : Action Unit := do
  let (sendBuf, totalLength) ← Program.ofOption (takeDataPacket content (Cells.fill 0) devId)
  let sendBuf ← Program.ofOption (takeDataPacketFlag sendBuf totalLength u8flag)
  (slices (sendBuf.slice 0 totalLength)).forM fun datagram => perform (.sendto datagram)

/-- The sender reads one file and sends it. -/
theorem apolloSynerAction_eq (arg : MulticastSynerPacket) :
    apolloSynerAction arg =
      .call (.readDat (genAgpsFilePathName arg.u8DeviceId)) fun reply =>
        match reply with
        | none => .fault
        | some content =>
            sendContent (content.take lenBlockBuffer) (synerDevId arg.u8DeviceId) arg.u8flag := by
  have hread : apolloSynerAction arg =
      readDat (genAgpsFilePathName arg.u8DeviceId) >>= fun content =>
        sendContent content (synerDevId arg.u8DeviceId) arg.u8flag := rfl
  rw [hread, readDat]
  refine congrArg (Program.call _) (funext ?_)
  intro reply
  cases reply with
  | none => rfl
  | some content => rfl

/-- A transfer is sent as its datagrams. -/
theorem sendContent_transfer (t : Transfer) :
    sendContent t.content t.packet t.flag =
      t.datagrams.forM fun datagram => perform (.sendto datagram) := by
  have hle := t.packetBytes_length_le
  have htake : takeDataPacket t.content (Cells.fill 0) t.packet =
      some ((Cells.fill 0 : BlockData).place 0 (packetBytes t.content t.packet),
        (packetBytes t.content t.packet).length) := if_pos hle
  rcases flagPackets_eq_some ((Cells.fill 0 : BlockData).place 0 (packetBytes t.content t.packet))
    t.flag (((packetBytes t.content t.packet).length + 1023) / 1024) (by omega) with
      ⟨data', hflag, hpeek⟩
  have hflag' : takeDataPacketFlag
      ((Cells.fill 0 : BlockData).place 0 (packetBytes t.content t.packet))
      (packetBytes t.content t.packet).length t.flag = some data' := hflag
  rw [sendContent, htake]
  simp only [Program.ofOption_some, Program.ret_bind]
  rw [hflag']
  simp only [Program.ofOption_some, Program.ret_bind]
  rw [t.slice_flagged hpeek, t.slices_datagrams]

/-- A file that does not fit the buffer of the sender with its headers is not sent. -/
theorem sendContent_too_long {content : List Byte} (h : 31744 < content.length)
    (devId : DeviceId) (u8flag : Byte) : sendContent content devId u8flag = .fault := by
  have htotal := packetTotal_eq content.length
  have hlength := packetBytes_length content devId
  have hlong : ¬ (packetBytes content devId).length ≤ 32768 := by omega
  have htake : takeDataPacket content (Cells.fill 0) devId = none := if_neg hlong
  rw [sendContent, htake]
  rfl

section Run

variable {σ : Type} (E : Environment serverInterface σ)

theorem forM_sendto_run (datagrams : List (List Byte)) :
    ∀ s : σ, ∃ s', (datagrams.forM fun datagram => perform (.sendto datagram)).run E s =
      ⟨datagrams.map .sendto, some (), s'⟩ := by
  induction datagrams with
  | nil =>
      intro s
      exact ⟨s, rfl⟩
  | cons datagram rest ih =>
      intro s
      rcases ih (E.answer (.sendto datagram) s).2 with ⟨s', hrest⟩
      refine ⟨s', ?_⟩
      have hcons : ((datagram :: rest).forM fun datagram => perform (.sendto datagram)) =
          .call (.sendto datagram) fun _ => rest.forM fun datagram => perform (.sendto datagram) :=
        rfl
      rw [hcons, Program.run_call, hrest]
      rfl

theorem sentDatagrams_sendto (datagrams : List (List Byte)) :
    sentDatagrams (datagrams.map .sendto) = datagrams := by
  induction datagrams with
  | nil => rfl
  | cons datagram rest ih => exact congrArg (datagram :: ·) ih

/-- The datagrams sent when the file of the device is the one of a transfer. -/
theorem apolloSynerAction_sent {s : σ} {arg : MulticastSynerPacket} {t : Transfer}
    (hfile : (E.answer (.readDat (genAgpsFilePathName arg.u8DeviceId)) s).1 =
      (some t.content : Option (List Byte)))
    (hpacket : t.packet = synerDevId arg.u8DeviceId) (hflag : t.flag = arg.u8flag) :
    sentDatagrams ((apolloSynerAction arg).run E s).trace = t.datagrams := by
  have htake : t.content.take lenBlockBuffer = t.content :=
    List.take_of_length_le (t.length_le.trans (by decide))
  rw [apolloSynerAction_eq, Program.run_call, hfile]
  dsimp only
  rw [htake, ← hpacket, ← hflag, sendContent_transfer]
  rcases forM_sendto_run E t.datagrams
    (E.answer (.readDat (genAgpsFilePathName arg.u8DeviceId)) s).2 with ⟨s', hrun⟩
  rw [hrun]
  exact sentDatagrams_sendto t.datagrams

/-- Whatever the file of the device, what is sent are the datagrams of a transfer, or nothing. -/
theorem apolloSynerAction_sent_cases (s : σ) (arg : MulticastSynerPacket) :
    sentDatagrams ((apolloSynerAction arg).run E s).trace = [] ∨
      ∃ t : Transfer, t.packet = synerDevId arg.u8DeviceId ∧ t.flag = arg.u8flag ∧
        sentDatagrams ((apolloSynerAction arg).run E s).trace = t.datagrams := by
  rw [apolloSynerAction_eq, Program.run_call]
  generalize E.answer (.readDat (genAgpsFilePathName arg.u8DeviceId)) s = reply
  rcases reply with ⟨content, s'⟩
  cases (content : Option (List Byte)) with
  | none => exact .inl rfl
  | some content =>
      dsimp only
      rcases Nat.lt_or_ge 31744 (content.take lenBlockBuffer).length with hlong | hfits
      · rw [sendContent_too_long hlong]
        exact .inl rfl
      · right
        refine ⟨⟨content.take lenBlockBuffer, synerDevId arg.u8DeviceId, arg.u8flag, hfits⟩, rfl,
          rfl, ?_⟩
        have hsend := sendContent_transfer
          ⟨content.take lenBlockBuffer, synerDevId arg.u8DeviceId, arg.u8flag, hfits⟩
        rcases forM_sendto_run E (Transfer.datagrams
          ⟨content.take lenBlockBuffer, synerDevId arg.u8DeviceId, arg.u8flag, hfits⟩) s' with
            ⟨s'', hrun⟩
        dsimp only at hsend
        rw [hsend, hrun]
        exact sentDatagrams_sendto _

end Run

end RobotServer
