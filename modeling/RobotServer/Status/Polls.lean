import RobotServer.Serving.Messages
import RobotServer.Status.PhoneId

/-!
# Polls — the state of a device on its way to its user

A heartbeat leaves the state of the device in redis under the user it is bound to, a poll of that
user reads it.  The invariant of a run is that redis holds, for every user, the state in the last
heartbeat of its devices (`serveAll_published`); `status_exact` reads the replies off it.
-/

namespace RobotServer

open CText Memory Interaction

/-! ## The state of a device -/

/-- The state in a heartbeat: `I_`, the hex digits of the device information, `_` and the signed
time stamp. -/
def statusText (message : List Byte) : Text :=
  ascii "I_" ++ (nibbles ((message.drop 9).take 12)).map hexChar ++ ascii "_" ++
    intText ((leValue ((message.drop 24).take 4) : Int).bmod (2 ^ 32))

theorem deviceInfoText_eq {a : Arrival} (h : a.message.length = lenHeartPacketDevice) :
    deviceInfoText a.packet = statusText a.message := by
  have hlen : a.message.length ≤ lenBlockPacket := by
    rw [h]
    decide
  have hpower : a.packet.slice idxDevicePower lenDeviceInfo = (a.message.drop 9).take 12 :=
    Arrival.slice_packet hlen (by rw [h]; decide)
  have htime : intAt a.packet idxDeviceHeartpacketTimestamp =
      (leValue ((a.message.drop 24).take 4) : Int).bmod (2 ^ 32) :=
    congrArg (fun l => (leValue l : Int).bmod (2 ^ 32))
      (Arrival.slice_packet hlen (by rw [h]; decide))
  rw [deviceInfoText, hpower, hextostring_eq_map, htime, statusText]

/-- The state is read back from redis as it was written. -/
theorem cstr_statusText (message : List Byte) :
    (cstr (statusText message)).take (redisCommandLength - 2) = statusText message := by
  have hhex : ∀ c ∈ (nibbles ((message.drop 9).take 12)).map hexChar, c ≠ 0 := by
    intro c hc
    rw [← hextostring_eq_map] at hc
    exact (plain_hextostring _ c hc).1
  have hint : ∀ c ∈ intText ((leValue ((message.drop 24).take 4) : Int).bmod (2 ^ 32)), c ≠ 0 :=
    fun c hc => (plain_intText _ c hc).1
  -- None of the four parts has a terminator in it.
  have hzero : (0 : Byte) ∉ statusText message := by
    intro hmem
    simp only [statusText, List.mem_append] at hmem
    rcases hmem with ((hmem | hmem) | hmem) | hmem
    · exact absurd hmem (by decide)
    · exact hhex 0 hmem rfl
    · exact absurd hmem (by decide)
    · exact hint 0 hmem rfl
  have htext : ((nibbles ((message.drop 9).take 12)).map hexChar).length ≤ 24 := by
    rw [List.length_map, nibbles_length]
    exact Nat.mul_le_mul_left 2 (List.length_take_le _ _)
  have hnumber : (intText ((leValue ((message.drop 24).take 4) : Int).bmod (2 ^ 32))).length ≤ 11 :=
    userKey_length_le (bmod_isInt _)
  -- They are short enough for the copy.
  have hlen : (statusText message).length ≤ redisCommandLength - 2 := by
    have hprefix : (ascii "I_").length = 2 := by decide
    have hsep : (ascii "_").length = 1 := by decide
    simp only [statusText, List.length_append, hprefix, hsep]
    change _ ≤ 254
    omega
  rw [cstr_eq_self hzero, List.take_of_length_le hlen]

/-! ## Messages -/

/-- The messages of a run. -/
inductive StatusRequest where
  | heartbeat (a : Arrival)
  | poll (a : Arrival)

namespace StatusRequest

def arrival : StatusRequest → Arrival
  | heartbeat a => a
  | poll a => a

/-- A heartbeat or a poll of the right length, between other messages. -/
def WellFormed : StatusRequest → Prop
  | heartbeat a => a.client.index = 0 ∧ a.message.length = lenHeartPacketDevice ∧
      a.message.headD 0 = hdrHeartPacketDevice
  | poll a => a.client.index = 0 ∧ a.message.length = lenHeartPacketPhone ∧
      a.message.headD 0 = hdrHeartPacketPhone

/-- The device of a heartbeat is bound to its user. -/
def Bound (user : DeviceId → Nat) (store : Text → Option Text) : StatusRequest → Prop
  | heartbeat a => store (ascii "R_" ++ deviceIdText a.packet) =
      some (natText (user (deviceIdAt a.packet)))
  | poll _ => True

/-- The state that a message publishes for the user `u`. -/
def published (user : DeviceId → Nat) (u : Nat) : StatusRequest → Option Text
  | heartbeat a => if user (deviceIdAt a.packet) = u then some (statusText a.message) else none
  | poll _ => none

end StatusRequest

/-- The last state that was published for the user `u`. -/
def lastPublished (user : DeviceId → Nat) (u : Nat) (requests : List StatusRequest) : Option Text :=
  (requests.filterMap (StatusRequest.published user u)).getLast?

theorem lastPublished_concat (user : DeviceId → Nat) (u : Nat) (requests : List StatusRequest)
    (r : StatusRequest) :
    lastPublished user u (requests ++ [r]) =
      (r.published user u).or (lastPublished user u requests) := by
  rw [lastPublished, List.filterMap_append, List.getLast?_append]
  cases h : r.published user u with
  | none => simp [h, lastPublished]
  | some t => simp [h]

/-- A published text is the state in some heartbeat. -/
theorem exists_of_lastPublished {user : DeviceId → Nat} {u : Nat} {requests : List StatusRequest}
    {t : Text} (h : lastPublished user u requests = some t) : ∃ message, t = statusText message := by
  rcases List.mem_filterMap.mp (List.mem_of_getLast? h) with ⟨r, -, hr⟩
  cases r with
  | poll a => cases hr
  | heartbeat a =>
      rw [StatusRequest.published] at hr
      split at hr
      · exact ⟨a.message, (Option.some.inj hr).symm⟩
      · cases hr

/-! ## One message -/

theorem userKey_natCast (u : Nat) : userKey u = natText u := by
  have hnonneg : ¬ (u : Int) < 0 := by omega
  rw [userKey, intText, if_neg hnonneg, Int.natAbs_natCast]

section Steps

variable {σ : Type} {E : Environment serverInterface σ} {store : σ → Text → Option Text}

/-- A poll is answered with the text under the key of its user. -/
theorem poll_ensures (hredis : LawfulRedis E store) {s : σ} {a : Arrival}
    (hwf : (StatusRequest.poll a).WellFormed) :
    Program.Ensures E a.serve s fun trace _ s' =>
      repliesOf trace = [ascii "RET:" ++ (((store s (userKey (phoneUser a.packet))).map
        fun str => (cstr str).take (redisCommandLength - 2)).getD [])] ∧ store s' = store s := by
  rcases hwf with ⟨hindex, hlength, hheader⟩
  have hne : a.message ≠ [] := fun h => by simp [h] at hlength
  have hpeek : a.packet.peek 0 = hdrHeartPacketPhone := by
    rw [Arrival.packet, peek_place_zero hne, hheader]
  have hblock : a.packet.peek 0 ≠ hdrBlockDataRecv := by
    rw [hpeek]
    decide
  have hhandler : handlerOf (a.packet.peek 0) = some .phoneHeaderPacket := by
    rw [hpeek]
    rfl
  have hlen : ¬ lenHeartPacketPhone ≠ lenHeartPacketPhone := not_not.mpr rfl
  -- The message is a whole poll, so the read callback is its handler and the reply.
  rw [Arrival.serve_eq hindex hne (by rw [hlength]; decide), dispatch_served hblock,
    served_eq hhandler, hlength, procAction, phoneHeaderPacket, if_neg hlen]
  simp only [bind_assoc]
  apply Program.Ensures.effects
  refine (perform_ensures hredis rfl s).bind ?_
  rintro trace _ s₁ ⟨rfl, hstore⟩
  refine (getValueFromredis_ensures hredis _ s₁).bind ?_
  rintro trace' value s₂ ⟨htrace', hstore', hvalue⟩
  -- The length of a text is never negative: the reply is always sent.
  have hsend : Program.onlyIf (0 ≤ (((value.getD []).length : Nat) : Int))
      (apolloReturnPacket (ascii "RET:" ++ value.getD [])) =
        apolloReturnPacket (ascii "RET:" ++ value.getD []) := by
    rw [decide_eq_true (Int.natCast_nonneg _)]
    rfl
  simp only [Program.pure_eq_ret, Program.ret_bind, hsend]
  refine (sendReply_ensures hredis _ s₂).bind ?_
  rintro trace'' _ s₃ ⟨htrace'', hstore''⟩
  refine .ret ⟨?_, hstore''.trans (hstore'.trans hstore)⟩
  rw [repliesOf_append, repliesOf_append, repliesOf_append, htrace', htrace'', hvalue, hstore]
  rfl

/-- Whatever a heartbeat is answered, redis stays. -/
theorem heartReply_ensures (hredis : LawfulRedis E store) (result : Int) (info : HeartInfo) (s : σ) :
    Program.Ensures E (heartReply result info) s fun _ _ s' => store s' = store s := by
  have hsend : ∀ buffer s, Program.Ensures E (apolloReturnPacket buffer) s
      fun _ _ s' => store s' = store s := fun buffer s =>
    (sendReply_ensures hredis buffer s).mono fun _ _ _ h => h.2
  unfold heartReply
  split
  · split
    · exact hsend _ s
    · exact hsend _ s
  split
  · have hstore := hredis.store_other s .localtime rfl
    apply Program.Ensures.call
    refine (hsend _ _).mono ?_
    intro trace _ s' hsame
    exact hsame.trans hstore
  · exact .ret rfl

/-- Every text in a mailbox is one that the heartbeat handler can decode. -/
def Decodable (store : Text → Option Text) : Prop :=
  ∀ d, ∃ r, decodeMailbox (store (deviceKey d)) (Cells.fill 0) = some r

/-- What redis holds in the course of a run: the bindings it started with, mailboxes that can be
decoded, and for every user the last state of its devices. -/
structure Published (user : DeviceId → Nat) (start store : Text → Option Text)
    (requests : List StatusRequest) : Prop where
  relations : ∀ key, IsRelation key → store key = start key
  mailboxes : Decodable store
  states : ∀ u < 10 ^ 8, store (natText u) = lastPublished user u requests

/-- A poll changes nothing. -/
theorem Published.poll {user : DeviceId → Nat} {start store' : Text → Option Text}
    {requests : List StatusRequest} (h : Published user start store' requests) (a : Arrival) :
    Published user start store' (requests ++ [.poll a]) where
  relations := h.relations
  mailboxes := h.mailboxes
  states := by
    intro u hu
    rw [lastPublished_concat]
    exact h.states u hu

/-- A heartbeat publishes the state of its device for the user of the device. -/
theorem heartbeat_published (hredis : LawfulRedis E store) {user : DeviceId → Nat}
    (huser : ∀ d, user d < 10 ^ 8) {start : Text → Option Text} {s : σ} {a : Arrival}
    {requests : List StatusRequest} (hwf : (StatusRequest.heartbeat a).WellFormed)
    (hbound : (StatusRequest.heartbeat a).Bound user start)
    (h : Published user start (store s) requests) :
    Published user start (store (a.serve.run E s).final) (requests ++ [.heartbeat a]) := by
  rcases hwf with ⟨hindex, hlength, hheader⟩
  rcases h with ⟨hrelations, hmail, hstates⟩
  have hne : a.message ≠ [] := fun h => by simp [h] at hlength
  have hint : ∀ d, IsInt (user d : Int) := by
    intro d
    have hd := huser d
    refine ⟨?_, ?_⟩
    · omega
    · omega
  have hpresent : store s (ascii "R_" ++ deviceIdText a.packet) =
      some (userKey (user (deviceIdAt a.packet))) :=
    (hrelations _ (isRelation_device _)).trans
      (hbound.trans (congrArg some (userKey_natCast _).symm))
  have hpacket : (Request.heartbeat a).WellFormed :=
    ⟨hindex, hlength, (peek_place_zero hne _).trans hheader⟩
  rcases hmail (deviceIdAt a.packet) with ⟨r, hr⟩
  rcases heartbeat_serve_ensures hredis hpacket (hint _) hpresent hr (R := fun _ => True)
    (fun s => (heartReply_ensures hredis r.1 r.2 s).mono fun _ _ _ h => ⟨trivial, h⟩) with
    ⟨-, -, -, htaken, hinfo, hother⟩
  -- Bindings are never written; the mailbox of the device is emptied; its user has the new state.
  refine ⟨?_, ?_, ?_⟩
  · intro key hkey
    refine (hother key ?_ ?_).trans (hrelations key hkey)
    · rintro rfl
      exact deviceKey_not_relation _ hkey
    · rintro rfl
      exact userKey_not_relation _ hkey
  · intro d
    by_cases hd : d = deviceIdAt a.packet
    · rw [hd, htaken]
      exact ⟨_, rfl⟩
    · have hkey : deviceKey d ≠ deviceKey (deviceIdAt a.packet) := fun h =>
        hd (deviceId_text_injective h)
      rw [hother _ hkey (deviceKey_ne_userKey _ (hint _))]
      exact hmail d
  intro u hu
  rw [lastPublished_concat, StatusRequest.published]
  by_cases hsame : user (deviceIdAt a.packet) = u
  · rw [if_pos hsame, Option.some_or, ← deviceInfoText_eq hlength, ← hsame, ← userKey_natCast]
    exact hinfo
  -- The state of another user is neither the mailbox nor the key that is written.
  · have hkey : natText u ≠ deviceKey (deviceIdAt a.packet) := by
      rw [← userKey_natCast]
      exact (deviceKey_ne_userKey _ ⟨by omega, by omega⟩).symm
    have hkey' : natText u ≠ userKey (user (deviceIdAt a.packet)) := by
      rw [userKey_natCast]
      exact fun heq => hsame (natText_inj heq).symm
    rw [if_neg hsame, Option.none_or, hother _ hkey hkey', hstates u hu]

end Steps

/-! ## Runs -/

section Run

variable {σ : Type} (E : Environment serverInterface σ)

/-- The state after the messages of a run, one after another. -/
def statusAfter (s : σ) (requests : List StatusRequest) : σ :=
  serveAll E s (requests.map StatusRequest.arrival)

theorem statusAfter_concat (s : σ) (requests : List StatusRequest) (r : StatusRequest) :
    statusAfter E s (requests ++ [r]) =
      (r.arrival.serve.run E (statusAfter E s requests)).final := by
  rw [statusAfter, List.map_append]
  exact serveAll_concat E s _ r.arrival

variable {E} {store : σ → Text → Option Text}

/-- The invariant holds after every run. -/
theorem statusAfter_published (hredis : LawfulRedis E store) {user : DeviceId → Nat}
    (huser : ∀ d, user d < 10 ^ 8) (s : σ) (hmail : Decodable (store s))
    (hempty : ∀ u < 10 ^ 8, store s (natText u) = none)
    (requests : List StatusRequest) :
    (∀ r ∈ requests, r.WellFormed) → (∀ r ∈ requests, r.Bound user (store s)) →
      Published user (store s) (store (statusAfter E s requests)) requests := by
  induction requests using List.reverseRecOn with
  | nil =>
      intro _ _
      exact ⟨fun _ _ => rfl, hmail, hempty⟩
  | append_singleton requests r ih =>
      intro hwf hbound
      have hmem : r ∈ requests ++ [r] := by simp
      have hbefore := ih (fun r' h => hwf r' (by simp [h])) (fun r' h => hbound r' (by simp [h]))
      rw [statusAfter_concat]
      cases r with
      | heartbeat a => exact heartbeat_published hredis huser (hwf _ hmem) (hbound _ hmem) hbefore
      | poll a =>
          rcases poll_ensures hredis (hwf _ hmem) with ⟨_, _, _, hsame⟩
          rw [StatusRequest.arrival, hsame]
          exact hbefore.poll a

/-- What a poll is answered when the invariant holds. -/
theorem poll_replies (hredis : LawfulRedis E store) {user : DeviceId → Nat}
    {start : Text → Option Text} {s : σ} {requests : List StatusRequest}
    (h : Published user start (store s) requests) {a : Arrival}
    (hwf : (StatusRequest.poll a).WellFormed) {u : Nat} (hu : u < 10 ^ 8)
    (hid : (a.message.drop 1).take 4 = packedDecimal u) :
    repliesOf (a.serve.run E s).trace =
      [ascii "RET:" ++ (lastPublished user u requests).getD []] := by
  have hlen : a.message.length = lenHeartPacketPhone := hwf.2.1
  have hphone : phoneIdAt a.packet = packedDecimal u :=
    (Arrival.slice_packet (by rw [hlen]; decide) (by rw [hlen]; decide)).trans hid
  have hkey : userKey (phoneUser a.packet) = natText u := by
    rw [phoneUser_eq, hphone, idNumber_packedDecimal hu, userKey_natCast]
  have hread : (lastPublished user u requests).map
      (fun str => (cstr str).take (redisCommandLength - 2)) = lastPublished user u requests := by
    cases hlast : lastPublished user u requests with
    | none => rfl
    | some t =>
        rcases exists_of_lastPublished hlast with ⟨message, rfl⟩
        exact congrArg some (cstr_statusText message)
  rcases poll_ensures hredis hwf with ⟨_, _, hreplies, -⟩
  rw [hreplies, hkey, h.states u hu, hread]

/-- **The state of a device reaches its user**: a poll is answered with the state in the last
heartbeat of the devices of its user, and heartbeats of the devices of others leave the answer
alone. -/
theorem status_exact (hredis : LawfulRedis E store) {user : DeviceId → Nat}
    (huser : ∀ d, user d < 10 ^ 8) (s : σ) (hmail : Decodable (store s))
    (hempty : ∀ u < 10 ^ 8, store s (natText u) = none)
    (requests : List StatusRequest) (hwf : ∀ r ∈ requests, r.WellFormed)
    (hbound : ∀ r ∈ requests, r.Bound user (store s)) :
    (∀ (i : Nat) a u, requests[i]? = some (.poll a) → u < 10 ^ 8 →
        (a.message.drop 1).take 4 = packedDecimal u →
          repliesOf (a.serve.run E (statusAfter E s (requests.take i))).trace =
            [ascii "RET:" ++ (lastPublished user u (requests.take i)).getD []]) ∧
      ∀ (i : Nat) h u a, requests[i]? = some (.heartbeat h) → user (deviceIdAt h.packet) ≠ u →
        (StatusRequest.poll a).WellFormed → u < 10 ^ 8 →
          (a.message.drop 1).take 4 = packedDecimal u →
            repliesOf (a.serve.run E (statusAfter E s (requests.take (i + 1)))).trace =
              repliesOf (a.serve.run E (statusAfter E s (requests.take i))).trace := by
  -- The invariant at every point of the run; both parts read it off.
  have hrun : ∀ i, Published user (store s) (store (statusAfter E s (requests.take i)))
      (requests.take i) := fun i =>
    statusAfter_published hredis huser s hmail hempty (requests.take i)
      (fun r hr => hwf r (List.mem_of_mem_take hr)) fun r hr => hbound r (List.mem_of_mem_take hr)
  refine ⟨?_, ?_⟩
  · intro i a u hi hu hid
    exact poll_replies hredis (hrun i) (hwf _ (List.mem_of_getElem? hi)) hu hid
  · intro i h u a hi hother ha hu hid
    have hnext : requests.take (i + 1) = requests.take i ++ [.heartbeat h] := by
      rw [List.take_add_one, hi]
      rfl
    rw [poll_replies hredis (hrun (i + 1)) ha hu hid, poll_replies hredis (hrun i) ha hu hid, hnext,
      lastPublished_concat, StatusRequest.published, if_neg hother, Option.none_or]

/-- A device of user 7 reports, and user 7 polls. -/
theorem status_exact_report :
    let w := World.empty.setRedis (ascii "R_1111111111111111") (some (ascii "7"))
    let heartbeat : Arrival := ⟨BlockBuffer.zero, 0x48 :: List.replicate 8 0x11 ++
      [0, 1, 2, 3, 4, 5, 6, 7, 8, 9, 0xAB, 0xCD] ++ [0, 0, 0, 0xFE, 0xFF, 0xFF, 0xFF] ++
        List.replicate 4 0⟩
    let poll : Arrival := ⟨BlockBuffer.zero, [0x50, 0, 0, 0, 7, 0x25, 0x25, 0x25]⟩
    repliesOf (poll.serve.run world (statusAfter world w [.heartbeat heartbeat])).trace =
      [ascii "RET:I_00010203040506070809ABCD_-2"] := by
  intro w heartbeat poll
  -- Redis starts with the one binding.
  have hempty : ∀ u < 10 ^ 8, w.redis (natText u) = none := by
    intro u _
    have hne : natText u ≠ ascii "R_1111111111111111" := by
      intro heq
      have hmem : (0x52 : Byte) ∈ natText u := by
        rw [heq]
        decide
      exact absurd (isDigit_natText u _ hmem) (by decide)
    simp only [w, World.redis_setRedis, if_neg hne]
    rfl
  have hmail : Decodable w.redis := by
    intro d'
    have hne : deviceKey d' ≠ ascii "R_1111111111111111" := by
      intro heq
      exact deviceKey_not_relation d' (heq ▸ isRelation_device (ascii "1111111111111111"))
    simp only [w, World.redis_setRedis, if_neg hne]
    exact ⟨_, rfl⟩
  have hwf : ∀ r ∈ [StatusRequest.heartbeat heartbeat, .poll poll], r.WellFormed := by
    intro r hr
    rcases List.mem_pair.mp hr with rfl | rfl
    · exact ⟨rfl, by decide, by decide⟩
    · exact ⟨rfl, by decide, by decide⟩
  have hbound : ∀ r ∈ [StatusRequest.heartbeat heartbeat, .poll poll],
      r.Bound (fun _ => 7) (World.redis w) := by
    intro r hr
    rcases List.mem_pair.mp hr with rfl | rfl
    · change w.redis _ = _
      decide
    · trivial
  have hreply := (@status_exact _ _ _ world_lawfulRedis (fun _ => 7) (fun _ => by decide) w
    hmail hempty _ hwf hbound).1 1 poll 7 rfl (by decide) (by decide)
  refine hreply.trans ?_
  decide +kernel

end Run

end RobotServer
