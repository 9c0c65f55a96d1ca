import RobotServer.Mailbox.Delivery

/-!
# PhoneId — the user that a phone id names

A phone packet carries four id bytes; the server prints them in hex and reads the text with `atoi`.
What this makes of an id are its decimal digits before the first hex letter, without leading zeros
(`phoneUser_eq`), so ids that share these digits name the same user (`phoneUser_eq_iff`).  The
packed decimal digits of a user name that user (`idNumber_packedDecimal`).
-/

namespace RobotServer

open CText Memory Interaction

/-! ## Digits of an id -/

/-- The decimal digits before the first hex letter, without leading zeros. -/
def decimalDigits (id : List Byte) : List Nat :=
  ((nibbles id).takeWhile (· < 10)).dropWhile (· = 0)

theorem decimalDigits_lt (id : List Byte) : ∀ d ∈ decimalDigits id, d < 10 := by
  intro d hd
  have hmem := List.mem_takeWhile_imp ((List.dropWhile_sublist _).subset hd)
  exact of_decide_eq_true hmem

/-- Leading zeros do not count. -/
theorem ofDigits_reverse_dropWhile (l : List Nat) :
    Nat.ofDigits 10 (l.dropWhile (· = 0)).reverse = Nat.ofDigits 10 l.reverse := by
  induction l with
  | nil => rfl
  | cons d l ih =>
      by_cases hd : d = 0
      · have hdrop : (d :: l).dropWhile (· = 0) = l.dropWhile (· = 0) :=
          List.dropWhile_cons_of_pos (decide_eq_true hd)
        rw [hdrop, ih, List.reverse_cons, Nat.ofDigits_append, hd]
        simp
      · have hkeep : (d :: l).dropWhile (· = 0) = d :: l :=
          List.dropWhile_cons_of_neg (by simpa using hd)
        rw [hkeep]

/-- The number that these digits write. -/
def idNumber (id : List Byte) : Nat :=
  Nat.ofDigits 10 (decimalDigits id).reverse

theorem digitsValue_hextostring_eq (id : List Byte) :
    digitsValue (hextostring id) = idNumber id := by
  rw [digitsValue_hextostring, idNumber, decimalDigits, ofDigits_reverse_dropWhile]

/-- The digits can be read off the number. -/
theorem digits_idNumber (id : List Byte) :
    Nat.digits 10 (idNumber id) = (decimalDigits id).reverse := by
  refine Nat.digits_ofDigits 10 (by decide) _ ?_ ?_
  · intro d hd
    exact decimalDigits_lt id d (List.mem_reverse.mp hd)
  · intro hne
    rw [List.getLast_reverse]
    have hhead := List.head_dropWhile_not (fun d : Nat => decide (d = 0))
      (l := (nibbles id).takeWhile (· < 10)) (by simpa [decimalDigits] using hne)
    simpa [decimalDigits] using hhead

theorem idNumber_lt (id : List Byte) : idNumber id < 10 ^ (2 * id.length) := by
  have hlen : (decimalDigits id).length ≤ 2 * id.length := by
    calc
      (decimalDigits id).length ≤ ((nibbles id).takeWhile (· < 10)).length :=
        (List.dropWhile_sublist _).length_le
      _ ≤ (nibbles id).length := (List.takeWhile_sublist _).length_le
      _ = 2 * id.length := nibbles_length id
  calc
    idNumber id < 10 ^ (decimalDigits id).reverse.length :=
      Nat.ofDigits_lt_base_pow_length (by decide) fun d hd =>
        decimalDigits_lt id d (List.mem_reverse.mp hd)
    _ ≤ 10 ^ (2 * id.length) := by
      rw [List.length_reverse]
      exact Nat.pow_le_pow_right (by decide) hlen

/-- An id writes a number in these digits only. -/
theorem idNumber_eq_iff (id : List Byte) (u : Nat) :
    idNumber id = u ↔ decimalDigits id = (Nat.digits 10 u).reverse := by
  constructor
  · rintro rfl
    rw [digits_idNumber, List.reverse_reverse]
  · intro h
    rw [idNumber, h, List.reverse_reverse, Nat.ofDigits_digits]

/-! ## The user of an id -/

/-- `packet+IDX_PHONE_ID` as four bytes. -/
def phoneIdAt (packet : PacketBuffer) : List Byte :=
  packet.slice idxPhoneId lenPhoneId

/-- What `atoi` reads out of a phone id. -/
theorem phoneUser_eq (packet : PacketBuffer) : phoneUser packet = idNumber (phoneIdAt packet) := by
  have hchars : ∀ c ∈ phoneIdText packet, 0x30 ≤ c.toNat := by
    intro c hc
    have hle := (hextostring_chars _ c hc).1
    rw [UInt8.le_iff_toNat_le] at hle
    exact hle
  have hvalue : signedValue (phoneIdText packet) = idNumber (phoneIdAt packet) := by
    rw [signedValue_of_forall_le hchars]
    exact congrArg Nat.cast (digitsValue_hextostring_eq (phoneIdAt packet))
  have hbound : idNumber (phoneIdAt packet) < 10 ^ 8 := by
    have hlt := idNumber_lt (phoneIdAt packet)
    rw [phoneIdAt, Cells.slice_length] at hlt
    exact hlt
  exact atoi_of_signedValue hvalue (by omega) (by omega)

/-- Two ids name the same user exactly when they share these digits. -/
theorem phoneUser_eq_iff (packet packet' : PacketBuffer) :
    phoneUser packet = phoneUser packet' ↔
      decimalDigits (phoneIdAt packet) = decimalDigits (phoneIdAt packet') := by
  rw [phoneUser_eq, phoneUser_eq, Int.natCast_inj, idNumber_eq_iff, digits_idNumber,
    List.reverse_reverse]

/-! ## Packed decimals -/

/-- Two decimal digits in one byte. -/
def packedByte (n : Nat) : Byte :=
  UInt8.ofNat (n / 10 * 16 + n % 10)

/-- The id of a user: eight decimal digits, two in a byte. -/
def packedDecimal (u : Nat) : List Byte :=
  [packedByte (u / 10 ^ 6 % 100), packedByte (u / 10 ^ 4 % 100), packedByte (u / 10 ^ 2 % 100),
    packedByte (u % 100)]

theorem nibbles_packedByte : ∀ n < 100,
    [(packedByte n).toNat / 16, (packedByte n).toNat % 16] = [n / 10, n % 10] := by
  decide +kernel

/-- The eight digits of an id. -/
theorem nibbles_packedDecimal (u : Nat) :
    nibbles (packedDecimal u) = [u / 10 ^ 6 % 100 / 10, u / 10 ^ 6 % 100 % 10,
      u / 10 ^ 4 % 100 / 10, u / 10 ^ 4 % 100 % 10, u / 10 ^ 2 % 100 / 10, u / 10 ^ 2 % 100 % 10,
      u % 100 / 10, u % 100 % 10] := by
  have hpair : ∀ n, [(packedByte (n % 100)).toNat / 16, (packedByte (n % 100)).toNat % 16] =
      [n % 100 / 10, n % 100 % 10] := fun n => nibbles_packedByte _ (Nat.mod_lt _ (by decide))
  simp only [nibbles, packedDecimal, List.flatMap_cons, List.flatMap_nil, hpair,
    List.cons_append, List.nil_append]

theorem idNumber_packedDecimal {u : Nat} (h : u < 10 ^ 8) : idNumber (packedDecimal u) = u := by
  have hall : (nibbles (packedDecimal u)).takeWhile (· < 10) = nibbles (packedDecimal u) := by
    refine List.takeWhile_eq_self_iff.mpr ?_
    rw [nibbles_packedDecimal]
    intro d hd
    simp only [List.mem_cons, List.not_mem_nil, or_false] at hd
    refine decide_eq_true ?_
    omega
  rw [idNumber, decimalDigits, ofDigits_reverse_dropWhile, hall, nibbles_packedDecimal]
  simp only [List.reverse_cons, List.reverse_nil, List.nil_append, List.cons_append,
    Nat.ofDigits_cons, Nat.ofDigits_nil]
  omega

/-! ## Keys -/

theorem userKey_injective : Function.Injective userKey := by
  intro m n h
  have hvalue := congrArg signedValue h
  rwa [userKey, userKey, signedValue_intText, signedValue_intText] at hvalue

theorem phoneHeaderPacket_firstOp (packet : PacketBuffer) :
    (phoneHeaderPacket packet lenHeartPacketPhone).firstOp =
      some (.redisGet (userKey (phoneUser packet))) := rfl

theorem phoneCommandPacket_firstOp (packet : PacketBuffer) :
    (phoneCommandPacket packet lenCommandPacket).firstOp =
      some (.redisGet (ascii "RP_" ++ userKey (phoneUser packet))) := rfl

/-- **Polls and commands of two phones use different keys exactly when their ids differ in the
decimal digits before the first hex letter, leading zeros aside**; the keys of a user are used by
every id that has the digits of the user there. -/
theorem phoneKeys_ne_iff (packet packet' : PacketBuffer) :
    ((phoneHeaderPacket packet lenHeartPacketPhone).firstOp ≠
        (phoneHeaderPacket packet' lenHeartPacketPhone).firstOp ↔
      decimalDigits (phoneIdAt packet) ≠ decimalDigits (phoneIdAt packet')) ∧
    ((phoneCommandPacket packet lenCommandPacket).firstOp ≠
        (phoneCommandPacket packet' lenCommandPacket).firstOp ↔
      decimalDigits (phoneIdAt packet) ≠ decimalDigits (phoneIdAt packet')) ∧
    ∀ u : Nat,
      ((phoneHeaderPacket packet lenHeartPacketPhone).firstOp = some (.redisGet (userKey u)) ↔
        decimalDigits (phoneIdAt packet) = (Nat.digits 10 u).reverse) ∧
      ((phoneCommandPacket packet lenCommandPacket).firstOp =
          some (.redisGet (ascii "RP_" ++ userKey u)) ↔
        decimalDigits (phoneIdAt packet) = (Nat.digits 10 u).reverse) := by
  have hpoll : ∀ m n : Int, some (Op.redisGet (userKey m)) = some (Op.redisGet (userKey n)) ↔
      m = n := by
    intro m n
    rw [Option.some.injEq, Op.redisGet.injEq, userKey_injective.eq_iff]
  have hcommand : ∀ m n : Int, some (Op.redisGet (ascii "RP_" ++ userKey m)) =
      some (Op.redisGet (ascii "RP_" ++ userKey n)) ↔ m = n := by
    intro m n
    rw [Option.some.injEq, Op.redisGet.injEq, List.append_cancel_left_eq,
      userKey_injective.eq_iff]
  simp only [phoneHeaderPacket_firstOp, phoneCommandPacket_firstOp]
  refine ⟨not_congr ((hpoll _ _).trans (phoneUser_eq_iff packet packet')),
    not_congr ((hcommand _ _).trans (phoneUser_eq_iff packet packet')), ?_⟩
  intro u
  -- The number is the digits up to the first nibble that is none, without leading zeros.
  have huser : phoneUser packet = u ↔
      decimalDigits (phoneIdAt packet) = (Nat.digits 10 u).reverse := by
    rw [phoneUser_eq, Int.natCast_inj, idNumber_eq_iff]
  exact ⟨(hpoll _ _).trans huser, (hcommand _ _).trans huser⟩

/-- The ids `00 00 00 07` and `00 00 00 7A` differ, and both are user 7. -/
theorem phoneKeys_shared :
    let packet : PacketBuffer := (Cells.fill 0).place 0 [0x50, 0x00, 0x00, 0x00, 0x07]
    let packet' : PacketBuffer := (Cells.fill 0).place 0 [0x50, 0x00, 0x00, 0x00, 0x7A]
    phoneIdAt packet ≠ phoneIdAt packet' ∧
      (phoneHeaderPacket packet lenHeartPacketPhone).firstOp =
        (phoneHeaderPacket packet' lenHeartPacketPhone).firstOp := by
  decide +kernel

end RobotServer
