import RobotServer.Model.Util

/-!
# Hex — the text of a byte string

`hextostring` writes two characters a byte, the hex digits of its halves (`hextostring_eq_map`); it
is injective, and `STRINGTOHEX` reads packed decimal digits back.
-/

namespace RobotServer

open CText

/-! ## One byte -/

/-- The value of a hex digit. -/
def hexDigitValue (c : Byte) : Byte :=
  if c ≤ 0x39 then c - 0x30 else c - 0x41 + 0x0A

/-- The byte that two hex digits stand for. -/
def unhexPair : Text → Byte
  | [x, y] => (hexDigitValue x <<< 4) ||| hexDigitValue y
  | _ => 0

theorem unhexPair_hexPair (b : Byte) : unhexPair (hexPair b) = b := by
  revert b
  exact forall_byte (by decide +kernel)

theorem hexPair_injective : Function.Injective hexPair :=
  Function.LeftInverse.injective unhexPair_hexPair

/-- The characters of a byte are no control characters, no underscore and no NUL. -/
theorem hexPair_chars (b : Byte) : ∀ c ∈ hexPair b, 0x30 ≤ c ∧ c ≤ 0x46 := by
  have hall : ∀ b, (hexPair b).all (fun c => decide (0x30 ≤ c ∧ c ≤ 0x46)) = true :=
    forall_byte (by decide +kernel)
  intro c hc
  exact of_decide_eq_true (List.all_eq_true.mp (hall b) c hc)

theorem hexPair_length (b : Byte) : (hexPair b).length = 2 := rfl

/-- `STRINGTOHEX` packs two decimal digits, `hextostring` unpacks them. -/
theorem hexPair_stringtohex {x y : Byte} (hx : isDigit x = true) (hy : isDigit y = true) :
    hexPair (stringtohex x y) = [x, y] := by
  have hpair : ∀ d e : Fin 10, hexPair (stringtohex (digitChar d) (digitChar e)) =
      [digitChar d, digitChar e] := by decide
  rcases exists_digitChar hx with ⟨d, rfl⟩
  rcases exists_digitChar hy with ⟨e, rfl⟩
  exact hpair d e

/-! ## Byte strings -/

@[simp] theorem hextostring_length (hex : List Byte) :
    (hextostring hex).length = 2 * hex.length := by
  induction hex with
  | nil => rfl
  | cons b hex ih =>
      have hcons : hextostring (b :: hex) = hexPair b ++ hextostring hex := rfl
      rw [hcons, List.length_append, hexPair_length, ih, List.length_cons]
      omega

theorem hextostring_injective : Function.Injective hextostring := by
  intro hex
  induction hex with
  | nil =>
      intro hex' h
      have hlen := congrArg List.length h
      rw [hextostring_length, hextostring_length] at hlen
      exact (List.eq_nil_of_length_eq_zero (by simpa using hlen.symm)).symm
  | cons b hex ih =>
      intro hex' h
      cases hex' with
      | nil => cases h
      | cons b' hex' =>
          have happend : hexPair b ++ hextostring hex = hexPair b' ++ hextostring hex' := h
          rcases List.append_inj happend rfl with ⟨hpair, hrest⟩
          rw [hexPair_injective hpair, ih hrest]

theorem hextostring_chars (hex : List Byte) : ∀ c ∈ hextostring hex, 0x30 ≤ c ∧ c ≤ 0x46 := by
  intro c hc
  rcases List.mem_flatMap.mp hc with ⟨b, -, hcb⟩
  exact hexPair_chars b c hcb

/-- Unpacking the packed digits of a text gives the text back. -/
theorem hextostring_pairs (digits : Text) (hdigits : ∀ b ∈ digits, isDigit b = true) (n : Nat) :
    digits.length = 2 * n →
      hextostring ((List.range n).map fun i =>
        stringtohex (digits.getD (2 * i) 0) (digits.getD (2 * i + 1) 0)) = digits := by
  induction n generalizing digits with
  | zero =>
      intro hlen
      rw [List.eq_nil_of_length_eq_zero hlen]
      rfl
  | succ n ih =>
      intro hlen
      match digits, hlen, hdigits with
      | x :: y :: rest, hlen, hdigits =>
          have hrest : rest.length = 2 * n := by
            simp only [List.length_cons] at hlen
            omega
          have hpair := hexPair_stringtohex (hdigits x (by simp)) (hdigits y (by simp))
          have htail := ih rest (fun b hb => hdigits b (by simp [hb])) hrest
          -- The pairs behind the first one are the pairs of the rest.
          have hmap : (List.range (n + 1)).map (fun i => stringtohex
              ((x :: y :: rest).getD (2 * i) 0) ((x :: y :: rest).getD (2 * i + 1) 0)) =
              stringtohex x y :: (List.range n).map fun i =>
                stringtohex (rest.getD (2 * i) 0) (rest.getD (2 * i + 1) 0) := by
            rw [List.range_succ_eq_map, List.map_cons, List.map_map]
            rfl
          rw [hmap]
          calc
            hextostring (stringtohex x y :: _) = hexPair (stringtohex x y) ++ hextostring _ := rfl
            _ = x :: y :: rest := by rw [hpair, htail]; rfl

/-! ## Hex digits -/

/-- The halves of the bytes, the high one first. -/
def nibbles (hex : List Byte) : List Nat :=
  hex.flatMap fun b => [b.toNat / 16, b.toNat % 16]

/-- An upper-case hex digit. -/
def hexChar (d : Nat) : Byte :=
  UInt8.ofNat (if d < 10 then 0x30 + d else 0x37 + d)

theorem hexPair_eq (b : Byte) : hexPair b = [hexChar (b.toNat / 16), hexChar (b.toNat % 16)] := by
  revert b
  exact forall_byte (by decide +kernel)

/-- The text of a byte string is its hex digits, whatever the signs of the characters. -/
theorem hextostring_eq_map (hex : List Byte) : hextostring hex = (nibbles hex).map hexChar := by
  rw [nibbles, List.map_flatMap]
  exact List.flatMap_congr fun b _ => hexPair_eq b

theorem nibbles_lt (hex : List Byte) : ∀ d ∈ nibbles hex, d < 16 := by
  intro d hd
  rcases List.mem_flatMap.mp hd with ⟨b, -, hdb⟩
  have hb := b.toNat_lt
  rcases List.mem_pair.mp hdb with rfl | rfl
  · omega
  · omega

theorem nibbles_length (hex : List Byte) : (nibbles hex).length = 2 * hex.length := by
  have hlen := congrArg List.length (hextostring_eq_map hex)
  rw [hextostring_length, List.length_map] at hlen
  exact hlen.symm

/-- The decimal digits at the head of a hex text, as a number. -/
theorem digitsValue_hextostring (hex : List Byte) :
    digitsValue (hextostring hex) =
      Nat.ofDigits 10 ((nibbles hex).takeWhile (· < 10)).reverse := by
  have hchar : ∀ d < 16, isDigit (hexChar d) = decide (d < 10) := by decide
  have hdigit : ∀ d < 10, hexChar d = digitChar d := by decide
  have htake : ∀ l : List Nat, (∀ d ∈ l, d < 16) →
      (l.map hexChar).takeWhile isDigit = (l.takeWhile (· < 10)).map digitChar := by
    intro l
    induction l with
    | nil =>
        intro _
        rfl
    | cons d l ih =>
        intro hl
        have htail := ih fun e he => hl e (by simp [he])
        rw [List.map_cons, List.takeWhile_cons, List.takeWhile_cons,
          hchar d (hl d List.mem_cons_self)]
        by_cases hd : d < 10
        · simp only [hd, decide_true, if_true, List.map_cons, htail, hdigit d hd]
        · simp [hd]
  have hfold := foldl_digits ((nibbles hex).takeWhile (· < 10)).reverse ?_
  · rw [List.reverse_reverse] at hfold
    rw [digitsValue, hextostring_eq_map, htake _ (nibbles_lt hex), hfold]
  · intro d hd
    have hmem := List.mem_takeWhile_imp (List.mem_reverse.mp hd)
    exact of_decide_eq_true hmem

/-- Device ids with the same text are the same. -/
theorem deviceId_text_injective {packet packet' : DeviceId}
    (h : hextostring packet.toList = hextostring packet'.toList) : packet = packet' :=
  Vector.toList_inj.mp (hextostring_injective h)

/-! ## File names -/

theorem genBlockFilePathName_injective : Function.Injective genBlockFilePathName := by
  intro filename filename' h
  exact List.append_cancel_left h

theorem genAgpsFilePathName_injective : Function.Injective genAgpsFilePathName := by
  intro filename filename' h
  exact List.append_cancel_left (List.append_cancel_right h)

/-- The two families of paths are apart: they part in the name of the directory. -/
theorem genBlockFilePathName_ne_genAgpsFilePathName (filename filename' : Text) :
    genBlockFilePathName filename ≠ genAgpsFilePathName filename' := by
  intro h
  have h13 := congrArg (fun path : Text => path[13]?) h
  have hblock : (genBlockFilePathName filename)[13]? = some 0x62 := rfl
  have hagps : (genAgpsFilePathName filename')[13]? = some 0x61 := rfl
  rw [hblock, hagps] at h13
  exact absurd h13 (by decide)

end RobotServer
