import Mathlib.Data.List.TakeWhile
import Mathlib.Data.Nat.Digits.Defs
import Mathlib.Data.Nat.Digits.Lemmas
import Mathlib.Tactic.Common

/-!
# CText — byte strings, `%d` and `atoi`

Text is a list of bytes.  The module gives the conversions of the C library that text-building
code relies on and the laws that connect them:

- `cstr` cuts a text at its first NUL, which is what string functions see of a buffer;
- `intText` prints an integer as `%d` does, `atoi` reads one back (`atoi_intText`).
-/

namespace CText

abbrev Byte := UInt8

abbrev Text := List Byte

/-- A property of bytes is checked on the 256 of them. -/
theorem forall_byte {P : Byte → Prop} (h : ∀ n : Fin 256, P (UInt8.ofNat n)) : ∀ b, P b := by
  intro b
  have hb := h ⟨b.toNat, b.toNat_lt⟩
  simpa using hb

/-- The bytes of an ASCII literal. -/
def ascii (s : String) : Text :=
  s.toList.map fun c => UInt8.ofNat c.toNat

/-- The part of a buffer before its first NUL. -/
def cstr (t : Text) : Text :=
  t.takeWhile (· ≠ 0)

theorem cstr_length_le (t : Text) : (cstr t).length ≤ t.length :=
  (List.takeWhile_sublist _).length_le

theorem cstr_eq_self {t : Text} (h : (0 : Byte) ∉ t) : cstr t = t := by
  refine List.takeWhile_eq_self_iff.mpr fun b hb => ?_
  have hne : b ≠ 0 := fun h0 => h (h0 ▸ hb)
  simpa using hne

/-- What stands behind a NUL is not seen. -/
theorem cstr_append_of_mem {t : Text} (h : (0 : Byte) ∈ t) (u : Text) :
    cstr (t ++ u) = cstr t := by
  induction t with
  | nil => cases h
  | cons b t ih =>
      by_cases hb : b = 0
      · simp [cstr, hb]
      · have ht : (0 : Byte) ∈ t := (List.mem_cons.mp h).resolve_left fun h0 => hb h0.symm
        have htail := ih ht
        simp only [cstr, List.cons_append, List.takeWhile_cons] at htail ⊢
        rw [htail]

/-- A text in a buffer ends at its terminator. -/
theorem cstr_append_zero {t : Text} (h : (0 : Byte) ∉ t) (u : Text) : cstr (t ++ 0 :: u) = t := by
  have hall : ∀ b ∈ t, (decide (b ≠ 0)) = true := fun b hb =>
    decide_eq_true fun h0 => h (h0 ▸ hb)
  rw [cstr, List.takeWhile_append_of_pos hall]
  simp

/-! ## Signed characters -/

/-- The value of a byte read through a plain `char` on a target where `char` is signed. -/
def schar (b : Byte) : Int :=
  if b.toNat < 128 then b.toNat else (b.toNat : Int) - 256

/-- The byte an `int` becomes when it is stored in a `char`. -/
def toByte (n : Int) : Byte :=
  UInt8.ofNat (n % 256).toNat

theorem schar_of_lt {b : Byte} (h : b.toNat < 128) : schar b = b.toNat := by
  simp [schar, h]

theorem schar_bounds (b : Byte) : -128 ≤ schar b ∧ schar b < 128 := by
  have h := b.toNat_lt
  unfold schar
  split <;> omega

@[simp] theorem toByte_schar (b : Byte) : toByte (schar b) = b := by
  have h := b.toNat_lt
  have hmod : (schar b % 256).toNat = b.toNat := by
    unfold schar
    split <;> omega
  rw [toByte, hmod, UInt8.ofNat_toNat]

theorem toByte_natCast_toNat (b : Byte) : toByte (b.toNat : Int) = b := by
  have h := b.toNat_lt
  have hmod : ((b.toNat : Int) % 256).toNat = b.toNat := by omega
  rw [toByte, hmod, UInt8.ofNat_toNat]

/-! ## Lengths in an `int` -/

theorem natCast_bmod_of_lt {n : Nat} (h : n < 2 ^ 31) : (n : Int).bmod (2 ^ 32) = n :=
  Int.bmod_eq_of_le_mul_two (by omega) (by omega)

theorem natCast_bmod_le (n : Nat) : (n : Int).bmod (2 ^ 32) ≤ n := by
  rw [Int.bmod_def]
  split <;> omega

/-! ## Printing integers -/

def digitChar (d : Nat) : Byte :=
  UInt8.ofNat (0x30 + d)

/-- `%u`, and `%d` of a non-negative value. -/
def natText (n : Nat) : Text :=
  if n = 0 then [0x30] else (Nat.digits 10 n).reverse.map digitChar

/-- `%d`. -/
def intText (n : Int) : Text :=
  if n < 0 then 0x2D :: natText n.natAbs else natText n.natAbs

/-! ## Reading integers -/

def isSpace (b : Byte) : Bool :=
  b == 0x20 || (0x09 ≤ b && b ≤ 0x0D)

def isDigit (b : Byte) : Bool :=
  0x30 ≤ b && b ≤ 0x39

/-- The value of the leading decimal digits of a text. -/
def digitsValue (t : Text) : Nat :=
  (t.takeWhile isDigit).foldl (fun n b => 10 * n + (b.toNat - 0x30)) 0

/-- The signed decimal number at the head of a text, after white space. -/
def signedValue (t : Text) : Int :=
  match t.dropWhile isSpace with
  | [] => 0
  | b :: rest =>
      if b = 0x2D then -(digitsValue rest : Int)
      else if b = 0x2B then digitsValue rest
      else digitsValue (b :: rest)

/-- `atoi`: the value saturates at the range of `long` and is then cut to 32 bits. -/
def atoi (t : Text) : Int :=
  (max (-2 ^ 63) (min (2 ^ 63 - 1) (signedValue t))).bmod (2 ^ 32)

theorem atoi_of_signedValue {t : Text} {n : Int} (h : signedValue t = n)
    (hlo : -2 ^ 31 ≤ n) (hhi : n < 2 ^ 31) : atoi t = n := by
  have hmin : min (2 ^ 63 - 1) n = n := by omega
  have hmax : max (-2 ^ 63) n = n := by omega
  rw [atoi, h, hmin, hmax]
  exact Int.bmod_eq_of_le_mul_two (by omega) (by omega)

/-- A text without white space and signs is read from its first character on. -/
theorem signedValue_of_forall_le {t : Text} (h : ∀ c ∈ t, 0x30 ≤ c.toNat) :
    signedValue t = digitsValue t := by
  cases t with
  | nil => rfl
  | cons b rest =>
      have hb := h b List.mem_cons_self
      have hspace : isSpace b = false := by
        have hne : b ≠ 0x20 := fun he => by simp [he] at hb
        have hlarge : ¬ b ≤ 0x0D := by
          rw [UInt8.le_iff_toNat_le]
          change ¬ b.toNat ≤ 13
          omega
        simp [isSpace, hne, hlarge]
      have hminus : b ≠ 0x2D := fun he => by simp [he] at hb
      have hplus : b ≠ 0x2B := fun he => by simp [he] at hb
      simp [signedValue, hspace, hminus, hplus]

/-! ## Printing, then reading -/

theorem digitChar_toNat {d : Nat} (h : d < 10) : (digitChar d).toNat = 0x30 + d := by
  rw [digitChar, UInt8.toNat_ofNat']
  omega

theorem isDigit_iff (b : Byte) : isDigit b = true ↔ 48 ≤ b.toNat ∧ b.toNat ≤ 57 := by
  simp [isDigit, UInt8.le_iff_toNat_le]

theorem isDigit_digitChar {d : Nat} (h : d < 10) : isDigit (digitChar d) = true := by
  have hd := digitChar_toNat h
  rw [isDigit_iff]
  omega

theorem exists_digitChar {b : Byte} (h : isDigit b = true) : ∃ d : Fin 10, b = digitChar d := by
  have hb := (isDigit_iff b).mp h
  have hlt : b.toNat - 48 < 10 := by omega
  refine ⟨⟨b.toNat - 48, hlt⟩, ?_⟩
  apply UInt8.toNat_inj.mp
  have hchar := digitChar_toNat hlt
  dsimp only
  omega

theorem isDigit_natText (n : Nat) : ∀ b ∈ natText n, isDigit b = true := by
  intro b hb
  by_cases hn : n = 0
  · have hb' : b = 0x30 := by simpa [natText, hn] using hb
    subst hb'
    decide
  · obtain ⟨d, hd, rfl⟩ : ∃ d, d ∈ Nat.digits 10 n ∧ digitChar d = b := by
      simpa [natText, hn] using hb
    exact isDigit_digitChar (Nat.digits_lt_base (by decide) hd)

theorem natText_ne_nil (n : Nat) : natText n ≠ [] := by
  by_cases hn : n = 0
  · simp [natText, hn]
  · simp [natText, hn, Nat.digits_eq_nil_iff_eq_zero]

theorem natText_length_le_iff {n k : Nat} (hk : 0 < k) : (natText n).length ≤ k ↔ n < 10 ^ k := by
  by_cases hn : n = 0
  · rw [natText, if_pos hn, hn]
    exact iff_of_true hk (Nat.pow_pos (by decide))
  · rw [natText, if_neg hn, List.length_map, List.length_reverse,
      Nat.digits_length_le_iff (by decide)]

/-- A number below `10 ^ k` prints as at most `k` characters. -/
theorem natText_length_le {n k : Nat} (hk : 0 < k) (h : n < 10 ^ k) : (natText n).length ≤ k :=
  (natText_length_le_iff hk).mpr h

theorem natText_length_ge_two {n : Nat} (h : 10 ≤ n) : 2 ≤ (natText n).length := by
  by_contra hlt
  have hle : (Nat.digits 10 n).length ≤ 1 := by
    have hlen : (natText n).length = (Nat.digits 10 n).length := by
      rw [natText, if_neg (by omega)]
      simp
    omega
  have hsmall := (Nat.digits_length_le_iff (by decide) n).mp hle
  omega

/-- A printed number has no other characters than digits. -/
theorem notMem_natText {c : Byte} (h : isDigit c = false) (n : Nat) : c ∉ natText n := by
  intro hmem
  rw [isDigit_natText n c hmem] at h
  cases h

theorem notMem_intText {c : Byte} (hminus : c ≠ 0x2D) (h : isDigit c = false) (n : Int) :
    c ∉ intText n := by
  unfold intText
  split
  · rw [List.mem_cons, not_or]
    exact ⟨hminus, notMem_natText h _⟩
  · exact notMem_natText h _

theorem intText_ne_nil (n : Int) : intText n ≠ [] := by
  unfold intText
  split
  · exact List.cons_ne_nil _ _
  · exact natText_ne_nil _

theorem intText_schar_length_le (b : Byte) : (intText (schar b)).length ≤ 4 := by
  have hbounds := schar_bounds b
  have hlen : (natText (schar b).natAbs).length ≤ 3 := natText_length_le (by decide) (by omega)
  unfold intText
  split
  · exact Nat.succ_le_succ hlen
  · exact hlen.trans (by decide)

theorem natText_uint16_length_le (n : UInt16) : (natText n.toNat).length ≤ 5 :=
  natText_length_le (by decide) (n.toNat_lt.trans (by decide))

/-- Folding the printed digits back gives the number, whatever came before. -/
theorem foldl_digits (ds : List Nat) (h : ∀ d ∈ ds, d < 10) :
    (ds.reverse.map digitChar).foldl (fun n b => 10 * n + (b.toNat - 0x30)) 0 =
      Nat.ofDigits 10 ds := by
  induction ds with
  | nil => rfl
  | cons d ds ih =>
      have hd : (digitChar d).toNat = 0x30 + d := digitChar_toNat (h d (by simp))
      have htail := ih fun e he => h e (by simp [he])
      simp only [List.reverse_cons, List.map_append, List.foldl_append, htail, List.map_cons,
        List.map_nil, List.foldl_cons, List.foldl_nil, hd, Nat.ofDigits_cons]
      omega

theorem digitsValue_natText (n : Nat) : digitsValue (natText n) = n := by
  have hall : (natText n).takeWhile isDigit = natText n :=
    List.takeWhile_eq_self_iff.mpr (isDigit_natText n)
  rw [digitsValue, hall]
  by_cases hn : n = 0
  · simp [natText, hn]
  · rw [natText, if_neg hn, foldl_digits _ fun d hd => Nat.digits_lt_base (by decide) hd,
      Nat.ofDigits_digits]

/-- Digits are neither white space nor a sign. -/
theorem isDigit_not_special {b : Byte} (h : isDigit b = true) :
    isSpace b = false ∧ b ≠ 0x2D ∧ b ≠ 0x2B := by
  have hb := (isDigit_iff b).mp h
  refine ⟨?_, ?_, ?_⟩
  · have h1 : b ≠ 0x20 := fun he => by simp [he] at hb
    have h2 : ¬ b ≤ 0x0D := by
      rw [UInt8.le_iff_toNat_le]
      change ¬ b.toNat ≤ 13
      omega
    simp [isSpace, h1, h2]
  · exact fun he => by simp [he] at hb
  · exact fun he => by simp [he] at hb

theorem signedValue_natText (n : Nat) : signedValue (natText n) = n := by
  have hdigits := isDigit_natText n
  have hvalue := digitsValue_natText n
  cases ht : natText n with
  | nil => exact absurd ht (natText_ne_nil n)
  | cons b rest =>
      rw [ht] at hdigits hvalue
      obtain ⟨hspace, hminus, hplus⟩ := isDigit_not_special (hdigits b (by simp))
      simp [signedValue, hspace, hminus, hplus, hvalue]

theorem signedValue_intText (n : Int) : signedValue (intText n) = n := by
  by_cases hn : n < 0
  · have hspace : isSpace 0x2D = false := by decide
    simp only [intText, hn, if_true, signedValue, List.dropWhile_cons, hspace]
    simp only [Bool.false_eq_true, if_false, if_true, digitsValue_natText]
    omega
  · rw [intText, if_neg hn, signedValue_natText]
    omega

/-- Every 32-bit value survives `%d` followed by `atoi`. -/
theorem atoi_intText {n : Int} (hlo : -2 ^ 31 ≤ n) (hhi : n < 2 ^ 31) : atoi (intText n) = n :=
  atoi_of_signedValue (signedValue_intText n) hlo hhi

theorem atoi_natText {n : Nat} (h : n < 2 ^ 31) : atoi (natText n) = n :=
  atoi_of_signedValue (signedValue_natText n) (by omega) (by omega)

theorem intText_natCast (n : Nat) : intText (n : Int) = natText n :=
  if_neg (Int.not_lt.mpr (Int.natCast_nonneg n))

/-- `%d` tells an integer. -/
theorem intText_inj {m n : Int} : intText m = intText n ↔ m = n := by
  constructor
  · intro h
    rw [← signedValue_intText m, h, signedValue_intText]
  · rintro rfl
    rfl

theorem natText_inj {m n : Nat} (h : natText m = natText n) : m = n := by
  rw [← digitsValue_natText m, h, digitsValue_natText]

end CText
