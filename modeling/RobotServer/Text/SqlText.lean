import RobotServer.Text.CText

/-!
# SqlText — statements as MySQL reads them

`read` goes through a statement under MySQL's rules for string literals: a literal stands between
quotes, a doubled quote and a backslash sequence stand for one character, and there are no literals
inside comments and quoted identifiers.  Every symbol costs a byte (`read_length_le`), so a
statement of as many symbols as bytes has nothing in it that stands for something else
(`read_bytes`), and a text survives between quotes exactly when it is `IsClean`
(`read_twoLiterals_iff`).
-/

namespace SqlText

open CText

/-! ## Reading -/

/-- Where the reader stands. -/
inductive Mode where
  | code
  | literal (quote : Byte)
  /-- Between backticks. -/
  | identifier
  | lineComment
  /-- In front of the star of an opened comment. -/
  | commentOpening
  | comment
  /-- In front of the slash that closes a comment. -/
  | commentClosing
  deriving DecidableEq, Repr

inductive Symbol where
  /-- A character outside of literals. -/
  | code (c : Byte)
  /-- The beginning or the end of a literal. -/
  | quote (c : Byte)
  /-- A character of the value of a literal. -/
  | char (c : Byte)
  deriving DecidableEq, Repr

/-- What a backslash in front of `d` stands for; before the two wildcards it is kept. -/
def escaped (d : Byte) : List Symbol :=
  if d = 0x25 ∨ d = 0x5F then [.char 0x5C, .char d]
  else if d = 0x30 then [.char 0x00]
  else if d = 0x62 then [.char 0x08]
  else if d = 0x6E then [.char 0x0A]
  else if d = 0x72 then [.char 0x0D]
  else if d = 0x74 then [.char 0x09]
  else if d = 0x5A then [.char 0x1A]
  else [.char d]

/-- The mode behind a character of code, which is no quote.  Two dashes open a comment in front of
a blank or the end; a comment that begins with an exclamation mark is code. -/
def nextMode (c : Byte) (t : Text) : Mode :=
  if c = 0x60 then .identifier
  else if c = 0x23 then .lineComment
  else if c = 0x2D ∧ t.head? = some 0x2D ∧ t.tail.headD 0x20 ≤ 0x20 then .lineComment
  else if c = 0x2F ∧ t.head? = some 0x2A ∧ t.tail.head? ≠ some 0x21 then .commentOpening
  else .code

/-- A literal that the statement does not close has no second quote. -/
def read : Mode → Text → List Symbol
  | _, [] => []
  | .code, c :: t =>
      if c = 0x27 ∨ c = 0x22 then .quote c :: read (.literal c) t
      else .code c :: read (nextMode c t) t
  | .literal quote, [c] =>
      if c = quote then [.quote quote] else if c = 0x5C then [] else [.char c]
  | .literal quote, c :: d :: t =>
      if c = quote then
        if d = quote then .char quote :: read (.literal quote) t
        else .quote quote :: read .code (d :: t)
      else if c = 0x5C then escaped d ++ read (.literal quote) t
      else .char c :: read (.literal quote) (d :: t)
  | .identifier, c :: t => .code c :: read (if c = 0x60 then .code else .identifier) t
  | .lineComment, c :: t => .code c :: read (if c = 0x0A then .code else .lineComment) t
  | .commentOpening, c :: t => .code c :: read .comment t
  | .comment, c :: t =>
      .code c :: read (if c = 0x2A ∧ t.head? = some 0x2F then .commentClosing else .comment) t
  | .commentClosing, c :: t => .code c :: read .code t

/-! ## The cost of a symbol -/

/-- The byte a symbol stands for when nothing is escaped. -/
def Symbol.byte : Symbol → Byte
  | .code c => c
  | .quote c => c
  | .char c => c

theorem escaped_cases (d : Byte) :
    ((d = 0x25 ∨ d = 0x5F) ∧ escaped d = [.char 0x5C, .char d]) ∨
      (¬ (d = 0x25 ∨ d = 0x5F) ∧ (escaped d).length = 1) := by
  unfold escaped
  by_cases hkept : d = 0x25 ∨ d = 0x5F
  · exact .inl ⟨hkept, if_pos hkept⟩
  · refine .inr ⟨hkept, ?_⟩
    rw [if_neg hkept]
    split_ifs
    all_goals rfl

theorem escaped_length_le (d : Byte) : (escaped d).length ≤ 2 := by
  rcases escaped_cases d with ⟨-, hescaped⟩ | ⟨-, hlen⟩
  · rw [hescaped]
    rfl
  · rw [hlen]
    decide

theorem read_length_le (mode : Mode) (t : Text) : (read mode t).length ≤ t.length := by
  fun_induction read mode t with
  | case1 => exact le_rfl
  | case4 => exact le_rfl
  | case5 => exact Nat.zero_le _
  | case6 => exact le_rfl
  | case7 quote t ih =>
      rw [List.length_cons, List.length_cons, List.length_cons]
      omega
  | case9 quote d t _ ih =>
      have hescaped := escaped_length_le d
      rw [List.length_append, List.length_cons, List.length_cons]
      omega
  | _ => exact Nat.succ_le_succ ‹_›

/-- A statement of as many symbols as bytes is its symbols. -/
theorem read_bytes (mode : Mode) (t : Text) :
    (read mode t).length = t.length → (read mode t).map Symbol.byte = t := by
  fun_induction read mode t with
  | case1 => exact fun _ => rfl
  | case4 => exact fun _ => rfl
  | case5 => exact nofun
  | case6 => exact fun _ => rfl
  | case7 quote t ih =>
      intro h
      have hle := read_length_le (.literal quote) t
      rw [List.length_cons, List.length_cons, List.length_cons] at h
      omega
  | case9 quote d t _ ih =>
      intro h
      have hle := read_length_le (.literal quote) t
      rw [List.length_append, List.length_cons, List.length_cons] at h
      rcases escaped_cases d with ⟨-, hescaped⟩ | ⟨-, hlen⟩
      · rw [hescaped] at h ⊢
        have hbytes := ih (by change 2 + _ = _ at h; omega)
        rw [List.map_append, hbytes]
        rfl
      · omega
  | _ =>
      rename_i ih
      exact fun h => congrArg (_ :: ·) (ih (Nat.succ.inj h))

/-! ## Texts between quotes -/

/-- A text that means itself between quotes: no quote in it, and every backslash stands in front of
a wildcard. -/
def IsClean (quote : Byte) : Text → Prop
  | [] => True
  | [c] => c ≠ quote ∧ c ≠ 0x5C
  | c :: d :: t =>
      if c = 0x5C then (d = 0x25 ∨ d = 0x5F) ∧ IsClean quote t
      else c ≠ quote ∧ IsClean quote (d :: t)

instance decidableIsClean (quote : Byte) : (t : Text) → Decidable (IsClean quote t)
  | [] => isTrue trivial
  | [c] => inferInstanceAs (Decidable (c ≠ quote ∧ c ≠ 0x5C))
  | c :: d :: t =>
      have := decidableIsClean quote t
      have := decidableIsClean quote (d :: t)
      inferInstanceAs (Decidable (if c = 0x5C then (d = 0x25 ∨ d = 0x5F) ∧ IsClean quote t
        else c ≠ quote ∧ IsClean quote (d :: t)))

section Literals

variable {quote : Byte} (hquote : quote = 0x27 ∨ quote = 0x22)

include hquote

theorem quote_ne_backslash : quote ≠ 0x5C := by
  rcases hquote with rfl | rfl
  · decide
  · decide

theorem quote_not_wildcard : ¬ (quote = 0x25 ∨ quote = 0x5F) := by
  rcases hquote with rfl | rfl
  · decide
  · decide

/-- A clean text has no quote. -/
theorem IsClean.notMem (a : Text) : IsClean quote a → quote ∉ a := by
  fun_induction IsClean quote a with
  | case1 => exact fun _ => List.not_mem_nil
  | case2 c =>
      rintro ⟨hne, -⟩ hmem
      exact hne (List.mem_singleton.mp hmem).symm
  | case3 d t ih =>
      rintro ⟨hd, hclean⟩ hmem
      rcases List.mem_cons.mp hmem with heq | hmem
      · exact quote_ne_backslash hquote heq
      · rcases List.mem_cons.mp hmem with heq | hmem
        · exact quote_not_wildcard hquote (heq ▸ hd)
        · exact ih hclean hmem
  | case4 c d t hc ih =>
      rintro ⟨hne, hclean⟩ hmem
      rcases List.mem_cons.mp hmem with heq | hmem
      · exact hne heq.symm
      · exact ih hclean hmem

omit hquote in
theorem read_literal_end {rest : Text} (hrest : rest.head? ≠ some quote) :
    read (.literal quote) (quote :: rest) = .quote quote :: read .code rest := by
  cases rest with
  | nil => exact if_pos rfl
  | cons d t =>
      have hd : d ≠ quote := fun heq => hrest (congrArg some heq)
      exact (if_pos rfl).trans (if_neg hd)

/-- A clean text is the value of its literal. -/
theorem read_literal_of_clean {rest : Text} (hrest : rest.head? ≠ some quote) (a : Text) :
    IsClean quote a → read (.literal quote) (a ++ quote :: rest) =
      a.map Symbol.char ++ .quote quote :: read .code rest := by
  fun_induction IsClean quote a with
  | case1 => exact fun _ => read_literal_end hrest
  | case2 c =>
      rintro ⟨hne, hbackslash⟩
      change read (.literal quote) (c :: quote :: rest) = _
      rw [read, if_neg hne, if_neg hbackslash, read_literal_end hrest]
      rfl
  | case3 d t ih =>
      rintro ⟨hd, hclean⟩
      change read (.literal quote) (0x5C :: d :: (t ++ quote :: rest)) = _
      rw [read, if_neg (quote_ne_backslash hquote).symm, if_pos rfl, ih hclean, escaped, if_pos hd]
      rfl
  | case4 c d t hc ih =>
      rintro ⟨hne, hclean⟩
      change read (.literal quote) (c :: d :: (t ++ quote :: rest)) = _
      rw [read, if_neg hne, if_neg hc]
      exact congrArg (_ :: ·) (ih hclean)

/-- A text that is the value of its literal is clean, where nothing behind it was shortened. -/
theorem isClean_of_read {rest : Text} {more : List Symbol} (hlen : more.length = rest.length)
    (a : Text) : read (.literal quote) (a ++ quote :: rest) =
      a.map Symbol.char ++ .quote quote :: more → IsClean quote a := by
  -- The cases are those of a scan: the end, the last character, an escape, a character with one
  -- behind it.
  fun_induction IsClean quote a with
  | case1 => exact fun _ => trivial
  | case2 c =>
      intro h
      change read (.literal quote) (c :: quote :: rest) = .char c :: .quote quote :: more at h
      have hle := read_length_le (.literal quote) rest
      -- A quote or a backslash as the last character would take the closing quote with it.
      refine ⟨?_, ?_⟩
      · rintro rfl
        rw [read, if_pos rfl, if_pos rfl] at h
        have hlength := congrArg List.length h
        simp only [List.length_cons] at hlength
        omega
      · rintro rfl
        rw [read, if_neg (quote_ne_backslash hquote).symm, if_pos rfl] at h
        have hlength := congrArg List.length h
        rcases escaped_cases quote with ⟨hkept, -⟩ | ⟨-, hone⟩
        · exact quote_not_wildcard hquote hkept
        · simp only [List.length_append, List.length_cons, hone] at hlength
          omega
  | case3 d t ih =>
      intro h
      change read (.literal quote) (0x5C :: d :: (t ++ quote :: rest)) =
        .char 0x5C :: .char d :: (t.map Symbol.char ++ .quote quote :: more) at h
      rw [read, if_neg (quote_ne_backslash hquote).symm, if_pos rfl] at h
      rcases escaped_cases d with ⟨hkept, hescaped⟩ | ⟨-, hone⟩
      · rw [hescaped] at h
        -- A kept escape gives both characters back, and the rest is read as before.
        have hrest : read (.literal quote) (t ++ quote :: rest) =
            t.map Symbol.char ++ .quote quote :: more :=
          @List.append_cancel_left _ [.char 0x5C, .char d] _ _ h
        exact ⟨hkept, ih hrest⟩
      · have hlength := congrArg List.length h
        have hle := read_length_le (.literal quote) (t ++ quote :: rest)
        simp only [List.length_append, List.length_cons, List.length_map, hone] at hlength hle
        omega
  | case4 c d t hc ih =>
      intro h
      change read (.literal quote) (c :: d :: (t ++ quote :: rest)) =
        .char c :: ((d :: t).map Symbol.char ++ .quote quote :: more) at h
      have hle := read_length_le (.literal quote) (t ++ quote :: rest)
      by_cases hcq : c = quote
      -- A quote ends the literal, or is doubled and loses a character.
      · exfalso
        rw [read, if_pos hcq] at h
        by_cases hdq : d = quote
        · rw [if_pos hdq] at h
          have hlength := congrArg List.length h
          simp only [List.length_append, List.length_cons, List.length_map] at hlength hle
          omega
        · rw [if_neg hdq] at h
          injection h with hfirst
          cases hfirst
      · rw [read, if_neg hcq, if_neg hc] at h
        exact ⟨hcq, ih (List.cons.inj h).2⟩

/-- The reading of a literal and of what stands behind it. -/
theorem read_literal_iff {a rest : Text} {more : List Symbol} (hrest : rest.head? ≠ some quote)
    (hlen : more.length = rest.length) :
    read (.literal quote) (a ++ quote :: rest) = a.map Symbol.char ++ .quote quote :: more ↔
      IsClean quote a ∧ read .code rest = more := by
  constructor
  · intro h
    have hclean := isClean_of_read hquote hlen a h
    rw [read_literal_of_clean hquote hrest a hclean] at h
    exact ⟨hclean, (List.cons.inj (List.append_cancel_left h)).2⟩
  · rintro ⟨hclean, hread⟩
    rw [read_literal_of_clean hquote hrest a hclean, hread]

end Literals

/-! ## Two literals in a statement -/

/-- A character of code that changes no mode. -/
def IsPlain (c : Byte) : Prop :=
  c ∉ [0x27, 0x22, 0x60, 0x23, 0x2D, 0x2F]

instance (c : Byte) : Decidable (IsPlain c) :=
  inferInstanceAs (Decidable (c ∉ _))

theorem read_code_plain {code : Text} (h : ∀ c ∈ code, IsPlain c) (rest : Text) :
    read .code (code ++ rest) = code.map Symbol.code ++ read .code rest := by
  induction code with
  | nil => rfl
  | cons c code ih =>
      rw [List.forall_mem_cons] at h
      have hc : c ≠ 0x27 ∧ c ≠ 0x22 ∧ c ≠ 0x60 ∧ c ≠ 0x23 ∧ c ≠ 0x2D ∧ c ≠ 0x2F := by
        simpa only [IsPlain, List.mem_cons, List.not_mem_nil, or_false, not_or] using h.1
      have hmode : nextMode c (code ++ rest) = .code := by
        rw [nextMode, if_neg hc.2.2.1, if_neg hc.2.2.2.1, if_neg fun hdash => hc.2.2.2.2.1 hdash.1,
          if_neg fun hslash => hc.2.2.2.2.2 hslash.1]
      rw [List.cons_append, read, if_neg fun hquote => hquote.elim hc.1 hc.2.1, hmode, ih h.2]
      rfl

theorem head?_ne_quote {code : Text} (h : ∀ c ∈ code, IsPlain c) : code.head? ≠ some 0x27 := by
  intro heq
  exact absurd (h 0x27 (List.mem_of_mem_head? heq)) (by decide)

/-- A statement with two literals between three pieces of code. -/
def twoLiterals (c₀ a c₁ b c₂ : Text) : Text :=
  c₀ ++ 0x27 :: (a ++ 0x27 :: (c₁ ++ 0x27 :: (b ++ 0x27 :: c₂)))

/-- The reading of that statement when the literals have the values `a` and `b`. -/
def twoValues (c₀ a c₁ b c₂ : Text) : List Symbol :=
  c₀.map .code ++ .quote 0x27 :: (a.map .char ++ .quote 0x27 :: (c₁.map .code ++
    .quote 0x27 :: (b.map .char ++ .quote 0x27 :: c₂.map .code)))

section TwoLiterals

variable {c₀ c₁ c₂ : Text} (h₀ : ∀ c ∈ c₀, IsPlain c) (h₁ : ∀ c ∈ c₁, IsPlain c)
  (h₂ : ∀ c ∈ c₂, IsPlain c)

theorem length_twoValues (a b : Text) :
    (twoValues c₀ a c₁ b c₂).length = (twoLiterals c₀ a c₁ b c₂).length := by
  simp only [twoValues, twoLiterals, List.length_append, List.length_cons, List.length_map]

theorem map_byte_twoValues (a b : Text) :
    (twoValues c₀ a c₁ b c₂).map Symbol.byte = twoLiterals c₀ a c₁ b c₂ := by
  have hchar : ∀ t : Text, (t.map Symbol.char).map Symbol.byte = t := by
    intro t
    rw [List.map_map]
    exact List.map_id t
  have hcode : ∀ t : Text, (t.map Symbol.code).map Symbol.byte = t := by
    intro t
    rw [List.map_map]
    exact List.map_id t
  simp only [twoValues, twoLiterals, List.map_append, List.map_cons, hchar, hcode, Symbol.byte]

include h₀ h₁ h₂

theorem read_twoLiterals (hne : c₁ ≠ []) (a b : Text) :
    read .code (twoLiterals c₀ a c₁ b c₂) = twoValues c₀ a c₁ b c₂ ↔
      IsClean 0x27 a ∧ IsClean 0x27 b := by
  have hquote : (0x27 : Byte) = 0x27 ∨ (0x27 : Byte) = 0x22 := .inl rfl
  have hopen : ∀ t, read .code (0x27 :: t) = .quote 0x27 :: read (.literal 0x27) t :=
    fun t => if_pos hquote
  have hend : read .code c₂ = c₂.map Symbol.code := by
    have hplain := read_code_plain h₂ []
    rw [List.append_nil] at hplain
    exact hplain.trans (List.append_nil _)
  have hbetween : (c₁ ++ 0x27 :: (b ++ 0x27 :: c₂)).head? ≠ some 0x27 := by
    rw [List.head?_append_of_ne_nil _ hne]
    exact head?_ne_quote h₁
  rw [twoLiterals, twoValues, read_code_plain h₀, hopen, List.append_cancel_left_eq,
    List.cons.injEq, and_iff_right rfl,
    read_literal_iff hquote hbetween (by simp only [List.length_append, List.length_cons,
      List.length_map]), read_code_plain h₁, hopen, List.append_cancel_left_eq, List.cons.injEq,
    and_iff_right rfl, read_literal_iff hquote (head?_ne_quote h₂) (List.length_map _), hend,
    and_iff_left rfl]

/-- A statement reads like another one of its length exactly when it is the other one, and the
values of that one are clean. -/
theorem read_twoLiterals_iff (hne : c₁ ≠ []) {a b a' b' : Text}
    (hlen : a.length + b.length = a'.length + b'.length) :
    read .code (twoLiterals c₀ a c₁ b c₂) = twoValues c₀ a' c₁ b' c₂ ↔
      twoLiterals c₀ a c₁ b c₂ = twoLiterals c₀ a' c₁ b' c₂ ∧
        IsClean 0x27 a' ∧ IsClean 0x27 b' := by
  rw [← read_twoLiterals h₀ h₁ h₂ hne]
  constructor
  · intro h
    -- Nothing was shortened, so the bytes of the two are the same.
    have hcount : (read .code (twoLiterals c₀ a c₁ b c₂)).length =
        (twoLiterals c₀ a c₁ b c₂).length := by
      rw [h, length_twoValues]
      simp only [twoLiterals, List.length_append, List.length_cons]
      omega
    have hbytes := read_bytes _ _ hcount
    rw [h, map_byte_twoValues] at hbytes
    refine ⟨hbytes.symm, ?_⟩
    rw [hbytes]
    exact h
  · rintro ⟨heq, h⟩
    rw [heq]
    exact h

omit h₀ h₁ h₂ in
/-- The first value of a statement ends at the first quote. -/
theorem twoLiterals_left_inj {a b a' b' : Text} (ha : IsClean 0x27 a) (ha' : IsClean 0x27 a')
    (h : twoLiterals c₀ a c₁ b c₂ = twoLiterals c₀ a' c₁ b' c₂) : a = a' := by
  have hvalue : ∀ t rest : Text, IsClean 0x27 t →
      (t ++ 0x27 :: rest).takeWhile (fun c => decide (c ≠ 0x27)) = t := by
    intro t rest ht
    have hnone : ∀ c ∈ t, decide (c ≠ 0x27) = true :=
      fun c hc => decide_eq_true fun heq => ht.notMem (.inl rfl) t (heq ▸ hc)
    rw [List.takeWhile_append_of_pos hnone]
    exact List.append_nil t
  have htail := (List.cons.inj (List.append_cancel_left h)).2
  have hfirst := congrArg (List.takeWhile fun c => decide (c ≠ 0x27)) htail
  rwa [hvalue a _ ha, hvalue a' _ ha'] at hfirst

end TwoLiterals

end SqlText
