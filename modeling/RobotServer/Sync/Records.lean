import RobotServer.Sync.Commands

/-!
# Records — the fields of a job

A job gets its two fields as json-c prints them: the number in decimal, the string between quotes
and with escapes.  The loop that takes the quotes off shifts the text to the left until it meets
the next quote (`unquote_quoted`); what it leaves is the text before that quote.
-/

namespace RobotServer

namespace SyncData

open CText Memory Interaction

/-! ## Buffers -/

theorem strcpy_of_lt {t : Text} (h : t.length < 20) :
    strcpy t = some ((Cells.fill 0).place 0 (t ++ [0])) :=
  if_pos h

/-- A text at the head of a buffer, with its terminator. -/
theorem bufferText_place (buffer : TextBuffer) {t : Text} (hzero : (0 : Byte) ∉ t) (u : Text)
    (hlen : (t ++ 0 :: u).length ≤ 20) : bufferText (buffer.place 0 (t ++ 0 :: u)) = t := by
  have hslice := @Cells.slice_place_over 20 Byte _ buffer (t ++ 0 :: u) 0 20
    (by rw [Nat.zero_add]; exact hlen) le_rfl
  rw [bufferText, hslice, List.drop_zero, List.append_assoc, List.cons_append,
    cstr_append_zero hzero]

theorem bufferText_strcpy {t : Text} (hlen : t.length < 20) (hzero : (0 : Byte) ∉ t) :
    bufferText ((Cells.fill 0).place 0 (t ++ [0])) = t :=
  bufferText_place _ hzero [] (by rw [List.length_append]; exact hlen)

/-! ## Quotes -/

section Unquote

variable {first : Byte} {body rest : Text}

/-- The buffer after the text was copied. -/
def quotedBuffer (first : Byte) (body rest : Text) : TextBuffer :=
  (Cells.fill 0).place 0 ((first :: (body ++ 0x22 :: rest)) ++ [0])

/-- The characters up to the second quote. -/
theorem quotedBuffer_peek (hlen : (first :: (body ++ 0x22 :: rest)).length < 20) {i : Nat}
    (hi : i < body.length + 1) :
    (quotedBuffer first body rest).peek (i + 1) = (body ++ [0x22]).getD i 0 := by
  simp only [List.length_cons, List.length_append] at hlen
  have hpeek := Cells.peek_place_add (Cells.fill 0 : TextBuffer) 0
    ((first :: (body ++ 0x22 :: rest)) ++ [0]) (show 0 + (i + 1) < 20 by omega) (by simp; omega)
  rw [Nat.zero_add] at hpeek
  have htext : first :: (body ++ 0x22 :: rest) ++ [0] =
      first :: ((body ++ [0x22]) ++ (rest ++ [0])) := by simp
  rw [quotedBuffer, hpeek, htext, List.getD_cons_succ, List.getD_append _ _ _ _ (by simp; omega)]
  rfl

/-- The loop moves the text behind the first character to the head, up to the quote. -/
theorem unquoteLoop_quoted (hquote : (0x22 : Byte) ∉ body)
    (hlen : (first :: (body ++ 0x22 :: rest)).length < 20) (k : Nat) :
    ∀ i, i + k = body.length →
      unquoteLoop (19 - i) ((quotedBuffer first body rest).place 0 (body.take i)) =
        some (body.length + 1, (quotedBuffer first body rest).place 0 body) := by
  have hshort : body.length + 2 < 20 := by
    simp only [List.length_cons, List.length_append] at hlen
    omega
  -- The character under the index is not moved yet.
  have hread : ∀ i, i < body.length + 1 →
      ((quotedBuffer first body rest).place 0 (body.take i)).get? ((i + 1 : Nat) : Int) =
        some ((body ++ [0x22]).getD i 0) := by
    intro i hi
    rw [Cells.get?_of_lt (by omega), Cells.peek_place_of_le (by omega)
      (by rw [List.length_take]; omega), quotedBuffer_peek hlen hi]
  induction k with
  | zero =>
      intro i hi
      have hi' : i = body.length := hi
      obtain ⟨rounds, hrounds⟩ : ∃ rounds, 19 - i = rounds + 1 := ⟨18 - i, by omega⟩
      have hindex : 19 - rounds = i + 1 := by omega
      have hend : (body ++ [0x22]).getD i 0 = 0x22 := by
        rw [hi', List.getD_append_right _ _ _ _ le_rfl, Nat.sub_self]
        rfl
      have hget := hread i (by omega)
      rw [hend] at hget
      rw [hrounds, unquoteLoop]
      simp only [hindex, hget]
      rw [hi', List.take_length]
      rfl
  | succ k ih =>
      intro i hi
      have hlt : i < body.length := by omega
      obtain ⟨rounds, hrounds⟩ : ∃ rounds, 19 - i = rounds + 1 := ⟨18 - i, by omega⟩
      have hindex : 19 - rounds = i + 1 := by omega
      have hget := hread i (by omega)
      rw [List.getD_append _ _ _ _ hlt, List.getD_eq_getElem _ _ hlt] at hget
      have hne : body[i] ≠ 0x22 := fun heq => hquote (heq ▸ List.getElem_mem hlt)
      have hset : ((quotedBuffer first body rest).place 0 (body.take i)).set? ((i : Nat) : Int)
          body[i] = some ((quotedBuffer first body rest).place 0 (body.take (i + 1))) := by
        have hplace := Cells.place_place (quotedBuffer first body rest) 0 (body.take i) [body[i]]
        rw [List.length_take, Nat.min_eq_left hlt.le, Nat.zero_add] at hplace
        rw [Cells.set?_of_lt (by omega), hplace, List.take_append_getElem hlt]
      have hnext := ih (i + 1) (by omega)
      have hrounds' : 19 - (i + 1) = rounds := by omega
      rw [hrounds'] at hnext
      rw [hrounds, unquoteLoop]
      simp only [hindex, hget, Nat.add_sub_cancel]
      change (if body[i] = 0x22 then _ else _) = _
      rw [if_neg hne, hset]
      exact hnext

/-- What is left is the text between the first two quotes. -/
theorem unquote_quoted (hquote : (0x22 : Byte) ∉ body) (hzero : (0 : Byte) ∉ body)
    (hlen : (first :: (body ++ 0x22 :: rest)).length < 20) :
    ∃ buffer, unquote (quotedBuffer first body rest) = some buffer ∧ bufferText buffer = body := by
  have hshort : body.length + 2 < 20 := by
    simp only [List.length_cons, List.length_append] at hlen
    omega
  have hloop := unquoteLoop_quoted hquote hlen body.length 0 (Nat.zero_add _)
  rw [List.take_zero, Cells.place_nil, Nat.sub_zero] at hloop
  have hfirst := Cells.place_place (quotedBuffer first body rest) 0 body [0]
  have hsecond := Cells.place_place (quotedBuffer first body rest) 0 (body ++ [0]) [0]
  rw [Nat.zero_add] at hfirst hsecond
  rw [List.length_append, List.length_singleton, List.append_assoc] at hsecond
  refine ⟨(quotedBuffer first body rest).place 0 (body ++ 0 :: [0]), ?_, ?_⟩
  · rw [unquote, hloop]
    change (((quotedBuffer first body rest).place 0 body).set? ((body.length : Nat) : Int) 0 >>=
      fun valueName => valueName.set? ((body.length + 1 : Nat) : Int) 0) = _
    rw [Cells.set?_of_lt (by omega), hfirst]
    change ((quotedBuffer first body rest).place 0 (body ++ [0])).set? _ 0 = _
    rw [Cells.set?_of_lt (by omega), hsecond]
    rfl
  · have hroom : (body ++ 0 :: [0]).length ≤ 20 := by
      rw [List.length_append]
      exact hshort.le
    exact bufferText_place _ hzero [0] hroom

end Unquote

/-! ## The two fields -/

/-- `EAGLE_USER_NAME` or `EAGLE_DEVICE_ID` -/
def nameField : RecordType → Text
  | .userinfo => ascii "UserName"
  | .userAndDeviceRelationship => ascii "DeviceId"

theorem parserJsonTokener_eq {json : JsonC} {text : Text} {object : json.Object}
    (hparse : json.parse text = some object) (type : RecordType) :
    parserJsonTokener json text type = (do
      let valueName ← strcpy (json.print (json.objectGet object (nameField type)))
      let valueId ← strcpy (json.print (json.objectGet object (ascii "UserId")))
      let valueName ← unquote valueName
      some (bufferText valueId, bufferText valueName)) := by
  cases type with
  | userinfo =>
      rw [parserJsonTokener, hparse]
      rfl
  | userAndDeviceRelationship =>
      rw [parserJsonTokener, hparse]
      rfl

/-- What a job makes of its two fields: the texts must fit their buffers. -/
theorem parserJsonTokener_printed {json : JsonC} {text : Text} {object : json.Object}
    (hparse : json.parse text = some object) {type : RecordType} {id : Text} {first : Byte}
    {body rest : Text}
    (hname : json.print (json.objectGet object (nameField type)) = first :: (body ++ 0x22 :: rest))
    (hid : json.print (json.objectGet object (ascii "UserId")) = id)
    (hquote : (0x22 : Byte) ∉ body) (hzero : (0 : Byte) ∉ body) (hidzero : (0 : Byte) ∉ id) :
    parserJsonTokener json text type =
      if (first :: (body ++ 0x22 :: rest)).length < 20 ∧ id.length < 20 then some (id, body)
      else none := by
  rw [parserJsonTokener_eq hparse, hname, hid]
  by_cases hlen : (first :: (body ++ 0x22 :: rest)).length < 20
  · by_cases hidlen : id.length < 20
    · rcases unquote_quoted hquote hzero hlen with ⟨buffer, hunquote, hbuffer⟩
      rw [if_pos ⟨hlen, hidlen⟩, strcpy_of_lt hlen, strcpy_of_lt hidlen]
      change (unquote (quotedBuffer first body rest) >>= fun valueName =>
        some (bufferText ((Cells.fill 0).place 0 (id ++ [0])), bufferText valueName)) = _
      rw [hunquote, bufferText_strcpy hidlen hidzero]
      exact congrArg (fun name => some (id, name)) hbuffer
    · rw [if_neg fun h => hidlen h.2, strcpy_of_lt hlen, strcpy, if_neg hidlen]
      rfl
  · rw [if_neg fun h => hlen h.1, strcpy, if_neg hlen]
    rfl

/-! ## A reader of records -/

/-- json-c as far as a record of a number and a string without escapes asks for it: an object is
the record of the two fields or the printed text of one of them. -/
def recordJson (field : Text) (esc : Byte → Text) : JsonC where
  Object := (Text × Text) ⊕ Text
  parse t :=
    let fields := t.drop 10
    some (.inl (fields.takeWhile isDigit,
      ((fields.dropWhile isDigit).drop 13).takeWhile fun c => c ≠ 0x22))
  objectGet
    | .inl (id, s), name =>
        if name = ascii "UserId" then some (.inr id)
        else if name = field then some (.inr (0x22 :: (s.flatMap esc ++ [0x22])))
        else none
    | .inr _, _ => none
  toJsonString
    | .inl (id, _) => id
    | .inr t => t

theorem recordJson_parse (field : Text) (esc : Byte → Text) (separator : Text)
    (hlen : separator.length = 12) (n : Nat) {s : Text} (hs : ∀ c ∈ s, c ≠ 0x22) :
    (recordJson field esc).parse
        (ascii "\x7b\"UserId\":" ++ natText n ++ 0x2C :: separator ++ s ++ ascii "\"\x7d") =
      some (.inl (natText n, s)) := by
  have htext : (ascii "\x7b\"UserId\":" ++ natText n ++ 0x2C :: separator ++ s ++
      ascii "\"\x7d").drop 10 = natText n ++ 0x2C :: (separator ++ (s ++ ascii "\"\x7d")) := by
    simp only [List.append_assoc, List.cons_append]
    exact List.drop_left' rfl
  have hdigits : ∀ c ∈ natText n, isDigit c = true := isDigit_natText n
  have hname : ∀ c ∈ s, decide (c ≠ 0x22) = true := fun c hc => decide_eq_true (hs c hc)
  have hid : (natText n ++ 0x2C :: (separator ++ (s ++ ascii "\"\x7d"))).takeWhile isDigit =
      natText n := by
    rw [List.takeWhile_append_of_pos hdigits]
    exact List.append_nil _
  have hrest : ((natText n ++ 0x2C :: (separator ++ (s ++ ascii "\"\x7d"))).dropWhile
      isDigit).drop 13 = s ++ ascii "\"\x7d" := by
    rw [List.dropWhile_append_of_pos hdigits]
    exact List.drop_left' hlen
  have hstring : (s ++ ascii "\"\x7d").takeWhile (fun c => decide (c ≠ 0x22)) = s := by
    rw [List.takeWhile_append_of_pos hname]
    exact List.append_nil _
  unfold recordJson
  dsimp only
  rw [htext, hid, hrest, hstring]

end SyncData

end RobotServer
