import RobotServer.Locations.BaseStation

/-!
# NoPosition — responses without a position

A response is rejected when one of the two extracted texts is an error text.  Where a key is
missing the text is taken from the second character of the response on, and may be anything
(`isValue_missing_iff`); a `null` at the end of an object comes with its closing brace.
`noRecord_iff` says which responses leave no record.
-/

namespace RobotServer

open CText Memory Interaction Search

/-! ## Extracted texts -/

section Values

variable {response : Response} {key value : Text}

/-- Without its key a value is taken from the second character on. -/
theorem isValue_missing_iff (hkey : ¬ key <:+: response.text) :
    IsValue response key value ↔ value.length ≤ 15 ∧ UpTo 0x2C value (response.text.drop 1) := by
  have hstart : ValueStart key response.text 1 := .missing fun p h => hkey h.isInfix
  rw [isValue_iff, ← valueStart_iff.mp hstart]

/-- The value behind a key, a quote and a colon. -/
theorem isValue_found_iff {p : Nat} {rest : Text} (hfirst : IsFirst key response.text p)
    (hdrop : response.text.drop p = key ++ ascii "\":" ++ rest) :
    IsValue response key value ↔ value.length ≤ 15 ∧ UpTo 0x2C value rest := by
  have hrest : response.text.drop (p + key.length + 2) = rest := by
    have hlength : key.length + 2 = (key ++ ascii "\":").length := by
      rw [List.length_append]
      rfl
    rw [Nat.add_assoc, ← List.drop_drop, hdrop, hlength, List.drop_left]
  rw [isValue_iff, ← valueStart_iff.mp (.found hfirst), hrest]

end Values

/-! ## Records -/

/-- The operations that leave something behind: a row, a key, a thread. -/
def Op.isRecord : Op → Bool
  | .execute _ _ => true
  | .redisSet _ _ => true
  | .redisDel _ => true
  | .createThread _ => true
  | _ => false

/-- A published value is a record. -/
theorem exists_record_of_published {trace : List Op} {value : Text}
    (h : value ∈ publishedValues trace) : ∃ o ∈ trace, o.isRecord = true := by
  rcases List.mem_map.mp h with ⟨setting, hsetting, -⟩
  rcases List.mem_filterMap.mp hsetting with ⟨o, ho, hset⟩
  refine ⟨o, ho, ?_⟩
  cases o with
  | redisSet key value => rfl
  | _ => cases hset

section Response

variable {σ : Type} (E : Environment serverInterface σ) (s : σ) (packet : PacketBuffer)
  (behind : Byte) (response : Response) (size nmemb : UInt64)

/-- No row is inserted, no key is changed, and no thread is started. -/
def LeavesNoRecord : Prop :=
  Program.Ensures E (handleData response size nmemb (httpPostInfo packet behind)) s
    fun trace _ _ => ∀ o ∈ trace, o.isRecord = false

variable {E s packet behind response size nmemb}

/-- Where a value is missing the function does not return. -/
theorem values_of_ensures {Q : List Op → UInt64 × LocationMemory → σ → Prop}
    (h : Program.Ensures E (handleData response size nmemb (httpPostInfo packet behind)) s Q) :
    ∃ log lat, IsValue response Coordinate.longitude.key log ∧
      IsValue response Coordinate.latitude.key lat := by
  have hsome : ((handleData response size nmemb
      (httpPostInfo packet behind)).run E s).result.isSome := by
    rcases h with ⟨out, hresult, -⟩
    rw [hresult]
    rfl
  rcases (Program.isSome_result_ofOption_bind E _ _ s).mp hsome with ⟨log, hlog, hrest⟩
  rcases (Program.isSome_result_ofOption_bind E _ _ s).mp hrest with ⟨lat, hlat, -⟩
  rcases (fieldValue_eq_some_iff log).mp hlog with ⟨logText, hlogText, -⟩
  rcases (fieldValue_eq_some_iff lat).mp hlat with ⟨latText, hlatText, -⟩
  exact ⟨logText, latText, hlogText, hlatText⟩

/-- For a device that is not bound nothing is done with a position. -/
theorem handleData_unbound {log lat : Text} (hlog : IsValue response Coordinate.longitude.key log)
    (hlat : IsValue response Coordinate.latitude.key lat) (herror : ¬ FormatError log lat)
    (hbound : ¬ DeviceBound E s (deviceIdText packet)) :
    LeavesNoRecord E s packet behind response size nmemb := by
  have hnone : (E.answer (.redisGet (ascii "R_" ++ deviceIdText packet)) s).1 = none :=
    Option.not_isSome_iff_eq_none.mp hbound
  rw [LeavesNoRecord, handleData, hlog.fieldValue_eq, hlat.fieldValue_eq, Program.ofOption_some,
    Program.ret_bind, Program.ofOption_some, Program.ret_bind, valueText_holdValue hlog,
    valueText_holdValue hlat, if_neg herror]
  dsimp only
  rw [fieldText_deviceId]
  apply Program.Ensures.call
  rw [hnone]
  refine .ret ?_
  intro o ho
  rw [List.mem_singleton.mp ho]
  rfl

/-- A position of a bound device leaves its record. -/
theorem not_leavesNoRecord_position {log lat : Text}
    (hlog : IsValue response Coordinate.longitude.key log)
    (hlat : IsValue response Coordinate.latitude.key lat) (herror : ¬ FormatError log lat)
    (hbound : DeviceBound E s (deviceIdText packet)) :
    ¬ LeavesNoRecord E s packet behind response size nmemb := by
  rintro ⟨_, -, hnone⟩
  rcases @handleData_publishes _ _ _ hlog hlat _ _ _ _ behind herror hbound size nmemb with
    ⟨_, -, hvalues⟩
  rcases exists_record_of_published (hvalues ▸ List.mem_singleton_self _) with ⟨o, ho, hrecord⟩
  rw [hnone o ho] at hrecord
  cases hrecord

theorem leavesNoRecord_iff : LeavesNoRecord E s packet behind response size nmemb ↔
    ∃ log lat, IsValue response Coordinate.longitude.key log ∧
      IsValue response Coordinate.latitude.key lat ∧
        (FormatError log lat ∨ ¬ DeviceBound E s (deviceIdText packet)) := by
  constructor
  · intro h
    rcases values_of_ensures h with ⟨log, lat, hlog, hlat⟩
    refine ⟨log, lat, hlog, hlat, ?_⟩
    by_contra hposition
    rw [not_or, not_not] at hposition
    exact not_leavesNoRecord_position hlog hlat hposition.1 hposition.2 h
  · rintro ⟨log, lat, hlog, hlat, hnothing⟩
    by_cases herror : FormatError log lat
    · rw [LeavesNoRecord, handleData_rejected hlog hlat herror]
      exact .ret fun o ho => absurd ho List.not_mem_nil
    · exact handleData_unbound hlog hlat herror (hnothing.resolve_left herror)

/-- **A response leaves no record exactly when both texts can be extracted and one of them is an
error text, or the device is not bound.  A missing key is looked for at the second character, a
`null` runs on to the next comma.** -/
theorem noRecord_iff :
    (LeavesNoRecord E s packet behind response size nmemb ↔
      ∃ log lat, IsValue response Coordinate.longitude.key log ∧
        IsValue response Coordinate.latitude.key lat ∧
          (FormatError log lat ∨ ¬ DeviceBound E s (deviceIdText packet))) ∧
      ∀ (c : Coordinate) (value : Text),
        (¬ c.key <:+: response.text →
          (IsValue response c.key value ↔
            value.length ≤ 15 ∧ UpTo 0x2C value (response.text.drop 1))) ∧
        ∀ p rest, IsFirst c.key response.text p →
          response.text.drop p = c.key ++ ascii "\":" ++ (ascii "null" ++ rest) →
            (IsValue response c.key value ↔
              value.length ≤ 15 ∧ UpTo 0x2C value (ascii "null" ++ rest)) :=
  ⟨leavesNoRecord_iff, fun _ _ => ⟨isValue_missing_iff, fun _ _ => isValue_found_iff⟩⟩

end Response

/-- An error of the service, without coordinates. -/
def errorResponse : Response where
  text := ascii "\x7b\"result\":null,\"ErrCode\":\"20101\"\x7d"
  terminated := by decide

theorem errorResponse_value (c : Coordinate) :
    IsValue errorResponse c.key (ascii "\"result\":null") := by
  refine isValue_iff.mpr ⟨by decide, by decide, ascii "\"ErrCode\":\"20101\"\x7d", ?_⟩
  cases c with
  | longitude => decide +kernel
  | latitude => decide +kernel

/-- It is stored as a position. -/
theorem errorResponse_recorded :
    (∀ c : Coordinate, ¬ c.key <:+: errorResponse.text) ∧
      ¬ LeavesNoRecord world sampleWorld lbsPacket 0 errorResponse 1 34 := by
  have hid : deviceIdText lbsPacket = deviceIdText samplePacket := by decide +kernel
  refine ⟨?_, ?_⟩
  · intro c
    cases c with
    | longitude => decide +kernel
    | latitude => decide +kernel
  · exact not_leavesNoRecord_position (errorResponse_value .longitude)
      (errorResponse_value .latitude) (by decide) (hid ▸ sampleWorld_bound)

end RobotServer
