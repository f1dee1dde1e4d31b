import OpenApiServer.Proofs.Http.Arguments
import OpenApiServer.Proofs.Json.Accepting
import OpenApiServer.Proofs.Text.Utf8

/-!
# Which bodies are decoded

A body decoded as any JSON value is accepted if it is UTF-8 and its text starts with a value. What
stands after the value is not looked at, so an accepted body is one value alone only where its text
ends with the value.

## Bodies in frames

A body is read whole before anything is decoded. So a failed frame is reported by every reader, and
without one the readers see the joined bytes alone: where the frames were cut, be it in the middle
of a character, cannot be told from any answer.
-/

namespace OpenApiServer.Http

namespace Frame

/-- The bytes that a frame brings. A failed frame brings none. -/
def bytes : Frame → List UInt8
  | .data chunk => chunk
  | .failed _ => []

def failure? : Frame → Option String
  | .data _ => none
  | .failed reason => some reason

end Frame

namespace Body

variable {shape : Json.Shape} {body : Body} {reason : String}

/-- The bytes of all frames one after the other. -/
def joined (body : Body) : List UInt8 := body.flatMap Frame.bytes

/-- The reason of the first frame that failed. -/
def failure? (body : Body) : Option String := body.findSome? Frame.failure?

theorem exists_failure? (h : .failed reason ∈ body) : ∃ first, body.failure? = some first := by
  apply Option.isSome_iff_exists.1
  rw [failure?, List.findSome?_isSome_iff]
  exact ⟨.failed reason, h, rfl⟩

theorem failure?_eq_none (h : ∀ reason, .failed reason ∉ body) : body.failure? = none := by
  rw [failure?, List.findSome?_eq_none_iff]
  intro frame hframe
  cases frame with
  | data chunk => rfl
  | failed reason => exact absurd hframe (h reason)

/-- Reading the frames gives the reason of the first failure, or else the joined bytes. -/
theorem bytes_eq (body : Body) :
    body.bytes = match body.failure? with
      | some reason => .error (.readFailed reason)
      | none => .ok body.joined := by
  induction body with
  | nil => rfl
  | cons frame rest ih =>
    cases frame with
    | failed reason => rfl
    | data chunk =>
      have hfailure : failure? (.data chunk :: rest) = failure? rest := rfl
      have hjoined : joined (.data chunk :: rest) = chunk ++ joined rest := rfl
      rw [bytes, ih, hfailure, hjoined]
      cases failure? rest <;> rfl

theorem bytes_of_failure (h : body.failure? = some reason) :
    body.bytes = .error (.readFailed reason) := by
  rw [bytes_eq, h]

theorem bytes_of_data (h : body.failure? = none) : body.bytes = .ok body.joined := by
  rw [bytes_eq, h]

theorem json_of_failure (h : body.failure? = some reason) :
    body.json shape = .error (.readFailed reason) := by
  rw [json, bytes_of_failure h]
  rfl

theorem json_of_data (h : body.failure? = none) : body.json shape = decode shape body.joined := by
  rw [json, bytes_of_data h]
  rfl

theorem optionalJson_of_failure (h : body.failure? = some reason) :
    body.optionalJson shape = .error (.readFailed reason) := by
  rw [optionalJson, bytes_of_failure h]
  rfl

theorem optionalJson_of_data (h : body.failure? = none) :
    body.optionalJson shape =
      if body.joined.all isBlankByte then .ok none else some <$> decode shape body.joined := by
  rw [optionalJson, bytes_of_data h]
  rfl

/-- A decoded value is a value, be it null: only blanks stand for an absent one. -/
theorem optionalJson_eq_none_iff (h : body.failure? = none) :
    body.optionalJson shape = .ok none ↔ ∀ b ∈ body.joined, isBlankByte b = true := by
  rw [optionalJson_of_data h, ← List.all_eq_true]
  by_cases hblank : body.joined.all isBlankByte = true
  · rw [if_pos hblank]
    exact iff_of_true rfl hblank
  · rw [if_neg hblank]
    refine iff_of_false ?_ hblank
    intro hnone
    obtain ⟨j, -, hj⟩ := map_eq_ok_iff.1 hnone
    cases hj

/-- If a frame failed, all readers report the first failure, whatever the other frames hold.
Otherwise their answers depend on the joined bytes alone, so that it makes no difference where the
bytes are cut into frames. An optional value is absent if these bytes are blanks, and else it is
read as one that has to be there. -/
theorem readers_see_joined_bytes (shape : Json.Shape) (body : Body) :
    (∀ reason, .failed reason ∈ body → ∃ first, body.failure? = some first ∧
      body.bytes = .error (.readFailed first) ∧ body.json shape = .error (.readFailed first) ∧
        body.optionalJson shape = .error (.readFailed first)) ∧
    ((∀ reason, .failed reason ∉ body) →
      body.bytes = .ok body.joined ∧ body.json shape = decode shape body.joined ∧
      (body.optionalJson shape = .ok none ↔ ∀ b ∈ body.joined, isBlankByte b = true) ∧
      ((∃ b ∈ body.joined, isBlankByte b = false) →
        body.optionalJson shape = some <$> body.json shape) ∧
      ∀ other : Body, (∀ reason, .failed reason ∉ other) → other.joined = body.joined →
        other.bytes = body.bytes ∧ other.json shape = body.json shape ∧
          other.optionalJson shape = body.optionalJson shape) := by
  constructor
  · intro reason hfailed
    obtain ⟨first, hfirst⟩ := exists_failure? hfailed
    exact ⟨first, hfirst, bytes_of_failure hfirst, json_of_failure hfirst,
      optionalJson_of_failure hfirst⟩
  · intro hdata
    have hnone := failure?_eq_none hdata
    refine ⟨bytes_of_data hnone, json_of_data hnone, optionalJson_eq_none_iff hnone, ?_, ?_⟩
    · rintro ⟨b, hb, hfilled⟩
      have hblank : ¬body.joined.all isBlankByte = true := by
        intro hall
        rw [List.all_eq_true.1 hall b hb] at hfilled
        cases hfilled
      rw [optionalJson_of_data hnone, if_neg hblank, json_of_data hnone]
    · intro other hother hjoined
      have hnone' := failure?_eq_none hother
      rw [bytes_of_data hnone', bytes_of_data hnone, json_of_data hnone', json_of_data hnone,
        optionalJson_of_data hnone', optionalJson_of_data hnone, hjoined]
      exact ⟨rfl, rfl, rfl⟩

/-- A character whose two bytes arrive in two frames, and a frame that fails after them. -/
theorem cut_character_read :
    let whole : Body := [.data [0x22, 0xc3, 0xa9, 0x22]]
    let cut : Body := [.data [0x22, 0xc3], .data [0xa9, 0x22]]
    (∀ reason, .failed reason ∉ cut) ∧ cut.joined = whole.joined ∧
      cut.json .text = .ok (.str "é") ∧ cut.optionalJson .text = .ok (some (.str "é")) ∧
      optionalJson .text (cut ++ [.failed "reset"]) = .error (.readFailed "reset") := by
  intro whole cut
  have hdata : ∀ reason, .failed reason ∉ cut := by simp [cut]
  have hdata' : ∀ reason, .failed reason ∉ whole := by simp [whole]
  have hread : whole.json .text = .ok (.str "é") := rfl
  obtain ⟨-, -, -, hpresent, -⟩ := (readers_see_joined_bytes .text cut).2 hdata
  obtain ⟨-, -, -, -, hcuts⟩ := (readers_see_joined_bytes .text whole).2 hdata'
  obtain ⟨-, hcut, -⟩ := hcuts cut hdata rfl
  obtain ⟨first, hfirst, -, -, hfailed⟩ :=
    (readers_see_joined_bytes .text (cut ++ [.failed "reset"])).1 "reset" (by simp)
  obtain rfl : "reset" = first := Option.some.inj hfirst
  have hfilled : ∃ b ∈ cut.joined, isBlankByte b = false := ⟨0x22, by decide, rfl⟩
  refine ⟨hdata, rfl, hcut.trans hread, ?_, hfailed⟩
  rw [hpresent hfilled, hcut, hread]
  rfl

end Body

end OpenApiServer.Http

/-! ## Bodies as values -/

namespace OpenApiServer.Http.Body

open Json

variable {data : List UInt8} {text : List Char}

theorem exists_decode_text_iff : (∃ j, Shape.any.decode text = .ok j) ↔ StartsWithValue text := by
  rw [← exists_value_iff]
  constructor
  · rintro ⟨j, h⟩
    obtain ⟨read, hread, -⟩ := bind_eq_ok_iff.1 h
    exact ⟨read, hread⟩
  · rintro ⟨read, hread⟩
    exact ⟨read.1, bind_eq_ok_iff.2 ⟨read, hread, rfl⟩⟩

theorem exists_decode_iff :
    (∃ j, decode .any data = .ok j) ↔ ∃ text, StartsWithValue text ∧ data = Utf8.encode text := by
  simp only [decode_eq_ok_iff, Utf8.decode_eq_ok_iff, ← exists_decode_text_iff]
  constructor
  · rintro ⟨j, text, hdata, hj⟩
    exact ⟨text, ⟨j, hj⟩, hdata⟩
  · rintro ⟨text, ⟨j, hj⟩, hdata⟩
    exact ⟨j, text, hdata, hj⟩

theorem decode_eq_error {e : RequestError} (h : decode .any data = .error e) :
    (e.code = "encoding_error" ∧ ∀ text, data ≠ Utf8.encode text) ∨
      e.code = "invalid_input" ∧ ∃ text, ¬StartsWithValue text ∧ data = Utf8.encode text := by
  unfold decode at h
  split at h
  next fault hfault =>
    obtain rfl := Except.error.inj h
    refine .inl ⟨rfl, fun text hdata => ?_⟩
    cases (Utf8.decode_eq_ok_iff.2 hdata).symm.trans hfault
  next text htext =>
    obtain ⟨failure, hfailure, rfl⟩ := mapError_eq_error_iff.1 h
    refine .inr ⟨rfl, text, fun hstarts => ?_, Utf8.decode_eq_ok_iff.1 htext⟩
    obtain ⟨j, hj⟩ := exists_decode_text_iff.2 hstarts
    cases hj.symm.trans hfailure

/-- A body is decoded if it is the UTF-8 of a text that starts with a value, and refused for its
encoding or its text otherwise. So to decode a body means that it is one value between blanks,
unless its text goes on after the value. -/
theorem decode_any_iff (data : List UInt8) :
    ((∃ j, decode .any data = .ok j) ↔
      ∃ text, StartsWithValue text ∧ data = Utf8.encode text) ∧
    (∀ e, decode .any data = .error e →
      (e.code = "encoding_error" ∧ ∀ text, data ≠ Utf8.encode text) ∨
        e.code = "invalid_input" ∧ ∃ text, ¬StartsWithValue text ∧ data = Utf8.encode text) ∧
    (((∃ j, decode .any data = .ok j) ↔ ∃ text, IsDocument text ∧ data = Utf8.encode text) ↔
      ∀ text, data = Utf8.encode text → StartsWithValue text → IsDocument text) := by
  refine ⟨exists_decode_iff, fun e h => decode_eq_error h, ?_⟩
  rw [exists_decode_iff]
  constructor
  · rintro hwhole text rfl hstarts
    obtain ⟨text', hdocument, heq⟩ := hwhole.1 ⟨text, hstarts, rfl⟩
    rwa [Utf8.encode_injective heq]
  · intro hwhole
    constructor
    · rintro ⟨text, hstarts, rfl⟩
      exact ⟨text, hwhole text rfl hstarts, rfl⟩
    · rintro ⟨text, hdocument, rfl⟩
      exact ⟨text, hdocument.startsWithValue, rfl⟩

theorem truths_decoded :
    ∃ j, decode .any (Utf8.encode ['[', 't', 'r', 'u', 'e', ']', ' ']) = .ok j := by
  have hnone : Blank [] := by decide
  have hlist : IsValue maxDepth ['[', 't', 'r', 'u', 'e', ']'] :=
    .inr (.inl (.filled hnone (.last (isValue_of_scalar .true) hnone)))
  have hdocument : IsDocument ['[', 't', 'r', 'u', 'e', ']', ' '] :=
    .intro hnone hlist (by decide)
  exact (decode_any_iff _).1.2 ⟨_, hdocument.startsWithValue, rfl⟩

/-- A second value after the first one is not noticed. -/
theorem second_value_unnoticed :
    (∃ j, decode .any (Utf8.encode ['1', ' ', '2']) = .ok j) ∧
      ¬∃ text, IsDocument text ∧ Utf8.encode ['1', ' ', '2'] = Utf8.encode text := by
  constructor
  · exact ⟨_, rfl⟩
  · rintro ⟨text, hdocument, heq⟩
    obtain rfl := Utf8.encode_injective heq
    obtain ⟨v, hv⟩ := exists_parse_iff.2 hdocument
    cases hv

end OpenApiServer.Http.Body
