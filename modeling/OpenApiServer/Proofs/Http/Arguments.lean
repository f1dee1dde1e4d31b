import OpenApiServer.Http.Body
import OpenApiServer.Http.Param
import OpenApiServer.Proofs.Http.Integer

/-!
# Arguments of requests

Parameters and bodies are bound or refused, each for a reason of its own. A parameter is refused
only for its text. A body is refused for its first failed frame, else for bytes that are no UTF-8,
else for a value of another shape.
-/

namespace OpenApiServer.Http

namespace Param

variable {α : Type} {parser : Parser α} {name raw : String}

theorem parse_eq_ok_iff {a : α} : parse parser name raw = .ok a ↔ parser raw = .ok a :=
  mapError_eq_ok_iff

theorem parse_eq_error_iff {e : RequestError} :
    parse parser name raw = .error e ↔
      ∃ reason, parser raw = .error reason ∧ .invalidParameter name reason = e :=
  mapError_eq_error_iff

theorem optional_eq_ok_iff {query : Query} {value : Option α} :
    optional parser query name = .ok value ↔
      (query.first? name = none ∧ none = value) ∨
        ∃ raw a, query.first? name = some raw ∧ parser raw = .ok a ∧ some a = value := by
  unfold optional
  cases query.first? name with
  | none => simp
  | some raw => simp [map_eq_ok_iff, parse_eq_ok_iff]

theorem optional_eq_error_iff {query : Query} {e : RequestError} :
    optional parser query name = .error e ↔
      ∃ raw reason, query.first? name = some raw ∧ parser raw = .error reason ∧
        .invalidParameter name reason = e := by
  unfold optional
  cases query.first? name with
  | none => simp
  | some raw => simp [map_eq_error_iff, parse_eq_error_iff]

/-- A list of texts is always bound: to all values of its name, or to nothing where no value is. -/
theorem optionalValues_text (query : Query) (name : String) :
    optionalValues .ok query name .repeated =
      .ok (if query.contains name then some (query.all name) else none) := by
  have hall (texts : List String) : texts.mapM (parse .ok name) = .ok texts :=
    mapM_eq_ok_iff.2 (List.forall₂_same.2 fun _ _ => rfl)
  unfold optionalValues
  split
  · rw [elementTexts, hall]
    rfl
  · rfl

end Param

namespace Body

theorem bytes_eq_ok_iff {body : Body} {data : List UInt8} :
    body.bytes = .ok data ↔ ∃ chunks : List (List UInt8),
      body = chunks.map .data ∧ chunks.flatten = data := by
  induction body generalizing data with
  | nil =>
    constructor
    · rintro h
      exact ⟨[], rfl, Except.ok.inj h⟩
    · rintro ⟨chunks, hbody, rfl⟩
      obtain rfl := List.map_eq_nil_iff.1 hbody.symm
      rfl
  | cons frame rest ih =>
    cases frame with
    | data chunk =>
      rw [bytes, map_eq_ok_iff]
      constructor
      · rintro ⟨later, hlater, rfl⟩
        obtain ⟨chunks, rfl, rfl⟩ := ih.1 hlater
        exact ⟨chunk :: chunks, rfl, rfl⟩
      · rintro ⟨chunks, hbody, rfl⟩
        obtain ⟨first, others, rfl, hfirst, rfl⟩ := List.map_eq_cons_iff.1 hbody.symm
        obtain rfl := Frame.data.inj hfirst
        exact ⟨others.flatten, ih.2 ⟨others, rfl, rfl⟩, rfl⟩
    | failed reason =>
      refine iff_of_false nofun ?_
      rintro ⟨chunks, hbody, -⟩
      obtain ⟨first, others, -, hfirst, -⟩ := List.map_eq_cons_iff.1 hbody.symm
      cases hfirst

/-- The first failed frame is the one that is reported. -/
theorem bytes_eq_error_iff {body : Body} {e : RequestError} :
    body.bytes = .error e ↔ ∃ (chunks : List (List UInt8)) (reason : String) (after : Body),
      body = chunks.map .data ++ .failed reason :: after ∧ .readFailed reason = e := by
  induction body with
  | nil => simp [bytes]
  | cons frame rest ih =>
    cases frame with
    | data chunk =>
      rw [bytes, map_eq_error_iff, ih]
      constructor
      · rintro ⟨chunks, reason, after, rfl, rfl⟩
        exact ⟨chunk :: chunks, reason, after, rfl, rfl⟩
      · rintro ⟨chunks, reason, after, hbody, rfl⟩
        cases chunks with
        | nil => cases hbody
        | cons first others =>
          obtain ⟨-, rfl⟩ := List.cons.inj hbody
          exact ⟨others, reason, after, rfl, rfl⟩
    | failed reason =>
      rw [bytes]
      constructor
      · rintro h
        exact ⟨[], reason, rest, rfl, Except.error.inj h⟩
      · rintro ⟨chunks, reason', after, hbody, rfl⟩
        cases chunks with
        | nil =>
          obtain ⟨hframe, -⟩ := List.cons.inj hbody
          rw [Frame.failed.inj hframe]
        | cons first others => cases (List.cons.inj hbody).1

theorem decode_eq_ok_iff {shape : Json.Shape} {data : List UInt8} {j : Json} :
    decode shape data = .ok j ↔
      ∃ text, Utf8.decode data = .ok text ∧ shape.decode text = .ok j := by
  unfold decode
  cases Utf8.decode data with
  | error fault => simp
  | ok text => simp [mapError_eq_ok_iff]

theorem json_eq_ok_iff {shape : Json.Shape} {body : Body} {j : Json} :
    body.json shape = .ok j ↔ ∃ (chunks : List (List UInt8)) (text : List Char),
      body = chunks.map .data ∧ Utf8.decode chunks.flatten = .ok text ∧
        shape.decode text = .ok j := by
  simp only [json, bind_eq_ok_iff, bytes_eq_ok_iff, decode_eq_ok_iff]
  constructor
  · rintro ⟨data, ⟨chunks, hbody, rfl⟩, text, htext, hj⟩
    exact ⟨chunks, text, hbody, htext, hj⟩
  · rintro ⟨chunks, text, hbody, htext, hj⟩
    exact ⟨_, ⟨chunks, hbody, rfl⟩, text, htext, hj⟩

/-- Why a body is refused. -/
inductive Refused (shape : Json.Shape) : Body → RequestError → Prop where
  | unread (chunks : List (List UInt8)) (reason : String) (after : Body) :
    Refused shape (chunks.map .data ++ .failed reason :: after) (.readFailed reason)
  | encoding {chunks : List (List UInt8)} {fault : Utf8.Fault}
    (bytes : Utf8.decode chunks.flatten = .error fault) :
    Refused shape (chunks.map .data) (.badEncoding fault)
  | shape {chunks : List (List UInt8)} {text : List Char} {failure : Json.Failure}
    (bytes : Utf8.decode chunks.flatten = .ok text) (other : shape.decode text = .error failure) :
    Refused shape (chunks.map .data)
      (.invalidInput (Json.pathText failure.path) (failure.message text))

theorem Refused.classified {shape : Json.Shape} {body : Body} {e : RequestError}
    (h : Refused shape body e) :
    (e.status, e.code) = (400, "read_failed") ∨ (e.status, e.code) = (400, "encoding_error") ∨
      (e.status, e.code) = (422, "invalid_input") := by
  cases h with
  | unread => exact .inl rfl
  | encoding => exact .inr (.inl rfl)
  | shape => exact .inr (.inr rfl)

theorem json_eq_error_iff {shape : Json.Shape} {body : Body} {e : RequestError} :
    body.json shape = .error e ↔ Refused shape body e := by
  rw [json, bind_eq_error_iff, bytes_eq_error_iff]
  constructor
  · rintro (⟨chunks, reason, after, rfl, rfl⟩ | ⟨data, hdata, h⟩)
    · exact .unread chunks reason after
    · obtain ⟨chunks, rfl, rfl⟩ := bytes_eq_ok_iff.1 hdata
      unfold decode at h
      split at h
      next fault hfault =>
        obtain rfl := Except.error.inj h
        exact .encoding hfault
      next text htext =>
        obtain ⟨failure, hfailure, rfl⟩ := mapError_eq_error_iff.1 h
        exact .shape htext hfailure
  · intro h
    cases h with
    | unread chunks reason after => exact .inl ⟨chunks, reason, after, rfl, rfl⟩
    | @encoding chunks fault hfault =>
      refine .inr ⟨chunks.flatten, bytes_eq_ok_iff.2 ⟨chunks, rfl, rfl⟩, ?_⟩
      simp only [decode, hfault]
    | @shape chunks text failure htext hfailure =>
      refine .inr ⟨chunks.flatten, bytes_eq_ok_iff.2 ⟨chunks, rfl, rfl⟩, ?_⟩
      simp only [decode, htext]
      exact mapError_eq_error_iff.2 ⟨failure, hfailure, rfl⟩

end Body

end OpenApiServer.Http
