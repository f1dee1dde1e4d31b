import OpenApiServer.Proofs.Items.Arguments

/-!
# How requests to the item service are answered

A request is answered by the operation that it calls, or by an error for its path, its method or its
arguments. Only an operation can change the state. An application can record the calls of its
operations, and what it has recorded after a request shows that at most one of them ran.
-/

namespace OpenApiServer.Items
open Http

/-- The response reports an error with this status and this code. -/
def Reports (response : Response) (status : Nat) (code : String) : Prop :=
  response.status = status ∧ ∃ message : String, response.body =
    Utf8.encode (Json.obj [("error", .str code), ("message", .str message)]).print

theorem reports_toResponse (e : RequestError) : Reports e.toResponse e.status e.code :=
  ⟨rfl, e.message, rfl⟩

theorem Refuses.classified {request : Request} {target : Target} {e : RequestError}
    (h : Refuses request target e) :
    (e.status, e.code) ∈ [(400, "invalid_parameter"), (400, "read_failed"),
      (400, "encoding_error"), (422, "invalid_input")] := by
  cases h with
  | limit => simp [RequestError.status, RequestError.code]
  | id => simp [RequestError.status, RequestError.code]
  | body refused =>
    rcases refused.classified with h | h | h
    all_goals simp [h]

namespace Api

variable {σ : Type} (api : Api σ)

/-- The application that also keeps the calls of its operations, in their order. -/
def recording : Api (σ × List Call) where
  listItems limit tag s :=
    ((api.listItems limit tag s.1).1, (api.listItems limit tag s.1).2,
      s.2 ++ [.listItems limit tag])
  createItem item s :=
    ((api.createItem item s.1).1, (api.createItem item s.1).2, s.2 ++ [.createItem item])
  getItem id s := ((api.getItem id s.1).1, (api.getItem id s.1).2, s.2 ++ [.getItem id])

/-- The calls of operations that a request leads to. -/
def invoked (request : Request) (state : σ) : List Call :=
  (api.recording.handle request (state, [])).2.2

/-- The operation of the call fails and leaves this state. -/
inductive Fails (state : σ) : Call → String → σ → Prop where
  | listItems {limit : Option Nat} {tag : Option (List String)} {reason : String} {after : σ}
    (failed : api.listItems limit tag state = (.error reason, after)) :
    Fails state (.listItems limit tag) reason after
  | createItem {item : NewItem} {reason : String} {after : σ}
    (failed : api.createItem item state = (.error reason, after)) :
    Fails state (.createItem item) reason after
  | getItem {id : Int} {reason : String} {after : σ}
    (failed : api.getItem id state = (.error reason, after)) :
    Fails state (.getItem id) reason after

/-- Recording does not change what an operation does. -/
theorem run_recording (call : Call) (state : σ) (calls : List Call) :
    api.recording.run call (state, calls) =
      ((api.run call state).1, (api.run call state).2, calls ++ [call]) := by
  cases call with
  | listItems limit tag =>
    simp only [run, recording]
    rcases api.listItems limit tag state with ⟨_ | _, after⟩ <;> rfl
  | createItem item =>
    simp only [run, recording]
    rcases api.createItem item state with ⟨_ | _, after⟩ <;> rfl
  | getItem id =>
    simp only [run, recording]
    rcases api.getItem id state with ⟨_ | _, after⟩ <;> rfl

theorem handle_of_ok {request : Request} {call : Call} (h : callOf request = .ok call) (state : σ) :
    api.handle request state = api.run call state ∧ api.invoked request state = [call] := by
  simp only [invoked, handle, h, run_recording, List.nil_append, and_self]

/-- Without a call, no operation runs and the answer is the error. -/
theorem handle_of_error {request : Request} {e : RequestError} (h : callOf request = .error e)
    (state : σ) :
    api.invoked request state = [] ∧ (api.handle request state).2 = state ∧
      Reports (api.handle request state).1 e.status e.code := by
  have hanswer : api.handle request state = (e.toResponse, state) := by simp only [handle, h]
  have hinvoked : api.invoked request state = [] := by simp only [invoked, handle, h]
  rw [hanswer]
  exact ⟨hinvoked, rfl, reports_toResponse e⟩

theorem length_invoked_le (request : Request) (state : σ) :
    (api.invoked request state).length ≤ 1 := by
  cases hcall : callOf request with
  | ok call => simp [(api.handle_of_ok hcall state).2]
  | error e => simp [(api.handle_of_error hcall state).1]

variable {api} in
theorem Fails.reports {state after : σ} {call : Call} {reason : String}
    (h : api.Fails state call reason after) :
    (api.run call state).2 = after ∧ Reports (api.run call state).1 500 "operation_failed" := by
  have hrun : api.run call state = ((RequestError.operationFailed reason).toResponse, after) := by
    cases h with
    | listItems failed => simp only [run, failed]
    | createItem failed => simp only [run, failed]
    | getItem failed => simp only [run, failed]
  rw [hrun]
  exact ⟨rfl, reports_toResponse (.operationFailed reason)⟩

end Api

/-- What a request comes to: at most one operation runs, and it runs exactly when the arguments of
the route bind. Otherwise the state stays as it is and the answer reports the path, the method or
the argument. -/
theorem handle_outcome {σ : Type} (api : Api σ) (state : σ) (request : Request) :
    let path := request.uri.path
    let answer := api.handle request state
    let invoked := api.invoked request state
    invoked.length ≤ 1 ∧
    (getRoutes.at? path = none → postRoutes.at? path = none →
      invoked = [] ∧ answer.2 = state ∧ Reports answer.1 404 "not_found") ∧
    ((getRoutes.at? path).isSome ∨ (postRoutes.at? path).isSome → ¬ Routed request →
      invoked = [] ∧ answer.2 = state ∧ Reports answer.1 405 "method_not_allowed") ∧
    (Routed request → ∃ target, Routes request target ∧
      (∀ call, invoked = [call] ↔ Binds request target call) ∧
      (∀ call, Binds request target call → answer = api.run call state ∧
        ∀ reason after, api.Fails state call reason after →
          answer.2 = after ∧ Reports answer.1 500 "operation_failed") ∧
      ((∀ call, ¬ Binds request target call) →
        invoked = [] ∧ answer.2 = state ∧
        ∃ e, Refuses request target e ∧ Reports answer.1 e.status e.code ∧
          (e.status, e.code) ∈ [(400, "invalid_parameter"), (400, "read_failed"),
            (400, "encoding_error"), (422, "invalid_input")])) := by
  intro path answer invoked
  refine ⟨api.length_invoked_le request state, fun hget hpost => ?_, fun htable hunrouted => ?_,
    fun hrouted => ?_⟩
  · have hunrouted : ¬ Routed request := by simp [Routed, path, hget, hpost]
    have herror : unrouted request.method path = .notFound path := by simp [unrouted, hget, hpost]
    have hcall := callOf_of_unrouted hunrouted
    rw [herror] at hcall
    exact api.handle_of_error hcall state
  · have herror : unrouted request.method path = .methodNotAllowed request.method path := by
      rw [unrouted, if_pos (by simpa using htable)]
    have hcall := callOf_of_unrouted hunrouted
    rw [herror] at hcall
    exact api.handle_of_error hcall state
  · obtain ⟨target, hroutes⟩ := routed_iff.1 hrouted
    have hcall := callOf_of_routes hroutes
    refine ⟨target, hroutes, ?_⟩
    simp only [← arguments_eq_ok_iff]
    cases harguments : arguments request target with
    | ok bound =>
      rw [harguments] at hcall
      obtain ⟨hanswer, hinvoked⟩ := api.handle_of_ok hcall state
      refine ⟨fun call => ?_, fun call hbound => ?_, fun hunbound => absurd rfl (hunbound bound)⟩
      · rw [show invoked = [bound] from hinvoked]
        simp
      · obtain rfl := Except.ok.inj hbound
        refine ⟨hanswer, fun reason after hfails => ?_⟩
        rw [show answer = api.run bound state from hanswer]
        exact hfails.reports
    | error e =>
      rw [harguments] at hcall
      obtain ⟨hinvoked, hstate, hreports⟩ := api.handle_of_error hcall state
      have hrefuses := arguments_eq_error harguments
      refine ⟨fun call => ?_, fun call hbound => absurd hbound (by simp), fun _ => ?_⟩
      · rw [show invoked = [] from hinvoked]
        simp
      · exact ⟨hinvoked, hstate, e, hrefuses, hreports, hrefuses.classified⟩

end OpenApiServer.Items
