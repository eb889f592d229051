import KryptokronaSdk.Clients

/-!
# What a call can come to

A call of a client method is an exchange with the node followed by a report
to the caller.  The exchange of a data method is one request, and, when a
response comes back, the decoding of its body; that of `isNodeRunning` is
the request alone.  It ends with a value or with something thrown.  The
report is what the `try`/`catch` makes of this end.

* `plays_fetch`, `plays_isNodeRunning`: every play of a method is an
  exchange, reported by `caught` and `logged`;
* `onResponse_fetch`: what a data method makes of a response;
* `ClientMethod.Fails`: what makes the exchange of a method fail.
-/

namespace Kryptokrona

open Coroutine Serialization

variable {negotiation : ContentNegotiation}

/-- What has been delivered to a call. -/
abbrev HttpTrace (negotiation : ContentNegotiation) :=
  List (Resumption (httpEnvironment negotiation))

/-- What `try { .. } catch (e: Exception) { logger.error(message, e) }` with
`fallback` behind it makes of the end of the guarded part. -/
def caught {α : Type} (fallback : α) : Except Throwable α → Except Throwable α
  | .ok value => .ok value
  | .error e => if e.isException then .ok fallback else .error e

/-- A reported decoding brings data exactly when it brought a value. -/
theorem caught_map_eq_some_iff {α β : Type} {f : β → α} {decoded : Except Throwable (Option β)}
    {data : α} :
    caught none (Option.map f <$> decoded) = .ok (some data) ↔
      ∃ v, decoded = .ok (some v) ∧ f v = data := by
  cases decoded with
  | ok value =>
      change Except.ok (value.map f) = .ok (some data) ↔ _
      simp
  | error e =>
      change (if e.isException then Except.ok none else .error e) = .ok (some data) ↔ _
      split <;> simp

/-- A reported decoding brings none exactly when it brought `null` or threw an
`Exception`. -/
theorem caught_map_eq_none_iff {α β : Type} {f : β → α} {decoded : Except Throwable (Option β)} :
    caught none (Option.map f <$> decoded) = .ok none ↔
      decoded = .ok none ∨ ∃ e, decoded = .error e ∧ e.isException = true := by
  cases decoded with
  | ok value =>
      change Except.ok (value.map f) = .ok none ↔ _
      simp
  | error e =>
      change (if e.isException then Except.ok none else .error e) = .ok none ↔ _
      simp

/-- The lines the `catch` logs. -/
def logged {α : Type} (logger message : String) : Except Throwable α → List LogLine
  | .ok _ => []
  | .error e => if e.isException then [⟨logger, message, e⟩] else []

/-- The exchange of a data method, with the deliveries that make it up. -/
inductive Exchange (negotiation : ContentNegotiation) (request : HttpRequest)
    (d : Descriptor) : HttpTrace negotiation → Except Throwable (Option d.Value) → Prop
  | requestThrew (delivery : Delivery (httpEnvironment negotiation) (.request request))
      (e : Throwable) (hthrew : delivery.result = .error e) :
      Exchange negotiation request d [⟨.request request, delivery⟩] (.error e)
  | bodyEnded (response : HttpResponse)
      (delivery : Delivery (httpEnvironment negotiation) (.body response d)) :
      Exchange negotiation request d
        [⟨.request request, .reply (.response response)⟩, ⟨.body response d, delivery⟩]
        delivery.result

/-- A delivery to a request that throws nothing is a response. -/
theorem delivery_request_ok {request : HttpRequest}
    {delivery : Delivery (httpEnvironment negotiation) (.request request)}
    {response : HttpResponse} (h : delivery.result = .ok response) :
    delivery = .reply (.response response) := by
  cases delivery with
  | cancellation => cases h
  | reply answer =>
      cases answer with
      | response answer =>
          cases h
          rfl
      | ioFailure name => cases h
      | fatal name => cases h

/-- A play of a guarded part is a play of that part and its report. -/
theorem plays_guarded {α : Type} {attempt : SuspendFun α} {logger message : String}
    {fallback : α} {trace : HttpTrace negotiation} {lines : List LogLine}
    {outcome : Except Throwable α}
    (h : Plays (httpEnvironment negotiation)
      (attempt.catchException (logError logger message fallback)) trace lines outcome) :
    ∃ before result,
      Plays (httpEnvironment negotiation) attempt trace before result ∧
      lines = before ++ logged logger message result ∧
      outcome = caught fallback result := by
  rcases plays_catchException h with ⟨hbody, huncaught⟩ |
    ⟨e, t₁, t₂, l₁, l₂, hcaught, hbody, hhandler, htrace, hlines⟩
  · refine ⟨lines, outcome, hbody, ?_⟩
    cases outcome with
    | ok value => simp [caught, logged]
    | error e => simp [caught, logged, huncaught e rfl]
  · change Plays _ (.emit ⟨logger, message, e⟩ (.done (.ok fallback))) t₂ l₂ outcome
      at hhandler
    simp only [plays_emit_iff, plays_done_iff] at hhandler
    obtain ⟨rest, hl₂, ht₂, hrest, houtcome⟩ := hhandler
    refine ⟨l₁, .error e, ?_, ?_, ?_⟩
    · rw [htrace, ht₂, List.append_nil]
      exact hbody
    · simp [logged, hcaught, hlines, hl₂, hrest]
    · simp [caught, hcaught, houtcome]

/-- The play of `body()`. -/
theorem plays_body {α : Type} [Serializable α] {response : HttpResponse}
    {trace : HttpTrace negotiation} {lines : List LogLine}
    {outcome : Except Throwable (Option α)}
    (h : Plays (httpEnvironment negotiation) (response.body α) trace lines outcome) :
    ∃ delivery : Delivery (httpEnvironment negotiation)
        (.body response (Serializable.descriptor α)),
      trace = [⟨_, delivery⟩] ∧ lines = [] ∧
      outcome = Option.map Serializable.ofValue <$> delivery.result := by
  obtain ⟨result, hplay, houtcome⟩ := plays_bind_pure h
  obtain ⟨delivery, htrace, hlines, hresult⟩ := plays_suspend_iff.mp hplay
  exact ⟨delivery, htrace, hlines, hresult ▸ houtcome⟩

/-- **Every play of a data method is an exchange, reported.** -/
theorem plays_fetch {α : Type} [Serializable α] {node : Node}
    {path logger message : String} {trace : HttpTrace negotiation}
    {lines : List LogLine} {outcome : Except Throwable (Option α)}
    (h : Plays (httpEnvironment negotiation) (fetch node path logger message) trace lines
      outcome) :
    ∃ result, Exchange negotiation ⟨node.url path, [("Accept", "application/json")]⟩
        (Serializable.descriptor α) trace result ∧
      lines = logged logger message result ∧
      outcome = caught none (Option.map Serializable.ofValue <$> result) := by
  obtain ⟨before, attempted, hattempt, hlines, houtcome⟩ := plays_guarded h
  rcases plays_bind hattempt with ⟨e, hget, he⟩ |
    ⟨response, t₁, t₂, l₁, l₂, hget, hrest, ht, hl⟩
  · obtain ⟨delivery, htrace, hbefore, hresult⟩ := plays_suspend_iff.mp hget
    refine ⟨.error e, ?_, ?_, ?_⟩
    · rw [htrace]
      exact Exchange.requestThrew delivery e hresult.symm
    · rw [hlines, hbefore, he]
      rfl
    · rw [houtcome, he]
      rfl
  · obtain ⟨delivery, ht₁, hl₁, hresult⟩ := plays_suspend_iff.mp hget
    obtain ⟨delivery', ht₂, hl₂, hattempted⟩ := plays_body hrest
    have hresponse := delivery_request_ok hresult.symm
    refine ⟨delivery'.result, ?_, ?_, ?_⟩
    · rw [ht, ht₁, ht₂, hresponse]
      exact Exchange.bodyEnded response delivery'
    · rw [hlines, hl, hl₁, hl₂, hattempted]
      cases delivery'.result <;> rfl
    · rw [houtcome, hattempted]

/-- **Every play of `isNodeRunning` is one request, reported.** -/
theorem plays_isNodeRunning {node : Node} {trace : HttpTrace negotiation}
    {lines : List LogLine} {outcome : Except Throwable Bool}
    (h : Plays (httpEnvironment negotiation) (NodeClient.isNodeRunning node) trace lines
      outcome) :
    ∃ delivery : Delivery (httpEnvironment negotiation)
        (.request ⟨node.url "info", [("Accept", "application/json")]⟩),
      trace = [⟨_, delivery⟩] ∧
      lines = logged "NodeClient" "Error getting node information" delivery.result ∧
      outcome = caught false
        ((fun response => response.status.isSuccess) <$> delivery.result) := by
  obtain ⟨before, attempted, hattempt, hlines, houtcome⟩ := plays_guarded h
  obtain ⟨result, hget, hattempted⟩ := plays_bind_pure hattempt
  obtain ⟨delivery, htrace, hbefore, hresult⟩ := plays_suspend_iff.mp hget
  refine ⟨delivery, htrace, ?_, ?_⟩
  · rw [hlines, hbefore, hattempted, hresult]
    cases delivery.result <;> rfl
  · rw [houtcome, hattempted, hresult]

/-- The value behind the `try`: what a method returns after an `Exception`. -/
def ClientMethod.fallback : (m : ClientMethod) → m.Result
  | .isNodeRunning => false
  | .data _ => none

/-- The replies that make the exchange of a method fail: an I/O failure, for
`isNodeRunning` a status that is no success, for a data method a body that
cannot be decoded. -/
def HttpReply.Fails (negotiation : ContentNegotiation) :
    ClientMethod → {op : HttpOp} → HttpReply op → Prop
  | .isNodeRunning, .request _, .response answer => answer.status.isSuccess = false
  | .data _, .body received d, .decode =>
      ∃ e, negotiation.receive d received.content = .error e
  | _, _, .ioFailure _ => True
  | _, _, _ => False

/-- The delivery is a failing reply.  The cancellation of the Job is none. -/
def ClientMethod.Fails (m : ClientMethod) :
    Resumption (httpEnvironment negotiation) → Prop
  | ⟨_, .reply answer⟩ => HttpReply.Fails negotiation m answer
  | ⟨_, .cancellation⟩ => False

/-- The exchange of a call of this method failed on its own. -/
def ClientMethod.ExchangeFailed (m : ClientMethod) (trace : HttpTrace negotiation) : Prop :=
  ∃ x ∈ trace, m.Fails x

/-- What throws at the request. -/
theorem delivery_request_error {request : HttpRequest}
    {delivery : Delivery (httpEnvironment negotiation) (.request request)}
    {e : Throwable} (h : delivery.result = .error e) :
    delivery = .cancellation ∨
      (∃ name, delivery = .reply (HttpReply.ioFailure name)) ∨
      ∃ name, delivery = .reply (HttpReply.fatal name) := by
  cases delivery with
  | cancellation => exact Or.inl rfl
  | reply answer =>
      cases answer with
      | response response => cases h
      | ioFailure name => exact Or.inr (Or.inl ⟨name, rfl⟩)
      | fatal name => exact Or.inr (Or.inr ⟨name, rfl⟩)

/-- What brings the body was decoded. -/
theorem delivery_body_ok {response : HttpResponse} {d : Descriptor}
    {delivery : Delivery (httpEnvironment negotiation) (.body response d)}
    {value : Option d.Value} (h : delivery.result = .ok value) :
    delivery = .reply HttpReply.decode ∧ negotiation.receive d response.content = .ok value := by
  cases delivery with
  | cancellation => cases h
  | reply answer =>
      cases answer with
      | decode => exact ⟨rfl, h⟩
      | ioFailure name => cases h
      | fatal name => cases h

theorem ioFailure_fails (m : ClientMethod) (op : HttpOp) (name : String) :
    m.Fails (⟨op, .reply (HttpReply.ioFailure name)⟩ :
      Resumption (httpEnvironment negotiation)) := by
  cases m <;> cases op <;> trivial

/-- **A data method whose exchange delivers a response returns what its body
decodes to**, and `null` when decoding throws an `Exception`. -/
theorem onResponse_fetch {α : Type} [Serializable α] (negotiation : ContentNegotiation)
    (response : HttpResponse) (node : Node) (path logger message : String) :
    onResponse negotiation response (fetch node path logger message : SuspendFun (Option α)) =
      caught none (Option.map Serializable.ofValue <$>
        negotiation.receive (Serializable.descriptor α) response.content) := by
  obtain ⟨trace, hreplies, hplay⟩ :=
    @plays_run _ _ _ _ (httpEnvironment negotiation) (exchange response)
      (fetch node path logger message : SuspendFun (Option α))
  obtain ⟨result, hexchange, -, houtcome⟩ := plays_fetch hplay
  cases hexchange with
  | requestThrew delivery e hthrew =>
      have hreply := hreplies _ List.mem_cons_self
      change delivery = .reply (HttpReply.response response) at hreply
      rw [hreply] at hthrew
      cases hthrew
  | bodyEnded received delivery =>
      have hfirst := Delivery.reply.inj (hreplies _ List.mem_cons_self)
      have hsecond := hreplies _ (List.mem_cons_of_mem _ List.mem_cons_self)
      change HttpReply.response received = HttpReply.response response at hfirst
      change delivery = .reply HttpReply.decode at hsecond
      cases hfirst
      rw [hsecond] at houtcome
      exact houtcome

end Kryptokrona
