import KryptokronaSdk.CallLedger
import KryptokronaSdk.JsonDocument

/-!
# Data on its way to the caller

A data method hands on the instance its node stated.

* `states_iff_answers`: a document states an instance exactly when it has the
  declared shape and the method answers with that instance, whatever the status
  and the order of the keys;
* `posted_returns`: so what `post` sends for an instance comes back as it;
* `answers_iff_fits`: some instance is stated exactly when every number of the
  document fits;
* `same_answer_iff`: two documents are told apart exactly when they differ in
  more than the order of their keys;
* `hasKeys_of_answer`: an answer had the declared keys throughout;
* `answers_stated`: in every interleaving of callers, what a call returned was
  stated in the response to its own request;
* `served_call_returns`: a node that serves and keeps answering is heard.
-/

namespace Kryptokrona

open Coroutine Serialization Serializable SerialForm

variable {negotiation : ContentNegotiation}

/-- A data method answers with an instance it decoded. -/
theorem answers_iff_decoded {node : Node} {m : DataMethod} {status : HttpStatusCode}
    {document : JsonElement} {data : m.Data} :
    onResponse negotiation ⟨status, .json document⟩ (m.code node) = .ok (some data) ↔
      ∃ v, negotiation.receive (descriptor m.Data) (.json document) = .ok (some v) ∧
        ofValue v = data := by
  rw [m.code_eq_endpoint, onResponse_fetch]
  exact caught_map_eq_some_iff

/-- Of a document of the declared shape a data method makes the instance stated
there. -/
theorem answers_iff_states (hF : negotiation.json.Lawful) (node : Node) (m : DataMethod)
    (status : HttpStatusCode) {document : JsonElement}
    (hshape : (descriptor m.Data).hasShape document = true) (data : m.Data) :
    onResponse negotiation ⟨status, .json document⟩ (m.code node) = .ok (some data) ↔
      States document data := by
  have hdecode := decode_eq_ok_iff_reads hF (descriptor m.Data) document wellFormed hshape
  rw [answers_iff_decoded]
  constructor
  · intro hdecoded
    obtain ⟨v, hv, hdata⟩ := hdecoded
    rw [← hdata]
    exact states_ofValue_iff.mpr ((hdecode v).mp (receive_eq_some_iff.mp hv).2)
  · intro hstated
    have hreceive := receive_eq_some_iff.mpr
      ⟨ne_null_of_hasShape hshape, (hdecode (toValue data)).mpr hstated⟩
    exact ⟨toValue data, hreceive, ofValue_toValue data⟩

/-- The fee `feeDocument` states. -/
def statedFee : Fee := ⟨"", 5000000000, "OK"⟩

theorem feeDocument_states : States feeDocument statedFee :=
  states_iff_canonical.mpr ⟨rfl, rfl⟩

/-- An instance stated by the node reaches the caller as stated. -/
theorem returns_stated (hF : negotiation.json.Lawful) (node : Node) (m : DataMethod)
    (status : HttpStatusCode) {document : JsonElement} {data : m.Data}
    (hstated : States document data) :
    onResponse negotiation ⟨status, .json document⟩ (m.code node) = .ok (some data) :=
  (answers_iff_states hF node m status (states_iff_canonical.mp hstated).1 data).mpr hstated

/-- **A document states an instance exactly when it has the declared shape and
the method answers with that instance.** -/
theorem states_iff_answers (hF : negotiation.json.Lawful) (node : Node) (m : DataMethod)
    (status : HttpStatusCode) (document : JsonElement) (data : m.Data) :
    States document data ↔ (descriptor m.Data).hasShape document = true ∧
      onResponse negotiation ⟨status, .json document⟩ (m.code node) = .ok (some data) := by
  constructor
  · intro hstated
    have hshape := (states_iff_canonical.mp hstated).1
    exact ⟨hshape, returns_stated hF node m status hstated⟩
  · intro hanswer
    obtain ⟨hshape, hanswered⟩ := hanswer
    exact (answers_iff_states hF node m status hshape data).mp hanswered

theorem feeDocument_answers :
    onResponse strictNegotiation ⟨⟨200, true⟩, .json feeDocument⟩
      (DataMethod.getNodeFee.code testNode) = .ok (some statedFee) :=
  ((states_iff_answers (strictJson_lawful _) testNode .getNodeFee ⟨200, true⟩ feeDocument
    statedFee).mp feeDocument_states).2

/-- **What `post` sends for an instance, a data method returns as that
instance.** -/
theorem posted_returns {writer : JsonWriter} (hwriter : writer.Lawful)
    (hF : negotiation.json.Lawful) {env : Environment PostOp.Result} {m : DataMethod}
    {data : m.Data} {url : String} {trace : List (Resumption env)} {lines : List LogLine}
    {outcome : Except Throwable HttpResponse}
    (h : Plays env (post writer url data) trace lines outcome) :
    ∃ (request : HttpPostRequest) (delivery : Delivery env (.post request)),
      trace = [⟨_, delivery⟩] ∧ lines = [] ∧ outcome = delivery.result ∧ request.url = url ∧
      ∀ node status, onResponse negotiation ⟨status, .json request.body⟩ (m.code node) =
        .ok (some data) := by
  obtain ⟨delivery, htrace, hlines, houtcome⟩ := plays_suspend_iff.mp h
  refine ⟨_, delivery, htrace, hlines, houtcome, rfl, ?_⟩
  intro node status
  exact returns_stated hF node m status (hwriter (descriptor m.Data) (toValue data) wellFormed)

theorem postedFee_returns :
    ∃ request : HttpPostRequest, onResponse strictNegotiation ⟨⟨200, true⟩, .json request.body⟩
      (DataMethod.getNodeFee.code testNode) = .ok (some statedFee) := by
  obtain ⟨trace, lines, outcome, h⟩ := exists_play
    (⟨fun _ => Unit, fun _ => .error (.exception "")⟩ : Environment PostOp.Result)
    (post declaredOrder "http://localhost:11898/fee" statedFee)
  obtain ⟨request, _, _, _, _, _, hreturns⟩ :=
    @posted_returns strictNegotiation declaredOrder declaredOrder_lawful (strictJson_lawful _) _
      .getNodeFee statedFee _ _ _ _ h
  exact ⟨request, hreturns testNode ⟨200, true⟩⟩

/-- **Some instance is answered exactly when every number fits.** -/
theorem answers_iff_fits (hF : negotiation.json.Lawful) (node : Node) (m : DataMethod)
    (status : HttpStatusCode) {document : JsonElement}
    (hshape : (descriptor m.Data).hasShape document = true) :
    (∃ data, onResponse negotiation ⟨status, .json document⟩ (m.code node) = .ok (some data)) ↔
      (descriptor m.Data).FitsAll document := by
  rw [← exists_states_iff hshape]
  exact exists_congr (answers_iff_states hF node m status hshape)

theorem feeDocument_answers_iff_fits :
    (∃ data, onResponse strictNegotiation ⟨⟨200, true⟩, .json feeDocument⟩
      (DataMethod.getNodeFee.code testNode) = .ok (some data)) ↔
      (descriptor Fee).FitsAll feeDocument :=
  answers_iff_fits (strictJson_lawful _) testNode .getNodeFee ⟨200, true⟩ rfl

/-- **Two documents are told apart exactly when they differ in more than the
order of their keys.** -/
theorem same_answer_iff (hF : negotiation.json.Lawful) (node node' : Node) (m : DataMethod)
    (status status' : HttpStatusCode) {i j : JsonElement}
    (hi : (descriptor m.Data).hasShape i = true) (hj : (descriptor m.Data).hasShape j = true)
    (hfits : (descriptor m.Data).FitsAll i) :
    onResponse negotiation ⟨status, .json i⟩ (m.code node) =
        onResponse negotiation ⟨status', .json j⟩ (m.code node') ↔
      (descriptor m.Data).canonical i = (descriptor m.Data).canonical j := by
  obtain ⟨data, hdata⟩ := (exists_states_iff hi).mpr hfits
  have hcanonical := (states_iff_canonical.mp hdata).2
  rw [returns_stated hF node m status hdata, hcanonical]
  constructor
  · intro hsame
    have hstated := (answers_iff_states hF node' m status' hj data).mp hsame.symm
    exact (states_iff_canonical.mp hstated).2.symm
  · intro hsame
    have hstated : States j data := states_iff_canonical.mpr ⟨hj, hsame.symm⟩
    exact (returns_stated hF node' m status' hstated).symm

theorem feeDocument_same_answer :
    onResponse strictNegotiation ⟨⟨200, true⟩, .json feeDocument⟩
        (DataMethod.getNodeFee.code testNode) =
      onResponse strictNegotiation ⟨⟨500, false⟩, .json (documentOf statedFee)⟩
        (DataMethod.getNodeFee.code testNode) :=
  (same_answer_iff (strictJson_lawful _) testNode testNode .getNodeFee ⟨200, true⟩ ⟨500, false⟩ rfl rfl
    (by decide)).mpr rfl

/-- **An answer had the declared keys throughout.** -/
theorem hasKeys_of_answer (hF : negotiation.json.Lawful)
    (hstrict : negotiation.json.StrictKeys) {node : Node} {m : DataMethod}
    {status : HttpStatusCode} {document : JsonElement} {data : m.Data}
    (hunique : (descriptor m.Data).UniqueKeys document)
    (hanswer : onResponse negotiation ⟨status, .json document⟩ (m.code node) =
      .ok (some data)) :
    (descriptor m.Data).HasKeys document := by
  obtain ⟨v, hv, _⟩ := answers_iff_decoded.mp hanswer
  have hdecoded := (receive_eq_some_iff.mp hv).2
  exact hasKeys_of_decode hF hstrict (descriptor m.Data) document v wellFormed hunique hdecoded

theorem feeDocument_hasKeys : (descriptor Fee).HasKeys feeDocument :=
  @hasKeys_of_answer strictNegotiation (strictJson_lawful _) (strictJson_strictKeys _) testNode
    .getNodeFee ⟨200, true⟩ feeDocument statedFee ⟨by decide, trivial, trivial, trivial, trivial⟩ rfl

/-- What a call told its caller was in the response to its own request. -/
def ClientMethod.Stated (negotiation : ContentNegotiation) (node : Node) :
    (m : ClientMethod) → HttpTrace negotiation → m.Result → Prop
  | .isNodeRunning, trace, running =>
      running = true → ∃ response,
        ⟨.request (ClientMethod.isNodeRunning.request node),
          .reply (HttpReply.response response)⟩ ∈ trace ∧
        response.status.isSuccess = true
  | .data m, trace, answer =>
      ∀ data, answer = some data → ∃ response v,
        ⟨.request ((ClientMethod.data m).request node),
          .reply (HttpReply.response response)⟩ ∈ trace ∧
        ⟨.body response (descriptor m.Data), .reply HttpReply.decode⟩ ∈ trace ∧
        negotiation.receive (descriptor m.Data) response.content = .ok (some v) ∧
        ofValue v = data ∧
        ∀ document, response.content = .json document →
          (descriptor m.Data).hasShape document = true → States document data

/-- The fallback of a method says nothing of the node. -/
theorem stated_fallback (node : Node) (m : ClientMethod) (trace : HttpTrace negotiation) :
    m.Stated negotiation node trace m.fallback := by
  cases m with
  | isNodeRunning =>
      intro hrunning
      cases hrunning
  | data m =>
      intro data hdata
      cases hdata

/-- What a complete call returned was stated in the response to it. -/
theorem CallReport.stated (hF : negotiation.json.Lawful) {node : Node} {m : ClientMethod}
    {trace : HttpTrace negotiation} {lines : List LogLine}
    {outcome : Except Throwable m.Result}
    (h : CallReport negotiation node m trace lines outcome) {result : m.Result}
    (hresult : outcome = .ok result) : m.Stated negotiation node trace result := by
  cases h with
  | requestThrew m delivery e hthrew =>
      have hfallback : result = m.fallback := by
        rw [caught] at hresult
        by_cases hcaught : e.isException = true
        · rw [if_pos hcaught] at hresult
          exact (Except.ok.inj hresult).symm
        · rw [if_neg hcaught] at hresult
          cases hresult
      rw [hfallback]
      exact stated_fallback node m _
  | statusRead response =>
      intro hrunning
      have hstatus := Except.ok.inj hresult
      exact ⟨response, List.mem_cons_self, hstatus.trans hrunning⟩
  | bodyEnded m response delivery =>
      intro data hdata
      rw [hdata] at hresult
      obtain ⟨v, hv, hofValue⟩ := caught_map_eq_some_iff.mp hresult
      obtain ⟨hdecode, hreceive⟩ := delivery_body_ok hv
      refine ⟨response, v, List.mem_cons_self, ?_, hreceive, hofValue, ?_⟩
      · rw [hdecode]
        exact List.mem_cons_of_mem _ List.mem_cons_self
      · intro document hcontent hshape
        rw [hcontent] at hreceive
        have hdecoded := decode_eq_ok_iff_reads hF (descriptor m.Data) document wellFormed hshape
        rw [← hofValue]
        exact states_ofValue_iff.mpr ((hdecoded v).mp (receive_eq_some_iff.mp hreceive).2)

/-- What the calls of a caller returned was stated in the responses to them. -/
def AnswersStated (s : ClientState negotiation) : Prop :=
  ∀ c ∈ s.completed, ∀ result, c.outcome = .ok result →
    c.call.method.Stated negotiation c.call.node c.trace result

/-- **No caller is told what no node stated in answer to its own request**,
in any order of the steps of all callers. -/
theorem answers_stated {Ref ι : Type} [DecidableEq ι] (hF : negotiation.json.Lawful)
    (r : SystemRun (httpEnvironment negotiation) (nodeObjects Ref) ι) (i : ι) (k : Nat) :
    AnswersStated ((r.state k).caller i) := by
  intro c hc result hresult
  exact (report_of_sound ((r.caller i).sound k) hc).stated hF hresult

theorem feeRun_answers_stated : AnswersStated ((feeRun.state 4).caller true) :=
  answers_stated (strictJson_lawful _) feeRun true 4

/-- What a node that serves `Serves` lets pass: responses that state what it
serves, which are then decoded. -/
def ServedBy (Serves : Node → (m : DataMethod) → m.Data → Prop) (node : Node)
    (m : DataMethod) : Resumption (httpEnvironment negotiation) → Prop
  | ⟨.request _, .reply (.response response)⟩ =>
      ∃ document data, response.content = .json document ∧ States document data ∧
        Serves node m data
  | ⟨.body _ _, .reply .decode⟩ => True
  | _ => False

/-- A call that was served returns what the node serves. -/
theorem CallReport.served (hF : negotiation.json.Lawful)
    {Serves : Node → (m : DataMethod) → m.Data → Prop} {node : Node} {m : DataMethod}
    {trace : HttpTrace negotiation} {lines : List LogLine}
    {outcome : Except Throwable (Option m.Data)}
    (h : CallReport negotiation node (.data m) trace lines outcome)
    (hserved : ∀ x ∈ trace, ServedBy Serves node m x) :
    ∃ data, Serves node m data ∧ outcome = .ok (some data) := by
  cases h with
  | requestThrew _ delivery e hthrew =>
      have hserved := hserved _ List.mem_cons_self
      rcases delivery_request_error hthrew with hd | ⟨name, hd⟩ | ⟨name, hd⟩
      · rw [hd] at hserved
        cases hserved
      · rw [hd] at hserved
        cases hserved
      · rw [hd] at hserved
        cases hserved
  | bodyEnded _ response delivery =>
      obtain ⟨document, data, hcontent, hstated, hserves⟩ := hserved _ List.mem_cons_self
      have hbody := hserved _ (List.mem_cons_of_mem _ List.mem_cons_self)
      refine ⟨data, hserves, ?_⟩
      cases delivery with
      | cancellation => cases hbody
      | reply answer =>
          cases answer with
          | ioFailure name => cases hbody
          | fatal name => cases hbody
          | decode =>
              have hshape := (states_iff_canonical.mp hstated).1
              have hdecode := decode_of_reads hF wellFormed hstated
              have hreceive := receive_eq_some_iff.mpr ⟨ne_null_of_hasShape hshape, hdecode⟩
              change caught none (_ <$> negotiation.receive _ response.content) = _
              rw [hcontent]
              exact caught_map_eq_some_iff.mpr ⟨toValue data, hreceive, ofValue_toValue data⟩

variable {Ref ι : Type} [DecidableEq ι]

/-- Every delivery to a data call of the caller serves it. -/
def ServedThroughout (Serves : Node → (m : DataMethod) → m.Data → Prop)
    (r : SystemRun (httpEnvironment negotiation) (nodeObjects Ref) ι) (i : ι) : Prop :=
  ∀ k x p node m, r.event k = .resume i x → ((r.state k).caller i).pending = some p →
    p.call = ⟨node, .data m⟩ → ServedBy Serves node m x

/-- Then so is what was delivered to its completed ones. -/
theorem ServedThroughout.completed {Serves : Node → (m : DataMethod) → m.Data → Prop}
    {r : SystemRun (httpEnvironment negotiation) (nodeObjects Ref) ι} {i : ι}
    (hserved : ServedThroughout Serves r i) {k : Nat}
    {c : Completed (httpEnvironment negotiation) clients}
    (hc : c ∈ ((r.state k).caller i).completed) {node : Node} {m : DataMethod}
    (hcall : c.call = ⟨node, .data m⟩) : ∀ x ∈ c.trace, ServedBy Serves node m x := by
  have htraces : ∀ k, ((r.caller i).state k).Traces fun (call : ClientCall) _ trace =>
      ∀ node m, call = ⟨node, .data m⟩ → ∀ x ∈ trace, ServedBy Serves node m x := by
    apply (r.caller i).traces
    · intro call begun node m _ x hx
      cases hx
    · intro k p delivery hpending hseen htrace node m hcall x hx
      rcases List.mem_append.mp hx with hold | hnew
      · exact htrace node m hcall x hold
      · have hevent := SystemEvent.seenBy_eq_resume_iff.mp hseen
        rw [List.mem_singleton.mp hnew]
        exact hserved k _ p node m hevent hpending hcall
  exact (htraces k).2 c hc node m hcall

/-- **A call of a data method whose node serves and keeps answering returns
what the node serves**, and it is the next thing its caller is told. -/
theorem served_call_returns (hF : negotiation.json.Lawful)
    {Serves : Node → (m : DataMethod) → m.Data → Prop}
    (r : SystemRun (httpEnvironment negotiation) (nodeObjects Ref) ι) (i : ι)
    (hanswers : (r.caller i).Answers) (hserved : ServedThroughout Serves r i) {k : Nat}
    {invocation : ClientInvocation Ref} {node : Node} {m : DataMethod}
    (hevent : r.event k = .invoke i invocation ⟨node, .data m⟩) :
    ∃ j data, k < j ∧ Serves node m data ∧
      verdictsOf ((r.state j).caller i) =
        verdictsOf ((r.state k).caller i) ++ [⟨⟨node, .data m⟩, .ok (some data)⟩] := by
  have hasked := ledgerOf_invoked r hevent
  obtain ⟨begun, log, resume, hpending⟩ :=
    pending_of_asked ((r.caller i).sound (k+1)) (congrArg Ledger.phase hasked)
  have hbound : ∀ call, (clients.program call).AtMost 2 :=
    fun call => code_atMost call.node call.method
  obtain ⟨j, c, hkj, hcompleted, hextends, _⟩ :=
    (r.caller i).completes hbound hanswers hpending
  have hc : c ∈ ((r.caller i).state j).completed := by
    rw [hcompleted]
    exact List.mem_append_right _ List.mem_cons_self
  have hreport := report_of_sound ((r.caller i).sound j) hc
  have hcall : c.call = ⟨node, .data m⟩ := hextends.call
  have htrace := hserved.completed hc hcall
  have hbefore : verdictsOf ((r.caller i).state (k+1)) = verdictsOf ((r.caller i).state k) :=
    congrArg Ledger.verdicts hasked
  have hverdicts := verdictsOf_append hcompleted
  rw [hbefore] at hverdicts
  obtain ⟨⟨call, begun, trace, log⟩, outcome⟩ := c
  change call = ⟨node, .data m⟩ at hcall
  subst hcall
  obtain ⟨data, hserves, houtcome⟩ := hreport.served hF htrace
  refine ⟨j, data, by omega, hserves, hverdicts.trans ?_⟩
  exact congrArg (fun o => _ ++ [(⟨⟨node, .data m⟩, o⟩ : Verdict)]) houtcome

/-- A node that serves nothing but `feeDocument`. -/
def ServesFee (_ : Node) (m : DataMethod) (data : m.Data) : Prop := States feeDocument data

theorem feeRun_served : ServedThroughout ServesFee feeRun true := by
  intro k x p node m hevent hpending hcall
  match k with
  | 0 => cases hevent
  | 1 => cases hevent
  | 2 =>
      cases hevent
      cases hpending
      cases hcall
      exact ⟨feeDocument, statedFee, rfl, feeDocument_states, feeDocument_states⟩
  | 3 =>
      cases hevent
      trivial
  | _ + 4 => cases hevent

theorem feeRun_returns :
    ∃ j data, 0 < j ∧ ServesFee testNode .getNodeFee data ∧
      verdictsOf ((feeRun.state j).caller true) =
        verdictsOf ((feeRun.state 0).caller true) ++
          [⟨⟨testNode, .data .getNodeFee⟩, .ok (some data)⟩] :=
  @served_call_returns _ _ _ _ (strictJson_lawful _) _ feeRun true feeRun_answers feeRun_served
    0 ⟨(), .data .getNodeFee⟩ testNode .getNodeFee rfl

end Kryptokrona
