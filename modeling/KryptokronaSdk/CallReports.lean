import KryptokronaSdk.ClientPlays

/-!
# The complete calls of every method

Each method of the clients has an endpoint: the path it requests, the logger
of its client and its message.  A `CallReport` is one complete call of a
method, with all that passed: what was requested and delivered, the lines
written, and the outcome.  There are three kinds of it.  The request threw,
or `isNodeRunning` read the status of the response, or a data method came to
the end of decoding the body of that response.

* `plays_code_iff`: the reports of a method are its plays, no more and no
  fewer;
* `CallReport.lines_eq`: the lines of a call are the `Exception`s delivered
  to it, each once, under the logger and message of its method;
* `CallReport.throws_iff`, `CallReport.fallback_iff`: what the outcome of a
  call says about the deliveries to it;
* `report_of_sound`, `begun_of_sound`: in every sound state a completed call has
  a report, and a pending one stands at its request or at the body;
* `deliver_cases`: what one more delivery makes of a pending call.
-/

namespace Kryptokrona

open Coroutine Serialization Serializable

/-- Where a method asks, and under what names it reports. -/
structure Endpoint where
  path : String
  logger : String
  message : String
deriving DecidableEq, Repr

/-- The endpoints of the data methods. -/
def DataMethod.endpoint : DataMethod → Endpoint
  | .getBlocks => ⟨"getblocks", "BlockClient", "Error getting blocks"⟩
  | .getQueryBlocks => ⟨"queryblocks", "BlockClient", "Error getting query blocks"⟩
  | .getQueryBlocksLite =>
      ⟨"queryblockslite", "BlockClient", "Error getting query blocks lite"⟩
  | .getBlockDetailsByHeight =>
      ⟨"get_block_details_by_height", "BlockClient", "Error getting block details by height"⟩
  | .getBlocksDetailsByHeights =>
      ⟨"get_blocks_details_by_heights", "BlockClient", "Error getting blocks details by height"⟩
  | .getBlocksDetailsByHashes =>
      ⟨"get_blocks_details_by_hashes", "BlockClient", "Error getting blocks details by hashes"⟩
  | .getBlocksHashesByTimestamps =>
      ⟨"get_blocks_hashes_by_timestamps", "BlockClient",
        "Error getting blocks details by hashes"⟩
  | .getOIndexes => ⟨"get_o_indexes", "IndexesClient", "Error getting O Indexes"⟩
  | .getGlobalIndexesForRange =>
      ⟨"get_global_indexes_for_range", "IndexesClient",
        "Error getting global indexes for range"⟩
  | .getNodeInfo => ⟨"info", "NodeClient", "Error getting node information"⟩
  | .getNodeHeight => ⟨"height", "NodeClient", "Error getting node height"⟩
  | .getNodePeers => ⟨"peers", "NodeClient", "Error getting node peers"⟩
  | .getNodeFee => ⟨"fee", "NodeClient", "Error getting node fee"⟩
  | .getRandomOuts => ⟨"getrandom_outs", "OutputsClient", "Error getting random outputs"⟩
  | .getPoolChangesLite =>
      ⟨"get_pool_changes_lite", "PoolChangesClient", "Error getting pool changes lite"⟩
  | .getTransactions => ⟨"gettransactions", "TransactionClient", "Error getting transactions"⟩
  | .getTransactionDetailsByHashes =>
      ⟨"get_transaction_details_by_hashes", "TransactionClient",
        "Error getting transaction details by hashes"⟩
  | .getTransactionHashesByPaymentId =>
      ⟨"get_transaction_hashes_by_payment_id", "TransactionClient",
        "Error getting transaction hashes by payment id"⟩
  | .getTransactionsStatus =>
      ⟨"get_transactions_status", "TransactionClient", "Error getting transaction status"⟩

/-- The endpoint of a method.  A health check asks where `getNodeInfo` asks
and reports as it does. -/
def ClientMethod.endpoint : ClientMethod → Endpoint
  | .isNodeRunning => ⟨"info", "NodeClient", "Error getting node information"⟩
  | .data m => m.endpoint

/-- The request of a method. -/
def ClientMethod.request (node : Node) (m : ClientMethod) : HttpRequest :=
  ⟨node.url m.endpoint.path, [("Accept", "application/json")]⟩

/-- The line a method writes for what was thrown. -/
def ClientMethod.line (m : ClientMethod) (e : Throwable) : LogLine :=
  ⟨m.endpoint.logger, m.endpoint.message, e⟩

/-- The code of a data method is `fetch` at its endpoint. -/
theorem DataMethod.code_eq_endpoint (node : Node) (m : DataMethod) :
    m.code node = fetch node m.endpoint.path m.endpoint.logger m.endpoint.message := by
  cases m <;> rfl

variable {negotiation : ContentNegotiation}

/-- One complete call of a method. -/
inductive CallReport (negotiation : ContentNegotiation) (node : Node) :
    (m : ClientMethod) → HttpTrace negotiation → List LogLine →
      Except Throwable m.Result → Prop
  | requestThrew (m : ClientMethod)
      (delivery : Delivery (httpEnvironment negotiation) (.request (m.request node)))
      (e : Throwable) (hthrew : delivery.result = .error e) :
      CallReport negotiation node m [⟨.request (m.request node), delivery⟩]
        (logged m.endpoint.logger m.endpoint.message (.error e : Except Throwable m.Result))
        (caught m.fallback (.error e))
  | statusRead (response : HttpResponse) :
      CallReport negotiation node .isNodeRunning
        [⟨.request (ClientMethod.isNodeRunning.request node),
          .reply (HttpReply.response response)⟩]
        [] (.ok response.status.isSuccess)
  | bodyEnded (m : DataMethod) (response : HttpResponse)
      (delivery : Delivery (httpEnvironment negotiation)
        (.body response (descriptor m.Data))) :
      CallReport negotiation node (.data m)
        [⟨.request ((ClientMethod.data m).request node),
            .reply (HttpReply.response response)⟩,
          ⟨.body response (descriptor m.Data), delivery⟩]
        (logged m.endpoint.logger m.endpoint.message delivery.result)
        (caught none (Option.map ofValue <$> delivery.result))

/-- A play of the guarded part, reported. -/
theorem plays_reported {α : Type} {attempt : SuspendFun α} {fallback : α}
    {logger message : String} {trace : HttpTrace negotiation} {result : Except Throwable α}
    (h : Plays (httpEnvironment negotiation) attempt trace [] result) :
    Plays (httpEnvironment negotiation)
      (attempt.catchException (logError logger message fallback)) trace
      (logged logger message result) (caught fallback result) := by
  cases result with
  | ok a =>
      apply h.unguarded
      intro e he
      cases he
  | error e =>
      by_cases hcaught : e.isException = true
      · have hhandler : Plays (httpEnvironment negotiation)
            (logError logger message fallback e) [] [⟨logger, message, e⟩] (.ok fallback) :=
          (Plays.done _).emit
        have hboth := h.guarded hcaught hhandler
        rw [List.append_nil, List.nil_append] at hboth
        rw [logged, caught, if_pos hcaught, if_pos hcaught]
        exact hboth
      · rw [logged, caught, if_neg hcaught, if_neg hcaught]
        apply h.unguarded
        intro e' he'
        cases he'
        simpa using hcaught

theorem plays_get {url : String}
    (delivery : Delivery (httpEnvironment negotiation)
      (.request ⟨url, [("Accept", "application/json")]⟩)) :
    Plays (httpEnvironment negotiation) (get url) [⟨_, delivery⟩] [] delivery.result :=
  plays_suspend delivery

/-- Every exchange of a data method, reported, is a play of it. -/
theorem plays_fetch_of_exchange {α : Type} [Serializable α] {node : Node}
    {path logger message : String} {trace : HttpTrace negotiation}
    {result : Except Throwable (Option (descriptor α).Value)}
    (h : Exchange negotiation ⟨node.url path, [("Accept", "application/json")]⟩
      (descriptor α) trace result) :
    Plays (httpEnvironment negotiation) (fetch node path logger message) trace
      (logged logger message result)
      (caught none (Option.map (ofValue : _ → α) <$> result)) := by
  have hlogged : logged logger message result =
      logged logger message (Option.map (ofValue : _ → α) <$> result) := by
    cases result <;> rfl
  rw [hlogged]
  apply plays_reported
  cases h with
  | requestThrew delivery e hthrew =>
      have hget := plays_get delivery
      rw [hthrew] at hget
      exact hget.throws
  | bodyEnded response delivery =>
      have hget := @plays_get negotiation (node.url path)
        (.reply (HttpReply.response response))
      have hbody : Plays (httpEnvironment negotiation) (response.body α)
          [⟨_, delivery⟩] [] (Option.map ofValue <$> delivery.result) :=
        (plays_suspend delivery).mapped (Option.map ofValue)
      exact hget.followed hbody

/-- Every play of a method is one of its reports. -/
theorem report_of_plays {node : Node} {m : ClientMethod} {trace : HttpTrace negotiation}
    {lines : List LogLine} {outcome : Except Throwable m.Result}
    (h : Plays (httpEnvironment negotiation) (m.code node) trace lines outcome) :
    CallReport negotiation node m trace lines outcome := by
  cases m with
  | isNodeRunning =>
      obtain ⟨delivery, htrace, hlines, houtcome⟩ := plays_isNodeRunning h
      rw [htrace, hlines, houtcome]
      cases hresult : delivery.result with
      | error e => exact CallReport.requestThrew .isNodeRunning delivery e hresult
      | ok response =>
          rw [delivery_request_ok hresult]
          exact CallReport.statusRead response
  | data m =>
      change Plays _ (m.code node) trace lines outcome at h
      rw [m.code_eq_endpoint] at h
      obtain ⟨result, hexchange, hlines, houtcome⟩ := plays_fetch h
      rw [hlines, houtcome]
      cases hexchange with
      | requestThrew delivery e hthrew =>
          exact CallReport.requestThrew (.data m) delivery e hthrew
      | bodyEnded response delivery => exact CallReport.bodyEnded m response delivery

/-- Every exchange of a data method is played by its code. -/
theorem plays_data_of_exchange {node : Node} {m : DataMethod} {trace : HttpTrace negotiation}
    {result : Except Throwable (Option (descriptor m.Data).Value)}
    (h : Exchange negotiation ((ClientMethod.data m).request node) (descriptor m.Data) trace
      result) :
    Plays (httpEnvironment negotiation) ((ClientMethod.data m).code node) trace
      (logged m.endpoint.logger m.endpoint.message result)
      (caught none (Option.map ofValue <$> result)) := by
  change Plays _ (m.code node) _ _ _
  rw [m.code_eq_endpoint]
  exact plays_fetch_of_exchange h

/-- **The reports of a method are its plays.** -/
theorem plays_code_iff {node : Node} {m : ClientMethod} {trace : HttpTrace negotiation}
    {lines : List LogLine} {outcome : Except Throwable m.Result} :
    Plays (httpEnvironment negotiation) (m.code node) trace lines outcome ↔
      CallReport negotiation node m trace lines outcome := by
  refine ⟨report_of_plays, ?_⟩
  intro h
  cases h with
  | requestThrew m delivery e hthrew =>
      cases m with
      | isNodeRunning =>
          have hget : Plays (httpEnvironment negotiation) (get (node.url "info"))
              [⟨_, delivery⟩] [] (.error e) := hthrew ▸ plays_suspend delivery
          exact plays_reported hget.throws
      | data m => exact plays_data_of_exchange (Exchange.requestThrew delivery e hthrew)
  | statusRead response =>
      have hget := @plays_get negotiation (node.url "info")
        (.reply (HttpReply.response response))
      have hstatus := hget.mapped fun r => r.status.isSuccess
      exact plays_reported hstatus
  | bodyEnded m response delivery =>
      exact plays_data_of_exchange (Exchange.bodyEnded response delivery)

/-- The `Exception` a delivery throws, if it throws one. -/
def exceptionOf (x : Resumption (httpEnvironment negotiation)) : Option Throwable :=
  match x.2.result with
  | .ok _ => none
  | .error e => if e.isException then some e else none

theorem map_eq_error_iff {α β : Type} {f : α → β} {result : Except Throwable α}
    {e : Throwable} : f <$> result = .error e ↔ result = .error e := by
  cases result with
  | ok value => exact iff_of_false (fun h => by cases h) (fun h => by cases h)
  | error e' =>
      constructor
      · intro h
        cases h
        rfl
      · intro h
        cases h
        rfl

theorem caught_eq_error_iff {α : Type} {fallback : α} {result : Except Throwable α}
    {e : Throwable} :
    caught fallback result = .error e ↔ result = .error e ∧ e.isException = false := by
  cases result with
  | ok value => simp [caught]
  | error e' =>
      rw [caught]
      by_cases hcaught : e'.isException = true
      · rw [if_pos hcaught]
        refine iff_of_false (by simp) ?_
        intro hsame
        cases hsame.1
        simp [hcaught] at hsame
      · rw [if_neg hcaught]
        refine ⟨fun hsame => ⟨hsame, ?_⟩, fun hsame => hsame.1⟩
        cases hsame
        simpa using hcaught

/-- The lines of a delivery that ends the guarded part. -/
theorem logged_eq_map {logger message : String} {op : HttpOp}
    (delivery : Delivery (httpEnvironment negotiation) op) :
    logged logger message delivery.result =
      ([⟨op, delivery⟩].filterMap exceptionOf).map fun e => ⟨logger, message, e⟩ := by
  rw [List.filterMap_cons, exceptionOf]
  cases delivery.result with
  | ok value => rfl
  | error e => by_cases hcaught : e.isException = true <;> simp [logged, hcaught]

/-- **A call logs the `Exception`s delivered to it, each once.** -/
theorem CallReport.lines_eq {node : Node} {m : ClientMethod} {trace : HttpTrace negotiation}
    {lines : List LogLine} {outcome : Except Throwable m.Result}
    (h : CallReport negotiation node m trace lines outcome) :
    lines = (trace.filterMap exceptionOf).map m.line := by
  cases h with
  | requestThrew m delivery e hthrew =>
      have hlogged := @logged_eq_map _ m.endpoint.logger m.endpoint.message _ delivery
      rw [hthrew] at hlogged
      exact hlogged
  | statusRead response => rfl
  | bodyEnded m response delivery =>
      have hresponse : exceptionOf (⟨.request ((ClientMethod.data m).request node),
          .reply (HttpReply.response response)⟩ :
            Resumption (httpEnvironment negotiation)) = none := rfl
      rw [List.filterMap_cons_none hresponse]
      exact logged_eq_map delivery

/-- **A call throws what was thrown at it and is no `Exception`.** -/
theorem CallReport.throws_iff {node : Node} {m : ClientMethod}
    {trace : HttpTrace negotiation} {lines : List LogLine}
    {outcome : Except Throwable m.Result}
    (h : CallReport negotiation node m trace lines outcome) (e : Throwable) :
    outcome = .error e ↔ e.isException = false ∧ ∃ x ∈ trace, x.2.result = .error e := by
  cases h with
  | requestThrew m delivery e' hthrew =>
      rw [caught_eq_error_iff]
      constructor
      · intro hthrown
        cases hthrown.1
        exact ⟨hthrown.2, _, List.mem_cons_self, hthrew⟩
      · intro hthrown
        obtain ⟨huncaught, x, hx, hresult⟩ := hthrown
        rw [List.mem_singleton.mp hx] at hresult
        cases hthrew.symm.trans hresult
        exact ⟨rfl, huncaught⟩
  | statusRead response =>
      constructor
      · intro hthrown
        cases hthrown
      · intro hthrown
        obtain ⟨_, x, hx, hresult⟩ := hthrown
        rw [List.mem_singleton.mp hx] at hresult
        cases hresult
  | bodyEnded m response delivery =>
      rw [caught_eq_error_iff, map_eq_error_iff]
      constructor
      · intro hthrown
        obtain ⟨hresult, huncaught⟩ := hthrown
        exact ⟨huncaught, _, List.mem_cons_of_mem _ List.mem_cons_self, hresult⟩
      · intro hthrown
        obtain ⟨huncaught, x, hx, hresult⟩ := hthrown
        rcases List.mem_cons.mp hx with hfirst | hsecond
        · rw [hfirst] at hresult
          cases hresult
        · rw [List.mem_singleton.mp hsecond] at hresult
          exact ⟨hresult, huncaught⟩

/-- A delivery that throws an `Exception`. -/
theorem exceptionOf_isSome_iff {x : Resumption (httpEnvironment negotiation)} :
    (exceptionOf x).isSome = true ↔ ∃ e, x.2.result = .error e ∧ e.isException = true := by
  rw [exceptionOf]
  cases x.2.result with
  | ok value => simp
  | error e => by_cases hcaught : e.isException = true <;> simp [hcaught]

/-- A health check read a status that is no success. -/
def UnsuccessfulStatus (request : HttpRequest) (m : ClientMethod)
    (trace : HttpTrace negotiation) : Prop :=
  m = .isNodeRunning ∧ ∃ response,
    ⟨.request request, .reply (HttpReply.response response)⟩ ∈ trace ∧
    response.status.isSuccess = false

/-- The body of a response was decoded to `null`. -/
def NullBody (trace : HttpTrace negotiation) : Prop :=
  ∃ response d, ⟨.body response d, .reply HttpReply.decode⟩ ∈ trace ∧
    negotiation.receive d response.content = .ok none

/-- **A call returns its fallback after an `Exception`**, if it is a health
check that read a status that is no success, or if the body was decoded to
`null`. -/
theorem CallReport.fallback_iff {node : Node} {m : ClientMethod}
    {trace : HttpTrace negotiation} {lines : List LogLine}
    {outcome : Except Throwable m.Result}
    (h : CallReport negotiation node m trace lines outcome) :
    outcome = .ok m.fallback ↔ (∃ x ∈ trace, (exceptionOf x).isSome = true) ∨
      UnsuccessfulStatus (m.request node) m trace ∨ NullBody trace := by
  cases h with
  | requestThrew m delivery e hthrew =>
      rw [caught]
      constructor
      · intro hfallback
        have hcaught : e.isException = true := by
          by_contra huncaught
          rw [if_neg huncaught] at hfallback
          cases hfallback
        exact Or.inl ⟨_, List.mem_cons_self, exceptionOf_isSome_iff.mpr ⟨e, hthrew, hcaught⟩⟩
      · intro hcause
        rcases hcause with ⟨x, hx, hexception⟩ | ⟨_, response, hmem, _⟩ |
          ⟨response, d, hmem, _⟩
        · rw [List.mem_singleton.mp hx] at hexception
          obtain ⟨e', hresult, hcaught⟩ := exceptionOf_isSome_iff.mp hexception
          cases hthrew.symm.trans hresult
          rw [if_pos hcaught]
        · cases List.mem_singleton.mp hmem
          cases hthrew
        · cases List.mem_singleton.mp hmem
  | statusRead response =>
      constructor
      · intro hfallback
        have hstatus := Except.ok.inj hfallback
        exact Or.inr (Or.inl ⟨rfl, response, List.mem_cons_self, hstatus⟩)
      · intro hcause
        rcases hcause with ⟨x, hx, hexception⟩ | ⟨_, received, hmem, hstatus⟩ |
          ⟨received, d, hmem, _⟩
        · obtain rfl := List.mem_singleton.mp hx
          cases hexception
        · cases List.mem_singleton.mp hmem
          exact congrArg Except.ok hstatus
        · cases List.mem_singleton.mp hmem
  | bodyEnded m response delivery =>
      change caught none _ = .ok none ↔ _
      rw [caught_map_eq_none_iff]
      constructor
      · intro hended
        rcases hended with hnull | ⟨e, hresult, hcaught⟩
        · obtain ⟨hdecode, hreceive⟩ := delivery_body_ok hnull
          refine Or.inr (Or.inr ⟨response, descriptor m.Data, ?_, hreceive⟩)
          rw [hdecode]
          exact List.mem_cons_of_mem _ List.mem_cons_self
        · refine Or.inl ⟨_, List.mem_cons_of_mem _ List.mem_cons_self, ?_⟩
          exact exceptionOf_isSome_iff.mpr ⟨e, hresult, hcaught⟩
      · intro hcause
        rcases hcause with ⟨x, hx, hexception⟩ | ⟨hmethod, _⟩ | ⟨received, d, hmem, hreceive⟩
        · rcases List.mem_cons.mp hx with hfirst | hsecond
          · rw [hfirst] at hexception
            cases hexception
          · rw [List.mem_singleton.mp hsecond] at hexception
            exact Or.inr (exceptionOf_isSome_iff.mp hexception)
        · cases hmethod
        · rcases List.mem_cons.mp hmem with hfirst | hsecond
          · cases hfirst
          · cases List.mem_singleton.mp hsecond
            exact Or.inl hreceive

/-- A call at which something was thrown reports that. -/
theorem CallReport.thrown {node : Node} {m : ClientMethod} {trace : HttpTrace negotiation}
    {lines : List LogLine} {outcome : Except Throwable m.Result}
    (h : CallReport negotiation node m trace lines outcome)
    {x : Resumption (httpEnvironment negotiation)} (hx : x ∈ trace) {e : Throwable}
    (hthrew : x.2.result = .error e) : outcome = caught m.fallback (.error e) := by
  rw [caught]
  by_cases hcaught : e.isException = true
  · rw [if_pos hcaught]
    exact h.fallback_iff.mpr (Or.inl ⟨x, hx, exceptionOf_isSome_iff.mpr ⟨e, hthrew, hcaught⟩⟩)
  · rw [if_neg hcaught]
    exact (h.throws_iff e).mpr ⟨by simpa using hcaught, x, hx, hthrew⟩

/-- The Job of a caller of the clients, its call in progress and the calls
it has completed. -/
abbrev ClientState (negotiation : ContentNegotiation) :=
  State (httpEnvironment negotiation) clients

/-- A run of a caller of the clients. -/
abbrev ClientRun (negotiation : ContentNegotiation) :=
  Run (httpEnvironment negotiation) clients

/-- The record of a completed call is a report of its method. -/
theorem report_of_sound {s : ClientState negotiation} (hs : s.Sound)
    {c : Completed (httpEnvironment negotiation) clients} (hc : c ∈ s.completed) :
    CallReport negotiation c.call.node c.call.method c.trace c.log c.outcome :=
  plays_code_iff.mp (hs.completed c hc)

/-- Where a call that has not completed stands: it waits for its response, or
for the body of the response it got. -/
inductive CallBegun (negotiation : ContentNegotiation) (node : Node) :
    ClientMethod → HttpTrace negotiation → HttpOp → Prop
  | requested (m : ClientMethod) :
      CallBegun negotiation node m [] (.request (m.request node))
  | answered (m : DataMethod) (response : HttpResponse) :
      CallBegun negotiation node (.data m)
        [⟨.request ((ClientMethod.data m).request node),
          .reply (HttpReply.response response)⟩]
        (.body response (descriptor m.Data))

/-- A report that goes on after a delivery of the cancellation shows where the
call stood before it. -/
theorem begun_of_report {node : Node} {m : ClientMethod} {trace rest : HttpTrace negotiation}
    {op : HttpOp} {lines : List LogLine} {outcome : Except Throwable m.Result}
    (h : CallReport negotiation node m (trace ++ ⟨op, .cancellation⟩ :: rest) lines outcome) :
    CallBegun negotiation node m trace op := by
  generalize hwhole : trace ++ ⟨op, .cancellation⟩ :: rest = whole at h
  cases h with
  | requestThrew m delivery e hthrew =>
      cases trace with
      | nil =>
          cases hwhole
          exact CallBegun.requested m
      | cons x trace => simp at hwhole
  | statusRead response =>
      cases trace with
      | nil => cases hwhole
      | cons x trace => simp at hwhole
  | bodyEnded m response delivery =>
      cases trace with
      | nil => cases hwhole
      | cons x trace =>
          cases trace with
          | nil =>
              cases hwhole
              exact CallBegun.answered m response
          | cons y trace => simp at hwhole

/-- Nothing was thrown at a call that has not completed. -/
theorem CallBegun.answered_ok {node : Node} {m : ClientMethod}
    {trace : HttpTrace negotiation} {op : HttpOp} (h : CallBegun negotiation node m trace op) :
    ∀ x ∈ trace, ∃ value, x.2.result = .ok value := by
  intro x hx
  cases h with
  | requested m => cases hx
  | answered m response =>
      rw [List.mem_singleton.mp hx]
      exact ⟨response, rfl⟩

theorem CallBegun.exceptions {node : Node} {m : ClientMethod} {trace : HttpTrace negotiation}
    {op : HttpOp} (h : CallBegun negotiation node m trace op) :
    trace.filterMap exceptionOf = [] := by
  cases h <;> rfl

theorem exceptionOf_ioFailure (op : HttpOp) (name : String) :
    exceptionOf (⟨op, .reply (HttpReply.ioFailure name)⟩ :
      Resumption (httpEnvironment negotiation)) = some (.exception name) := by
  cases op <;> rfl

/-- **Where a pending call stands**, and that it has logged nothing. -/
theorem begun_of_sound {s : ClientState negotiation} (hs : s.Sound)
    {p : Pending (httpEnvironment negotiation) clients} (hp : s.pending = some p) :
    CallBegun negotiation p.call.node p.call.method p.trace p.op ∧ p.log = [] := by
  have hplay : ∀ delivery : Delivery (httpEnvironment negotiation) p.op, ∃ rest lines outcome,
      CallReport negotiation p.call.node p.call.method (p.trace ++ ⟨p.op, delivery⟩ :: rest)
        (p.log ++ lines) outcome := by
    intro delivery
    obtain ⟨rest, lines, outcome, h⟩ :=
      exists_play (httpEnvironment negotiation) (p.resume delivery.result)
    have hwhole := hs.pending p hp _ _ _ (h.await delivery)
    exact ⟨rest, lines, outcome, plays_code_iff.mp hwhole⟩
  obtain ⟨rest, lines, outcome, hcancelled⟩ := hplay .cancellation
  obtain ⟨rest', lines', outcome', hfailed⟩ := hplay (.reply (HttpReply.ioFailure ""))
  have hbegun := begun_of_report hcancelled
  refine ⟨hbegun, ?_⟩
  -- a line written before the delivery would have to name both of its causes
  have hcancellation := hcancelled.lines_eq
  have hfailure := hfailed.lines_eq
  rw [List.filterMap_append, hbegun.exceptions] at hcancellation hfailure
  rw [List.filterMap_cons_some (exceptionOf_ioFailure p.op "")] at hfailure
  cases hlog : p.log with
  | nil => rfl
  | cons line log =>
      rw [hlog] at hcancellation hfailure
      have hfirst := (List.cons.inj hcancellation).1
      have hsecond := (List.cons.inj hfailure).1
      have hcause := congrArg LogLine.cause (hfirst.symm.trans hsecond)
      cases hcause

/-- **What one delivery to a pending call comes to**: the call completes with a
report, or goes on to its next suspension point. -/
theorem deliver_cases {s : ClientState negotiation} (hs : s.Sound)
    {p : Pending (httpEnvironment negotiation) clients} (hp : s.pending = some p)
    (delivery : Delivery (httpEnvironment negotiation) p.op) :
    (∃ lines outcome, CallReport negotiation p.call.node p.call.method
        (p.trace ++ [⟨p.op, delivery⟩]) lines outcome ∧
      s.deliver p delivery =
        { s with
          pending := none
          completed := s.completed ++ [⟨{ p.delivered delivery with log := lines }, outcome⟩] }) ∨
    (∃ op lines resume, CallBegun negotiation p.call.node p.call.method
        (p.trace ++ [⟨p.op, delivery⟩]) op ∧
      s.deliver p delivery =
        { s with pending := some ⟨{ p.delivered delivery with log := lines }, op, resume⟩ }) := by
  have ht := hs.deliver hp delivery
  unfold State.deliver at ht ⊢
  rcases hsettle : (p.resume delivery.result).settle with ⟨lines, outcome | ⟨op, resume⟩⟩
  · rw [s.advance_finished (p.delivered delivery) hsettle] at ht ⊢
    have hreport := report_of_sound ht (List.mem_append_right _ List.mem_cons_self)
    exact Or.inl ⟨_, outcome, hreport, rfl⟩
  · rw [s.advance_suspended (p.delivered delivery) hsettle] at ht ⊢
    have hbegun := (begun_of_sound ht rfl).1
    exact Or.inr ⟨op, _, resume, hbegun, rfl⟩

end Kryptokrona
