import KryptokronaSdk.CallReports
import KryptokronaSdk.SharedCallers

/-!
# Callers of the clients side by side

A client holds a reference to its `Node`, whose properties can be changed at
runtime.  So callers share the `Node` objects of a program.  A method reads
`ssl`, `hostName` and `port` one after the other, and a change in between is
read in part.

Whatever the order of the steps of the callers, of their Jobs, of the replies
and of the changes to the nodes:

* `sentRequests_eq_invoked`: a caller has sent one request for each method it
  invoked, in order, and nothing else;
* `writtenLines_eq`: what its calls logged is what was thrown at them;
* `outcomes_faithful`: what a completed call told its caller is fixed by what
  was delivered to it;
* `call_completes`: a call that keeps being answered completes.
-/

namespace Kryptokrona

open Coroutine Serialization Serializable

/-- A method of a client, and the reference to the `Node` of the client. -/
structure ClientInvocation (Ref : Type) where
  node : Ref
  method : ClientMethod
deriving DecidableEq, Repr

/-- The `Node` objects of a program.  A method that is invoked reads `ssl`, then
`hostName`, then `port` of its node. -/
abbrev nodeObjects (Ref : Type) : Sharing clients where
  Store := Ref → Node
  Invocation := ClientInvocation Ref
  resolve invocation :=
    .read fun first => .read fun second => .read fun third =>
      .done
        { node :=
            { hostName := (second invocation.node).hostName
              port := (third invocation.node).port
              ssl := (first invocation.node).ssl }
          method := invocation.method }

variable {negotiation : ContentNegotiation} {Ref ι : Type} [DecidableEq ι]

/-- The request of a call. -/
def ClientCall.request (call : ClientCall) : HttpRequest := call.method.request call.node

/-- The `node` of a call made at step `k` was read off a `Node` object one
property after the other, each some time since the caller last ran. -/
def ReadOneByOne (r : SystemRun (httpEnvironment negotiation) (nodeObjects Ref) ι) (i : ι)
    (k : Nat) (ref : Ref) (node : Node) : Prop :=
  ∃ t₁ t₂ t₃, t₁ ≤ t₂ ∧ t₂ ≤ t₃ ∧ t₃ ≤ k ∧ r.Rests i t₁ k ∧
    node.ssl = ((r.state t₁).store ref).ssl ∧
    node.hostName = ((r.state t₂).store ref).hostName ∧
    node.port = ((r.state t₃).store ref).port

/-- What an invocation comes to. -/
theorem invoked_read (r : SystemRun (httpEnvironment negotiation) (nodeObjects Ref) ι) {i : ι}
    {k : Nat} {invocation : ClientInvocation Ref} {call : ClientCall}
    (hevent : r.event k = .invoke i invocation call) :
    call.method = invocation.method ∧ ReadOneByOne r i k invocation.node call.node := by
  obtain ⟨times, hseen, hsorted, hbefore⟩ := r.seen_eq i k
  have hstep := r.valid k
  rw [hevent] at hstep
  have hread := hstep.invoked.2
  rw [hseen] at hread
  -- each read starts from what the one before it left to be seen
  obtain ⟨t₁, later₁, hmem₁, hsorted₁, hread₁⟩ := hread.read_at hsorted
  obtain ⟨t₂, later₂, hmem₂, hsorted₂, hread₂⟩ := hread₁.read_at hsorted₁
  obtain ⟨t₃, later₃, hmem₃, hsorted₃, hread₃⟩ := hread₂.read_at hsorted₂
  obtain ⟨hm₁, _⟩ := hmem₁ t₁ List.mem_cons_self
  obtain ⟨hm₂, ht₁₂⟩ := hmem₁ t₂ (hmem₂ t₂ List.mem_cons_self).1
  obtain ⟨hm₃, ht₂₃⟩ := hmem₂ t₃ (hmem₃ t₃ List.mem_cons_self).1
  have hlast := hbefore t₃ (hmem₁ t₃ hm₃).1
  rw [hread₃.done_eq]
  exact ⟨rfl, t₁, t₂, t₃, ht₁₂, ht₂₃, hlast.1, (hbefore t₁ hm₁).2, rfl, rfl, rfl⟩

/-- What is sent at a suspension point. -/
def HttpOp.sent : HttpOp → Option HttpRequest
  | .request sent => some sent
  | .body _ _ => none

/-- The requests the calls of a caller have sent. -/
def sentRequests (s : ClientState negotiation) : List HttpRequest :=
  s.completed.flatMap (fun c => c.trace.filterMap fun x => x.1.sent) ++
    s.pending.toList.flatMap fun p =>
      (p.trace.map Sigma.fst ++ [p.op]).filterMap HttpOp.sent

/-- A completed call has sent its one request. -/
theorem CallReport.sent_eq {node : Node} {m : ClientMethod} {trace : HttpTrace negotiation}
    {lines : List LogLine} {outcome : Except Throwable m.Result}
    (h : CallReport negotiation node m trace lines outcome) :
    (trace.filterMap fun x => x.1.sent) = [m.request node] := by
  cases h <;> rfl

/-- So has a pending one. -/
theorem CallBegun.sent_eq {node : Node} {m : ClientMethod} {trace : HttpTrace negotiation}
    {op : HttpOp} (h : CallBegun negotiation node m trace op) :
    (trace.map Sigma.fst ++ [op]).filterMap HttpOp.sent = [m.request node] := by
  cases h <;> rfl

/-- The requests of a caller are those of its calls, one each. -/
theorem sentRequests_eq (r : ClientRun negotiation) (k : Nat) :
    sentRequests (r.state k) = (r.state k).calls.map ClientCall.request := by
  have hcompleted : ((r.state k).completed.flatMap fun c => c.trace.filterMap fun x => x.1.sent) =
      (r.state k).completed.map fun c => ClientCall.request c.call := by
    rw [List.map_eq_flatMap]
    apply List.flatMap_congr
    intro c hc
    exact (report_of_sound (r.sound k) hc).sent_eq
  have hpending : ((r.state k).pending.toList.flatMap fun p =>
        (p.trace.map Sigma.fst ++ [p.op]).filterMap HttpOp.sent) =
      (r.state k).pending.toList.map fun p => ClientCall.request p.call := by
    rw [List.map_eq_flatMap]
    apply List.flatMap_congr
    intro p hp
    exact (begun_of_sound (r.sound k) (Option.mem_toList.mp hp)).1.sent_eq
  rw [sentRequests, hcompleted, hpending, State.calls, List.map_append, List.map_map,
    List.map_map]
  rfl

/-- **One request for each invocation, in order**, to an address read off the
node of the client one property after the other. -/
theorem sentRequests_eq_invoked
    (r : SystemRun (httpEnvironment negotiation) (nodeObjects Ref) ι) (i : ι) (k : Nat) :
    sentRequests ((r.state k).caller i) = (r.invoked i k).map ClientCall.request ∧
      ∀ j < k, ∀ invocation call, r.event j = .invoke i invocation call →
        call.method = invocation.method ∧ ReadOneByOne r i j invocation.node call.node := by
  constructor
  · rw [← r.calls_eq_invoked i k]
    exact sentRequests_eq (r.caller i) k
  · intro j _ invocation call hevent
    exact invoked_read r hevent

/-- The lines the calls of a caller have logged. -/
def writtenLines (s : ClientState negotiation) : List LogLine :=
  s.completed.flatMap (fun c => c.log) ++ s.pending.toList.flatMap fun p => p.log

/-- The `Exception`s thrown at the calls of a caller, and the methods called. -/
def thrownExceptions (s : ClientState negotiation) : List (ClientMethod × Throwable) :=
  s.completed.flatMap (fun c =>
      (c.trace.filterMap exceptionOf).map fun e => (c.call.method, e)) ++
    s.pending.toList.flatMap fun p =>
      (p.trace.filterMap exceptionOf).map fun e => (p.call.method, e)

/-- **Every `Exception` thrown at a call is logged once**, under the names of
its method, and nothing else is; a call that still waits has logged nothing. -/
theorem writtenLines_eq
    (r : SystemRun (httpEnvironment negotiation) (nodeObjects Ref) ι) (i : ι) (k : Nat) :
    writtenLines ((r.state k).caller i) =
        (thrownExceptions ((r.state k).caller i)).map (fun thrown => thrown.1.line thrown.2) ∧
      ∀ p, ((r.state k).caller i).pending = some p → p.log = [] := by
  have hcompleted : ∀ c ∈ ((r.state k).caller i).completed, c.log =
      ((c.trace.filterMap exceptionOf).map fun e => (c.call.method, e)).map
        fun thrown => thrown.1.line thrown.2 := by
    intro c hc
    rw [List.map_map]
    exact (report_of_sound ((r.caller i).sound k) hc).lines_eq
  have hpending : ∀ p ∈ ((r.state k).caller i).pending.toList, p.log =
      ((p.trace.filterMap exceptionOf).map fun e => (p.call.method, e)).map
        fun thrown => thrown.1.line thrown.2 := by
    intro p hp
    have hsound := (r.caller i).sound k
    obtain ⟨hbegun, hlog⟩ := begun_of_sound hsound (Option.mem_toList.mp hp)
    rw [hlog, hbegun.exceptions]
    rfl
  constructor
  · rw [writtenLines, thrownExceptions, List.map_append, List.map_flatMap, List.map_flatMap]
    congr 1
    · exact List.flatMap_congr hcompleted
    · exact List.flatMap_congr hpending
  · intro p hp
    exact (begun_of_sound ((r.caller i).sound k) hp).2

/-- A completed call tells its caller what was delivered to it. -/
structure CallFaithful (c : Completed (httpEnvironment negotiation) clients) : Prop where
  throws_iff : ∀ e, c.outcome = .error e ↔
    e.isException = false ∧ ∃ x ∈ c.trace, x.2.result = .error e
  fallback_iff : c.outcome = .ok c.call.method.fallback ↔
    (∃ x ∈ c.trace, (exceptionOf x).isSome = true) ∨
      UnsuccessfulStatus c.call.request c.call.method c.trace ∨ NullBody c.trace

/-- The completed calls of a caller tell it what was delivered to them. -/
def OutcomesFaithful (s : ClientState negotiation) : Prop :=
  ∀ c ∈ s.completed, CallFaithful c

/-- **No call of any caller ends in an `Exception`**: it throws an `Error` that
was thrown at it, and returns its fallback exactly after an `Exception`, a body
decoded to `null` or, in a health check, a status that is no success. -/
theorem outcomes_faithful
    (r : SystemRun (httpEnvironment negotiation) (nodeObjects Ref) ι) (i : ι) (k : Nat) :
    OutcomesFaithful ((r.state k).caller i) := by
  intro c hc
  have hreport := report_of_sound ((r.caller i).sound k) hc
  exact ⟨hreport.throws_iff, hreport.fallback_iff⟩

/-- A method suspends at most twice. -/
theorem code_atMost (node : Node) (m : ClientMethod) : (m.code node).AtMost 2 := by
  cases m with
  | isNodeRunning =>
      have hget : (get (node.url "info")).AtMost 1 := atMost_suspend _
      have hstatus := @atMost_mapped _ _ _ _ _ _
        (fun response : HttpResponse => response.status.isSuccess) _ hget
      have hguarded := @atMost_catchException _ _ _ _ _
        (logError "NodeClient" "Error getting node information" false) _ 0 hstatus
        fun _ => trivial
      exact hguarded.mono (by decide)
  | data m =>
      have hget : (get (node.url m.endpoint.path)).AtMost 1 := atMost_suspend _
      have hbody : ∀ response : HttpResponse, (response.body m.Data).AtMost 1 :=
        fun response => atMost_mapped (atMost_suspend _)
      have hguarded := @atMost_catchException _ _ _ _ _
        (logError m.endpoint.logger m.endpoint.message none) _ 0 (atMost_bind hget hbody)
        fun _ => trivial
      change (m.code node).AtMost 2
      rw [m.code_eq_endpoint]
      exact hguarded

/-- **A call that keeps being answered completes**, before its caller makes
another one, and after at most two deliveries. -/
theorem call_completes
    (r : SystemRun (httpEnvironment negotiation) (nodeObjects Ref) ι) (i : ι)
    (hanswers : (r.caller i).Answers) {k : Nat}
    {p : Pending (httpEnvironment negotiation) clients}
    (hpending : ((r.state k).caller i).pending = some p) :
    ∃ j c, k < j ∧
      ((r.state j).caller i).completed = ((r.state k).caller i).completed ++ [c] ∧
      c.Extends p.toCallRecord ∧ c.trace.length ≤ 2 :=
  (r.caller i).completes (fun call => code_atMost call.node call.method) hanswers hpending

/-- The pending call of a state, if there is one, is resumed as in an exchange
that brings `response`. -/
def respond (response : HttpResponse) (s : ClientState negotiation) : ClientState negotiation :=
  match s.pending with
  | none => s
  | some p => s.deliver p (.reply (exchange response p.op))

theorem step_respond {response : HttpResponse} {s : ClientState negotiation}
    {p : Pending (httpEnvironment negotiation) clients} (hp : s.pending = some p) :
    Step s (.resume ⟨p.op, .reply (exchange response p.op)⟩) (respond response s) := by
  have hnext : respond response s = s.deliver p (.reply (exchange response p.op)) := by
    unfold respond
    rw [hp]
  rw [hnext]
  apply Step.resume _ hp
  intro hcancellation
  cases hcancellation

/-- Two callers of one node, neither of which has called yet. -/
def twoCallers : SystemState (httpEnvironment strictNegotiation) (nodeObjects Unit) Bool :=
  ⟨fun _ => testNode, fun _ => State.initial _ _, fun _ => [fun _ => testNode]⟩

/-- One of them asks for the fee of the node. -/
def feeAsked : SystemState (httpEnvironment strictNegotiation) (nodeObjects Unit) Bool :=
  twoCallers.move true ((twoCallers.caller true).invoke ⟨testNode, .data .getNodeFee⟩)

/-- The node after a change of its port. -/
def movedNode (_ : Unit) : Node := { testNode with port := 80 }

/-- The port of the node was changed meanwhile. -/
def portChanged : SystemState (httpEnvironment strictNegotiation) (nodeObjects Unit) Bool :=
  { feeAsked with store := movedNode, seen := fun i => feeAsked.seen i ++ [movedNode] }

/-- A document that states a fee. -/
def feeDocument : JsonElement :=
  .object [("status", .string "OK"), ("amount", .number 5000000000), ("address", .string "")]

def feeResponse : HttpResponse := ⟨⟨200, true⟩, .json feeDocument⟩

/-- The response is there, and its body not yet. -/
def feeResponded : SystemState (httpEnvironment strictNegotiation) (nodeObjects Unit) Bool :=
  portChanged.move true (respond feeResponse (portChanged.caller true))

/-- The fee has been returned. -/
def feeReturned : SystemState (httpEnvironment strictNegotiation) (nodeObjects Unit) Bool :=
  feeResponded.move true (respond feeResponse (feeResponded.caller true))

/-- A fee asked for while the port of the node is changed. -/
def feeRun : SystemRun (httpEnvironment strictNegotiation) (nodeObjects Unit) Bool where
  state
    | 0 => twoCallers
    | 1 => feeAsked
    | 2 => portChanged
    | 3 => feeResponded
    | _ => feeReturned
  event
    | 0 => .invoke true ⟨(), .data .getNodeFee⟩ ⟨testNode, .data .getNodeFee⟩
    | 1 => .write movedNode
    | 2 => .resume true ⟨.request (ClientMethod.request testNode (.data .getNodeFee)),
        .reply (.response feeResponse)⟩
    | 3 => .resume true ⟨.body feeResponse (descriptor Fee), .reply .decode⟩
    | _ => .idle
  initialized _ := ⟨rfl, rfl⟩
  valid
    | 0 => SystemStep.invoke true _ rfl (.read (.read (.read (.done _))))
    | 1 => SystemStep.write feeAsked movedNode
    | 2 => SystemStep.resume true (@step_respond _ feeResponse (portChanged.caller true) _ rfl)
    | 3 => SystemStep.resume true (@step_respond _ feeResponse (feeResponded.caller true) _ rfl)
    | _ + 4 => SystemStep.idle feeReturned

theorem feeRun_answers : (feeRun.caller true).Answers := by
  intro k p hpending
  match k with
  | 0 => cases hpending
  | 1 => exact ⟨2, by decide, _, rfl⟩
  | 2 => exact ⟨2, by decide, _, rfl⟩
  | 3 => exact ⟨3, by decide, _, rfl⟩
  | _ + 4 => cases hpending

theorem feeRun_completes :
    ∃ j c, 1 < j ∧ ((feeRun.state j).caller true).completed =
      ((feeRun.state 1).caller true).completed ++ [c] ∧ c.trace.length ≤ 2 := by
  obtain ⟨j, c, hj, hcompleted, _, hlength⟩ :=
    @call_completes _ _ _ _ feeRun true feeRun_answers 1 _ rfl
  exact ⟨j, c, hj, hcompleted, hlength⟩

end Kryptokrona
