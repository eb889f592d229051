import KryptokronaSdk.CallReports

/-!
# Cancellation and the failures the clients report

A method of the clients reports a failure of its node by the value behind
its `try`: `null`, or `false` from `isNodeRunning`.  A caller whose Job is
cancelled should see the `CancellationException` and not such a report.
`CancellationTransparent` says so of a state: a completed call returned its
fallback only because its own exchange failed, and a call begun under a
cancelled Job did not return at all.

The `catch (e: Exception)` of every method takes the `CancellationException`
with the rest, and every other `Exception` too, whatever has become of the Job.
A body that is decoded to `null` is returned as if nothing had been stated.
`Harmless` lists the deliveries that come to none of this.

* `CallReport.transparent_iff`: a call is transparent exactly when each delivery
  to it was harmless;
* `cancellationTransparent_iff`: so a run keeps cancellation apart from failure
  exactly when each of its deliveries is harmless;
* `interruptedRun_not_transparent`: a health check cancelled by its caller
  answers that the node is not running, and the next call returns `null` as
  if nothing had happened.
-/

namespace Kryptokrona

open Coroutine Serialization Serializable

variable {negotiation : ContentNegotiation}

/-- A call does not pass a cancellation off as a failure of the node, and does
not return if it was begun under a cancelled Job. -/
structure CallTransparent (begunCancelled : Bool) (m : ClientMethod)
    (trace : HttpTrace negotiation) (outcome : Except Throwable m.Result) : Prop where
  failure_is_own : outcome = .ok m.fallback → m.ExchangeFailed trace
  late_call_throws : begunCancelled = true → ∀ v, outcome ≠ .ok v

/-- No call completed so far passes a cancellation off as a failure of the
node. -/
def CancellationTransparent (s : ClientState negotiation) : Prop :=
  ∀ c ∈ s.completed, CallTransparent c.begunCancelled c.call.method c.trace c.outcome

/-- What the decoding of a body may come to.  A call begun under a cancelled Job
returns after anything but an `Error`. -/
def HarmlessBody {α : Type} (begunCancelled : Bool) : Except Throwable (Option α) → Prop
  | .ok none => False
  | .ok (some _) => begunCancelled = false
  | .error e => e.isException = true → begunCancelled = false

/-- What a call of a method may be resumed with.  A call begun under a
cancelled Job may not be resumed with anything that makes it return. -/
def Harmless (negotiation : ContentNegotiation) (begunCancelled : Bool) (m : ClientMethod) :
    Resumption (httpEnvironment negotiation) → Prop
  | ⟨_, .cancellation⟩ => False
  | ⟨.request _, .reply (.response _)⟩ => m = .isNodeRunning → begunCancelled = false
  | ⟨.body response d, .reply .decode⟩ =>
      HarmlessBody begunCancelled (negotiation.receive d response.content)
  | ⟨_, .reply (.ioFailure _)⟩ => begunCancelled = false
  | ⟨_, .reply (.fatal _)⟩ => True

theorem harmless_ioFailure {begun : Bool} {m : ClientMethod} {op : HttpOp} {name : String} :
    Harmless negotiation begun m ⟨op, .reply (HttpReply.ioFailure name)⟩ ↔ begun = false := by
  cases op <;> exact Iff.rfl

theorem harmless_fatal {begun : Bool} {m : ClientMethod} {op : HttpOp} {name : String} :
    Harmless negotiation begun m ⟨op, .reply (HttpReply.fatal name)⟩ := by
  cases op <;> trivial

theorem callTransparent_error {begun : Bool} {m : ClientMethod}
    {trace : HttpTrace negotiation} (e : Throwable) :
    CallTransparent begun m trace (.error e) := by
  constructor
  · intro hfallback
    cases hfallback
  · intro _ v hvalue
    cases hvalue

theorem callTransparent_ok_iff {begun : Bool} {m : ClientMethod}
    {trace : HttpTrace negotiation} {v : m.Result} :
    CallTransparent begun m trace (.ok v) ↔
      (v = m.fallback → m.ExchangeFailed trace) ∧ begun = false := by
  have hfallback : (Except.ok v : Except Throwable m.Result) = .ok m.fallback ↔
      v = m.fallback := ⟨Except.ok.inj, congrArg Except.ok⟩
  have hlate : (begun = true → ∀ v', (Except.ok v : Except Throwable m.Result) ≠ .ok v') ↔
      begun = false := by
    cases begun with
    | true => exact iff_of_false (fun h => h rfl v rfl) (by simp)
    | false => exact iff_of_true (fun h => by cases h) rfl
  rw [← hfallback, ← hlate]
  exact ⟨fun h => ⟨h.failure_is_own, h.late_call_throws⟩, fun h => ⟨h.1, h.2⟩⟩

/-- An exchange of one delivery failed when that delivery did. -/
theorem exchangeFailed_singleton {m : ClientMethod}
    {x : Resumption (httpEnvironment negotiation)} : m.ExchangeFailed [x] ↔ m.Fails x := by
  simp [ClientMethod.ExchangeFailed]

/-- The response itself fails no data method. -/
theorem exchangeFailed_pair {m : DataMethod} {request : HttpRequest} {response : HttpResponse}
    {x : Resumption (httpEnvironment negotiation)} :
    (ClientMethod.data m).ExchangeFailed
        [⟨.request request, .reply (HttpReply.response response)⟩, x] ↔
      (ClientMethod.data m).Fails x := by
  simp [ClientMethod.ExchangeFailed, ClientMethod.Fails, HttpReply.Fails]

/-- A call whose body was decoded is transparent exactly when that is harmless. -/
theorem callTransparent_decoded_iff {begun : Bool} {m : DataMethod}
    {trace : HttpTrace negotiation}
    {decoded : Except Throwable (Option (descriptor m.Data).Value)}
    (hfailed : (ClientMethod.data m).ExchangeFailed trace ↔ ∃ e, decoded = .error e) :
    CallTransparent begun (.data m) trace (caught none (Option.map ofValue <$> decoded)) ↔
      HarmlessBody begun decoded := by
  cases decoded with
  | ok value =>
      refine callTransparent_ok_iff.trans ?_
      cases value with
      | none =>
          refine iff_of_false ?_ id
          intro htransparent
          obtain ⟨e, he⟩ := hfailed.mp (htransparent.1 rfl)
          cases he
      | some v => exact and_iff_right fun hnull => by cases hnull
  | error e =>
      by_cases hcaught : e.isException = true
      · have hnull : caught none (Option.map (ofValue : _ → m.Data) <$> Except.error e) =
            .ok none := caught_map_eq_none_iff.mpr (Or.inr ⟨e, rfl, hcaught⟩)
        rw [hnull]
        refine callTransparent_ok_iff.trans ?_
        rw [and_iff_right fun _ => hfailed.mpr ⟨e, rfl⟩]
        exact (imp_iff_right hcaught).symm
      -- an `Error` passes through the `catch`, so the call does not return at all
      · have hthrown : caught none (Option.map (ofValue : _ → m.Data) <$> Except.error e) =
            .error e := caught_eq_error_iff.mpr ⟨rfl, by simpa using hcaught⟩
        rw [hthrown]
        exact iff_of_true (callTransparent_error e) fun h => absurd h hcaught

/-- **A call is transparent exactly when each delivery to it was harmless.** -/
theorem CallReport.transparent_iff {node : Node} {begun : Bool} {m : ClientMethod}
    {trace : HttpTrace negotiation} {lines : List LogLine}
    {outcome : Except Throwable m.Result}
    (h : CallReport negotiation node m trace lines outcome) :
    CallTransparent begun m trace outcome ↔
      ∀ x ∈ trace, Harmless negotiation begun m x := by
  cases h with
  | requestThrew m delivery e hthrew =>
      rw [List.forall_mem_singleton]
      rcases delivery_request_error hthrew with hd | ⟨name, hd⟩ | ⟨name, hd⟩
      · subst hd
        cases hthrew
        refine callTransparent_ok_iff.trans ?_
        rw [exchangeFailed_singleton]
        exact iff_of_false (fun h => h.1 rfl) id
      · subst hd
        cases hthrew
        refine (callTransparent_ok_iff.trans ?_).trans harmless_ioFailure.symm
        rw [exchangeFailed_singleton]
        exact and_iff_right fun _ => ioFailure_fails m _ name
      · subst hd
        cases hthrew
        exact iff_of_true (callTransparent_error _) harmless_fatal
  | statusRead response =>
      rw [List.forall_mem_singleton, callTransparent_ok_iff, exchangeFailed_singleton]
      refine (and_iff_right ?_).trans (imp_iff_right rfl).symm
      intro hstatus
      exact hstatus
  | bodyEnded m response delivery =>
      -- the response took the call on to its body and made it return nothing yet
      have hresponse : Harmless negotiation begun (.data m)
          ⟨.request ((ClientMethod.data m).request node),
            .reply (HttpReply.response response)⟩ := by
        intro hmethod
        cases hmethod
      rw [List.forall_mem_cons, and_iff_right hresponse, List.forall_mem_singleton]
      cases delivery with
      | cancellation =>
          refine callTransparent_ok_iff.trans ?_
          rw [exchangeFailed_pair]
          exact iff_of_false (fun h => h.1 rfl) id
      | reply answer =>
          cases answer with
          | ioFailure name =>
              refine (callTransparent_ok_iff.trans ?_).trans harmless_ioFailure.symm
              rw [exchangeFailed_pair]
              exact and_iff_right fun _ => ioFailure_fails (.data m) _ name
          | fatal name => exact iff_of_true (callTransparent_error _) harmless_fatal
          | decode => exact callTransparent_decoded_iff exchangeFailed_pair

/-- What takes a call to its next suspension point is harmless. -/
theorem CallBegun.harmless {node : Node} {begun : Bool} {m : ClientMethod}
    {trace : HttpTrace negotiation} {op : HttpOp}
    (h : CallBegun negotiation node m trace op) :
    ∀ x ∈ trace, Harmless negotiation begun m x := by
  intro x hx
  cases h with
  | requested m => cases hx
  | answered m response =>
      rw [List.mem_singleton.mp hx]
      intro hmethod
      cases hmethod

/-- In a run of harmless deliveries every call is transparent. -/
theorem transparent_of_harmless (r : ClientRun negotiation)
    (hharmless : ∀ k x p, r.event k = .resume x → (r.state k).pending = some p →
      Harmless negotiation p.begunCancelled p.call.method x) (k : Nat) :
    CancellationTransparent (r.state k) := by
  have htraces : ∀ k, (r.state k).Traces fun (call : ClientCall) begun trace =>
      ∀ x ∈ trace, Harmless negotiation begun call.method x := by
    apply r.traces
    · intro call begun x hx
      cases hx
    · intro k p delivery hpending hevent htrace x hx
      rcases List.mem_append.mp hx with hold | hnew
      · exact htrace x hold
      · rw [List.mem_singleton.mp hnew]
        exact hharmless k _ p hevent hpending
  intro c hc
  have hreport := report_of_sound (r.sound k) hc
  exact hreport.transparent_iff.mpr ((htraces k).2 c hc)

/-- A delivery that leaves all calls transparent is harmless. -/
theorem harmless_of_transparent (r : ClientRun negotiation) {k : Nat}
    (htransparent : CancellationTransparent (r.state (k+1)))
    {x : Resumption (httpEnvironment negotiation)} (hevent : r.event k = .resume x)
    {p : Pending (httpEnvironment negotiation) clients}
    (hpending : (r.state k).pending = some p) :
    Harmless negotiation p.begunCancelled p.call.method x := by
  have hstep := r.valid k
  rw [hevent] at hstep
  obtain ⟨delivery, hx, ht⟩ := hstep.resumed hpending
  rw [hx]
  rcases deliver_cases (r.sound k) hpending delivery with
    ⟨lines, outcome, hreport, hdone⟩ | ⟨op, lines, resume, hbegun, _⟩
  · rw [ht, hdone] at htransparent
    have hlast := htransparent _ (List.mem_append_right _ (List.mem_singleton.mpr rfl))
    exact hreport.transparent_iff.mp hlast _ (List.mem_append_right _ List.mem_cons_self)
  · exact hbegun.harmless _ (List.mem_append_right _ List.mem_cons_self)

/-- **Cancellation is kept apart from failure in every state of a run exactly
when every delivery of the run is harmless.** -/
theorem cancellationTransparent_iff (r : ClientRun negotiation) :
    (∀ k, CancellationTransparent (r.state k)) ↔
      ∀ k x p, r.event k = .resume x → (r.state k).pending = some p →
        Harmless negotiation p.begunCancelled p.call.method x := by
  constructor
  · intro htransparent k x p hevent hpending
    exact harmless_of_transparent r (htransparent (k+1)) hevent hpending
  · intro hharmless k
    exact transparent_of_harmless r hharmless k

/-- The pending call of a state, if there is one, is resumed by the
cancellation. -/
def interrupt (s : ClientState negotiation) : ClientState negotiation :=
  match s.pending with
  | none => s
  | some p => s.deliver p .cancellation

def interruption (s : ClientState negotiation) : Event (httpEnvironment negotiation) :=
  match s.pending with
  | none => .idle
  | some p => .resume ⟨p.op, .cancellation⟩

theorem step_interrupt {s : ClientState negotiation} (hpending : s.pending.isSome = true)
    (hcancelled : s.cancelled = true) : Step s (interruption s) (interrupt s) := by
  obtain ⟨p, hp⟩ := Option.isSome_iff_exists.mp hpending
  unfold interruption interrupt
  rw [hp]
  exact Step.resume .cancellation hp fun _ => hcancelled

/-- A health check waits for its response. -/
def checking : ClientState strictNegotiation :=
  (State.initial _ _).invoke ⟨testNode, .isNodeRunning⟩

/-- The Job was cancelled meanwhile. -/
def checkCancelled : ClientState strictNegotiation := { checking with cancelled := true }

/-- The check is resumed by that. -/
def checkInterrupted : ClientState strictNegotiation := interrupt checkCancelled

/-- The caller goes on and asks for the info of the node. -/
def asking : ClientState strictNegotiation :=
  checkInterrupted.invoke ⟨testNode, .data .getNodeInfo⟩

/-- A caller whose Job is cancelled during its health check. -/
def interruptedRun : ClientRun strictNegotiation where
  state
    | 0 => State.initial _ _
    | 1 => checking
    | 2 => checkCancelled
    | 3 => checkInterrupted
    | 4 => asking
    | _ => interrupt asking
  event
    | 0 => .call
    | 1 => .cancel
    | 2 => interruption checkCancelled
    | 3 => .call
    | 4 => interruption asking
    | _ => .idle
  initialized := rfl
  valid
    | 0 => Step.call _ rfl
    | 1 => Step.cancel _
    | 2 => step_interrupt rfl rfl
    | 3 => Step.call _ rfl
    | 4 => step_interrupt rfl rfl
    | _ + 5 => Step.idle _

/-- **The cancelled health check answers that the node is not running**,
though its exchange did not fail, and the call begun after it returns. -/
theorem interruptedRun_not_transparent :
    (∃ c ∈ (interruptedRun.state 3).completed,
      c.outcome = .ok c.call.method.fallback ∧ ¬ c.call.method.ExchangeFailed c.trace) ∧
    (∃ c ∈ (interruptedRun.state 5).completed,
      c.begunCancelled = true ∧ ∃ v, c.outcome = .ok v) ∧
    ¬ ∀ k, CancellationTransparent (interruptedRun.state k) := by
  have hmisled : ∃ c ∈ (interruptedRun.state 3).completed,
      c.outcome = .ok c.call.method.fallback ∧ ¬ c.call.method.ExchangeFailed c.trace :=
    ⟨_, List.mem_cons_self, rfl, exchangeFailed_singleton.not.mpr id⟩
  refine ⟨hmisled, ?_, ?_⟩
  · exact ⟨_, List.mem_cons_of_mem _ List.mem_cons_self, rfl, _, rfl⟩
  · intro htransparent
    obtain ⟨c, hc, hfallback, hsound⟩ := hmisled
    exact hsound ((htransparent 3 c hc).failure_is_own hfallback)

end Kryptokrona
