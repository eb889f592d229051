import KryptokronaSdk.CancellationTransparency
import KryptokronaSdk.ClientRuns
import KryptokronaSdk.PromptCancellation

/-!
# Callers that outlive their Job

The `catch (e: Exception)` of the methods keeps a caller going after its Job
was cancelled: it gets a fallback where it should have been stopped, and may
invoke the next method.  A request is a cancellable operation.  When
cancellation is prompt, a call made from then on cannot get its response.

* `cancelled_calls_blind`: so each such call is told nothing of its node, and
  what was thrown at its request is logged and returned as if it were;
* `callers_transparent_iff`: and a caller is misled exactly by the
  cancellations of its own calls, by bodies decoded to `null` and by failures
  of the calls it begins late, whatever the Jobs of the others go through.

The call during which the Job is cancelled is not blind: it may have its
response already, and then still return data.
-/

namespace Kryptokrona

open Coroutine Serialization

variable {negotiation : ContentNegotiation} {Ref ι : Type} [DecidableEq ι]

/-- A call that got no response has heard nothing before it completes. -/
theorem CallBegun.unanswered {node : Node} {m : ClientMethod} {trace : HttpTrace negotiation}
    {op : HttpOp} (h : CallBegun negotiation node m trace op)
    (hunanswered : Unanswered HttpOp.Cancellable trace) :
    trace = [] ∧ op = .request (m.request node) := by
  cases h with
  | requested m => exact ⟨rfl, rfl⟩
  | answered m response =>
      obtain ⟨e, he⟩ := hunanswered _ List.mem_cons_self trivial
      cases he

/-- Its request threw, and that is all it reports. -/
theorem CallReport.unanswered {node : Node} {m : ClientMethod} {trace : HttpTrace negotiation}
    {lines : List LogLine} {outcome : Except Throwable m.Result}
    (h : CallReport negotiation node m trace lines outcome)
    (hunanswered : Unanswered HttpOp.Cancellable trace) :
    ∃ (delivery : Delivery (httpEnvironment negotiation) (.request (m.request node)))
      (e : Throwable), trace = [⟨_, delivery⟩] ∧ delivery.result = .error e ∧
      lines = logged m.endpoint.logger m.endpoint.message
        (.error e : Except Throwable m.Result) ∧
      outcome = caught m.fallback (.error e) := by
  cases h with
  | requestThrew m delivery e hthrew => exact ⟨delivery, e, rfl, hthrew, rfl, rfl⟩
  | statusRead response =>
      obtain ⟨e, he⟩ := hunanswered _ List.mem_cons_self trivial
      cases he
  | bodyEnded m response delivery =>
      obtain ⟨e, he⟩ := hunanswered _ List.mem_cons_self trivial
      cases he

/-- A completed call made its request, at which something was thrown, and
reported that as a failure of the node. -/
def CallBlind (c : Completed (httpEnvironment negotiation) clients) : Prop :=
  ∃ (delivery : Delivery (httpEnvironment negotiation) (.request c.call.request))
    (e : Throwable), c.trace = [⟨_, delivery⟩] ∧ delivery.result = .error e ∧
    c.log = logged c.call.method.endpoint.logger c.call.method.endpoint.message
      (.error e : Except Throwable c.call.method.Result) ∧
    c.outcome = caught c.call.method.fallback (.error e)

/-- The calls after the first `n` were blind, and one in progress has heard
nothing yet. -/
structure BlindAfter (n : Nat) (s : ClientState negotiation) : Prop where
  completed : ∀ c ∈ s.completed.drop n, CallBlind c
  pending : ∀ p, s.pending = some p → n ≤ s.completed.length →
    p.trace = [] ∧ p.op = .request p.call.request ∧ p.log = []

/-- **Once its Job is cancelled, every call a caller makes is blind**, in any
order of the steps of all callers, if cancellation is prompt. -/
theorem cancelled_calls_blind
    (r : SystemRun (httpEnvironment negotiation) (nodeObjects Ref) ι) (i : ι)
    (hprompt : (r.caller i).Prompt HttpOp.Cancellable) {k : Nat}
    (hcancelled : ((r.state k).caller i).cancelled = true) (d : Nat) :
    BlindAfter ((r.state k).caller i).calls.length ((r.state (k + d)).caller i) := by
  have hunanswered := (r.caller i).unanswered_from hprompt hcancelled d
  have hsound := (r.caller i).sound (k + d)
  constructor
  · intro c hc
    have hreport := report_of_sound hsound (List.mem_of_mem_drop hc)
    exact hreport.unanswered (hunanswered.completed c hc)
  · intro p hp hn
    obtain ⟨hbegun, hlog⟩ := begun_of_sound hsound hp
    obtain ⟨htrace, hop⟩ := hbegun.unanswered (hunanswered.pending p hp hn)
    exact ⟨htrace, hop, hlog⟩

/-- The Job of one of two callers is cancelled. -/
def jobCancelled : SystemState (httpEnvironment strictNegotiation) (nodeObjects Unit) Bool :=
  { twoCallers with
    caller := Function.update twoCallers.caller true
      { twoCallers.caller true with cancelled := true } }

/-- It asks for the fee of the node nevertheless. -/
def feeAskedLate : SystemState (httpEnvironment strictNegotiation) (nodeObjects Unit) Bool :=
  jobCancelled.move true ((jobCancelled.caller true).invoke ⟨testNode, .data .getNodeFee⟩)

/-- The request is resumed by the cancellation. -/
def feeLost : SystemState (httpEnvironment strictNegotiation) (nodeObjects Unit) Bool :=
  feeAskedLate.move true (interrupt (feeAskedLate.caller true))

/-- A fee asked for after the cancellation. -/
def lateRun : SystemRun (httpEnvironment strictNegotiation) (nodeObjects Unit) Bool where
  state
    | 0 => twoCallers
    | 1 => jobCancelled
    | 2 => feeAskedLate
    | _ => feeLost
  event
    | 0 => .cancel true
    | 1 => .invoke true ⟨(), .data .getNodeFee⟩ ⟨testNode, .data .getNodeFee⟩
    | 2 => .resume true ⟨.request (ClientMethod.request testNode (.data .getNodeFee)),
        .cancellation⟩
    | _ => .idle
  initialized _ := ⟨rfl, rfl⟩
  valid
    | 0 => SystemStep.cancel twoCallers true
    | 1 => SystemStep.invoke true _ rfl (.read (.read (.read (.done _))))
    | 2 => SystemStep.resume true (@step_interrupt _ (feeAskedLate.caller true) rfl rfl)
    | _ + 3 => SystemStep.idle feeLost

theorem lateRun_prompt : (lateRun.caller true).Prompt HttpOp.Cancellable := by
  intro k x _ _ hevent
  match k with
  | 0 => cases hevent
  | 1 => cases hevent
  | 2 =>
      cases hevent
      exact ⟨.cancellation, rfl⟩
  | _ + 3 => cases hevent

theorem lateRun_blind : ∃ c, ((lateRun.state 3).caller true).completed = [c] ∧ CallBlind c := by
  have hblind := @cancelled_calls_blind _ _ _ _ lateRun true lateRun_prompt 1 rfl 2
  exact ⟨_, rfl, hblind.completed _ List.mem_cons_self⟩

/-- A pending call begun under a cancelled Job is at its request. -/
theorem late_at_request (r : ClientRun negotiation) (hprompt : r.Prompt HttpOp.Cancellable)
    {k : Nat} {p : Pending (httpEnvironment negotiation) clients}
    (hpending : (r.state k).pending = some p) (hlate : p.begunCancelled = true) :
    p.op = .request p.call.request := by
  have hbegun := (begun_of_sound (r.sound k) hpending).1
  exact (hbegun.unanswered ((r.late hprompt k).1 p hpending hlate)).2

/-- What a call may be resumed with when cancellation is prompt: not with the
cancellation, nor with a body decoded to `null`, nor with a failure if the Job
was cancelled before the call began. -/
def HarmlessWhenPrompt (negotiation : ContentNegotiation) (begunCancelled : Bool) :
    Resumption (httpEnvironment negotiation) → Prop
  | ⟨_, .cancellation⟩ => False
  | ⟨.request _, .reply (.response _)⟩ => True
  | ⟨.body response d, .reply .decode⟩ => negotiation.receive d response.content ≠ .ok none
  | ⟨_, .reply (.ioFailure _)⟩ => begunCancelled = false
  | ⟨_, .reply (.fatal _)⟩ => True

theorem harmlessBody_live_iff {α : Type} {decoded : Except Throwable (Option α)} :
    HarmlessBody false decoded ↔ decoded ≠ .ok none := by
  cases decoded with
  | ok value => cases value <;> simp [HarmlessBody]
  | error e => simp [HarmlessBody]

/-- For a call begun in time nothing else does harm. -/
theorem harmless_live_iff {m : ClientMethod} {x : Resumption (httpEnvironment negotiation)} :
    Harmless negotiation false m x ↔ HarmlessWhenPrompt negotiation false x := by
  obtain ⟨op, delivery⟩ := x
  cases delivery with
  | cancellation => cases op <;> exact Iff.rfl
  | reply answer =>
      cases answer with
      | response response => exact iff_of_true (fun _ => rfl) trivial
      | decode => exact harmlessBody_live_iff
      | ioFailure name => cases op <;> exact Iff.rfl
      | fatal name => cases op <;> exact Iff.rfl

/-- For a call begun late neither does anything else, as its request is all it
can wait for. -/
theorem harmless_late_iff {m : ClientMethod} {request : HttpRequest}
    {delivery : Delivery (httpEnvironment negotiation) (.request request)} {e : Throwable}
    (hthrew : delivery.result = .error e) :
    Harmless negotiation true m ⟨.request request, delivery⟩ ↔
      HarmlessWhenPrompt negotiation true ⟨.request request, delivery⟩ := by
  rcases delivery_request_error hthrew with hd | ⟨name, hd⟩ | ⟨name, hd⟩
  · rw [hd]
    exact Iff.rfl
  · rw [hd]
    exact Iff.rfl
  · rw [hd]
    exact Iff.rfl

/-- When cancellation is prompt, the two notions of harm are one. -/
theorem harmless_iff_whenPrompt (r : ClientRun negotiation) (hprompt : r.Prompt HttpOp.Cancellable)
    {k : Nat} {x : Resumption (httpEnvironment negotiation)} (hevent : r.event k = .resume x)
    {p : Pending (httpEnvironment negotiation) clients}
    (hpending : (r.state k).pending = some p) :
    Harmless negotiation p.begunCancelled p.call.method x ↔
      HarmlessWhenPrompt negotiation p.begunCancelled x := by
  cases hbegun : p.begunCancelled with
  | false => exact harmless_live_iff
  | true =>
      have hstep := r.valid k
      rw [hevent] at hstep
      obtain ⟨delivery, hx, _⟩ := hstep.resumed hpending
      have hop : x.1 = .request p.call.request := by
        rw [hx]
        exact late_at_request r hprompt hpending hbegun
      have hcancelled := (r.sound k).begun p hpending hbegun
      -- at a request prompt cancellation leaves only what is thrown
      clear hx
      obtain ⟨op, answer⟩ := x
      change op = _ at hop
      subst hop
      obtain ⟨e, hthrew⟩ := hprompt k ⟨.request _, answer⟩ hcancelled trivial hevent
      exact harmless_late_iff hthrew

/-- **A caller is misled by its own deliveries and by nothing else**: if
cancellation is prompt, it takes a cancellation delivered to one of its calls,
a body decoded to `null`, or a failure of a call it began late. -/
theorem callers_transparent_iff
    (r : SystemRun (httpEnvironment negotiation) (nodeObjects Ref) ι) (i : ι)
    (hprompt : (r.caller i).Prompt HttpOp.Cancellable) :
    (∀ k, CancellationTransparent ((r.state k).caller i)) ↔
      ∀ k x p, r.event k = .resume i x → ((r.state k).caller i).pending = some p →
        HarmlessWhenPrompt negotiation p.begunCancelled x := by
  constructor
  · intro htransparent k x p hevent hpending
    have hseen : (r.caller i).event k = .resume x := SystemEvent.seenBy_eq_resume_iff.mpr hevent
    have hharmless := harmless_of_transparent (r.caller i) (htransparent (k+1)) hseen hpending
    exact (harmless_iff_whenPrompt (r.caller i) hprompt hseen hpending).mp hharmless
  · intro hharmless'
    apply transparent_of_harmless (r.caller i)
    intro k x p hseen hpending
    have hevent := SystemEvent.seenBy_eq_resume_iff.mp hseen
    exact (harmless_iff_whenPrompt (r.caller i) hprompt hseen hpending).mpr
      (hharmless' k x p hevent hpending)

/-- The late fee misleads its caller. -/
theorem lateRun_misled : ¬ ∀ k, CancellationTransparent ((lateRun.state k).caller true) := by
  rw [callers_transparent_iff lateRun true lateRun_prompt]
  intro hharmless'
  exact hharmless' 2 _ _ rfl rfl

end Kryptokrona
