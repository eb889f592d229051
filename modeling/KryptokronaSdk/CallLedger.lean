import KryptokronaSdk.ClientRuns

/-!
# What a caller sees of the clients

Seen from its caller the SDK is a small protocol.  A call is asked, its
request fails or brings a response, and the caller is told a verdict.  The
`Ledger` of a caller is the phase of this protocol it is in, and the verdicts
it has been told; it knows nothing of coroutines, traces and logs.

* `ledger_refines`: what any caller goes through, in any interleaving, is an
  execution of the protocol;
* `ledgers_complete`: and every interleaving of executions of the protocol is
  what the callers of some run go through;
* `verdicts_requested`: every request of a caller is told of once, in order,
  after an answer to it, and no verdict is taken back.
-/

namespace Kryptokrona

open Coroutine Serialization Serializable

/-- Where a caller stands. -/
inductive Phase
  | idle
  | asked (call : ClientCall)
  | answered (call : ClientCall) (response : HttpResponse)

/-- What a caller was told of a call. -/
structure Verdict where
  call : ClientCall
  outcome : Except Throwable call.method.Result

structure Ledger where
  phase : Phase
  verdicts : List Verdict

/-- The caller is told a verdict. -/
def Ledger.tell (verdicts : List Verdict) (node : Node) (m : ClientMethod)
    (outcome : Except Throwable m.Result) : Ledger :=
  ⟨.idle, verdicts ++ [⟨⟨node, m⟩, outcome⟩]⟩

/-- One step of the protocol. -/
inductive LedgerStep (negotiation : ContentNegotiation) : Ledger → Ledger → Prop
  | stay (l : Ledger) : LedgerStep negotiation l l
  | ask (verdicts : List Verdict) (call : ClientCall) :
      LedgerStep negotiation ⟨.idle, verdicts⟩ ⟨.asked call, verdicts⟩
  | fail (verdicts : List Verdict) (node : Node) (m : ClientMethod) :
      LedgerStep negotiation ⟨.asked ⟨node, m⟩, verdicts⟩
        (.tell verdicts node m (.ok m.fallback))
  | crash (verdicts : List Verdict) (node : Node) (m : ClientMethod) (name : String) :
      LedgerStep negotiation ⟨.asked ⟨node, m⟩, verdicts⟩
        (.tell verdicts node m (.error (.error name)))
  | status (verdicts : List Verdict) (node : Node) (response : HttpResponse) :
      LedgerStep negotiation ⟨.asked ⟨node, .isNodeRunning⟩, verdicts⟩
        (.tell verdicts node .isNodeRunning (.ok response.status.isSuccess))
  | respond (verdicts : List Verdict) (node : Node) (m : DataMethod)
      (response : HttpResponse) :
      LedgerStep negotiation ⟨.asked ⟨node, .data m⟩, verdicts⟩
        ⟨.answered ⟨node, .data m⟩ response, verdicts⟩
  | lose (verdicts : List Verdict) (node : Node) (m : DataMethod) (response : HttpResponse) :
      LedgerStep negotiation ⟨.answered ⟨node, .data m⟩ response, verdicts⟩
        (.tell verdicts node (.data m) (.ok none))
  | crashBody (verdicts : List Verdict) (node : Node) (m : DataMethod)
      (response : HttpResponse) (name : String) :
      LedgerStep negotiation ⟨.answered ⟨node, .data m⟩ response, verdicts⟩
        (.tell verdicts node (.data m) (.error (.error name)))
  | read (verdicts : List Verdict) (node : Node) (m : DataMethod) (response : HttpResponse) :
      LedgerStep negotiation ⟨.answered ⟨node, .data m⟩ response, verdicts⟩
        (.tell verdicts node (.data m)
          (caught none (Option.map ofValue <$>
            negotiation.receive (descriptor m.Data) response.content)))

variable {negotiation : ContentNegotiation}

/-- The phase of a call that waits at a suspension point. -/
def phaseAt (call : ClientCall) : HttpOp → Phase
  | .request _ => .asked call
  | .body response _ => .answered call response

def phaseOf (s : ClientState negotiation) : Phase :=
  match s.pending with
  | none => .idle
  | some p => phaseAt p.call p.op

def verdictsOf (s : ClientState negotiation) : List Verdict :=
  s.completed.map fun c => ⟨c.call, c.outcome⟩

/-- The ledger of a caller. -/
def ledgerOf (s : ClientState negotiation) : Ledger := ⟨phaseOf s, verdictsOf s⟩

theorem phaseOf_free {s : ClientState negotiation} (hfree : s.pending = none) :
    phaseOf s = .idle := by
  unfold phaseOf
  rw [hfree]

theorem phaseOf_pending {s : ClientState negotiation}
    {p : Pending (httpEnvironment negotiation) clients} (hp : s.pending = some p) :
    phaseOf s = phaseAt p.call p.op := by
  unfold phaseOf
  rw [hp]

/-- A report that one more delivery ends is a step of the protocol. -/
theorem ledgerStep_of_report {node : Node} {m : ClientMethod} {trace : HttpTrace negotiation}
    {op : HttpOp} {delivery : Delivery (httpEnvironment negotiation) op}
    {lines : List LogLine} {outcome : Except Throwable m.Result}
    (hbegun : CallBegun negotiation node m trace op)
    (h : CallReport negotiation node m (trace ++ [⟨op, delivery⟩]) lines outcome)
    (verdicts : List Verdict) :
    LedgerStep negotiation ⟨phaseAt ⟨node, m⟩ op, verdicts⟩ (.tell verdicts node m outcome) := by
  generalize hwhole : trace ++ [⟨op, delivery⟩] = whole at h
  cases hbegun with
  | requested m =>
      cases h with
      | requestThrew m delivery' e hthrew =>
          rcases delivery_request_error hthrew with hd | ⟨name, hd⟩ | ⟨name, hd⟩
          · rw [hd] at hthrew
            cases hthrew
            exact LedgerStep.fail verdicts node m
          · rw [hd] at hthrew
            cases hthrew
            exact LedgerStep.fail verdicts node m
          · rw [hd] at hthrew
            cases hthrew
            exact LedgerStep.crash verdicts node m name
      | statusRead response => exact LedgerStep.status verdicts node response
      | bodyEnded m response delivery' => simp at hwhole
  | answered m response =>
      cases h with
      | requestThrew m delivery' e hthrew => simp at hwhole
      | bodyEnded m response delivery' =>
          cases hwhole
          cases delivery with
          | cancellation => exact LedgerStep.lose verdicts node m response
          | reply answer =>
              cases answer with
              | decode => exact LedgerStep.read verdicts node m response
              | ioFailure name => exact LedgerStep.lose verdicts node m response
              | fatal name => exact LedgerStep.crashBody verdicts node m response name

/-- So is a call that one more delivery takes to its next suspension point. -/
theorem ledgerStep_of_begun {node : Node} {m : ClientMethod} {trace : HttpTrace negotiation}
    {op next : HttpOp} {delivery : Delivery (httpEnvironment negotiation) op}
    (hbegun : CallBegun negotiation node m trace op)
    (h : CallBegun negotiation node m (trace ++ [⟨op, delivery⟩]) next)
    (verdicts : List Verdict) :
    LedgerStep negotiation ⟨phaseAt ⟨node, m⟩ op, verdicts⟩
      ⟨phaseAt ⟨node, m⟩ next, verdicts⟩ := by
  generalize hwhole : trace ++ [⟨op, delivery⟩] = whole at h
  cases hbegun with
  | requested m =>
      cases h with
      | requested m => simp at hwhole
      | answered m response => exact LedgerStep.respond verdicts node m response
  | answered m response =>
      cases h with
      | requested m => simp at hwhole
      | answered m response' => simp at hwhole

/-- A call that begins is asked: it comes to its request before anything
else. -/
theorem ledgerOf_invoke {s : ClientState negotiation} (hs : s.Sound) (call : ClientCall) :
    ledgerOf (s.invoke call : ClientState negotiation) = ⟨.asked call, verdictsOf s⟩ := by
  obtain ⟨node, m⟩ := call
  have ht := hs.invoke ⟨node, m⟩
  unfold State.invoke at ht ⊢
  rcases hsettle : (m.code node).settle with ⟨lines, outcome | ⟨op, resume⟩⟩
  · rw [s.advance_finished ⟨⟨node, m⟩, s.cancelled, [], []⟩ hsettle] at ht
    have hreport : CallReport negotiation node m [] lines outcome :=
      report_of_sound ht (List.mem_append_right _ List.mem_cons_self)
    cases hreport
  · rw [s.advance_suspended ⟨⟨node, m⟩, s.cancelled, [], []⟩ hsettle] at ht ⊢
    have hbegun : CallBegun negotiation node m [] op := (begun_of_sound ht rfl).1
    cases hbegun
    rfl

/-- What one delivery to a pending call comes to in the ledger. -/
theorem ledgerOf_deliver {s : ClientState negotiation} (hs : s.Sound)
    {p : Pending (httpEnvironment negotiation) clients} (hp : s.pending = some p)
    (delivery : Delivery (httpEnvironment negotiation) p.op) :
    (∃ lines outcome, CallReport negotiation p.call.node p.call.method
        (p.trace ++ [⟨p.op, delivery⟩]) lines outcome ∧
      ledgerOf (s.deliver p delivery) =
        .tell (verdictsOf s) p.call.node p.call.method outcome) ∨
    (∃ op, CallBegun negotiation p.call.node p.call.method (p.trace ++ [⟨p.op, delivery⟩]) op ∧
      ledgerOf (s.deliver p delivery) = ⟨phaseAt p.call op, verdictsOf s⟩) := by
  rcases deliver_cases hs hp delivery with ⟨lines, outcome, hreport, hdone⟩ |
    ⟨op, lines, resume, hbegun, hnext⟩
  · refine Or.inl ⟨lines, outcome, hreport, ?_⟩
    rw [hdone]
    unfold ledgerOf phaseOf verdictsOf
    rw [List.map_append]
    rfl
  · refine Or.inr ⟨op, hbegun, ?_⟩
    rw [hnext]
    rfl

/-- **A delivery is a step of the protocol.** -/
theorem ledgerStep_deliver {s : ClientState negotiation} (hs : s.Sound)
    {p : Pending (httpEnvironment negotiation) clients} (hp : s.pending = some p)
    (delivery : Delivery (httpEnvironment negotiation) p.op) :
    LedgerStep negotiation (ledgerOf s) (ledgerOf (s.deliver p delivery)) := by
  have hbegun := (begun_of_sound hs hp).1
  have hbefore : ledgerOf s = ⟨phaseAt p.call p.op, verdictsOf s⟩ := by
    unfold ledgerOf
    rw [phaseOf_pending hp]
  rcases ledgerOf_deliver hs hp delivery with ⟨lines, outcome, hreport, hafter⟩ |
    ⟨op, hfurther, hafter⟩
  · rw [hbefore, hafter]
    exact ledgerStep_of_report hbegun hreport (verdictsOf s)
  · rw [hbefore, hafter]
    exact ledgerStep_of_begun hbegun hfurther (verdictsOf s)

/-- **Every step of a caller is a step of the protocol.** -/
theorem ledgerStep_of_step {s t : ClientState negotiation}
    {event : Event (httpEnvironment negotiation)} (hstep : Step s event t) (hs : s.Sound) :
    LedgerStep negotiation (ledgerOf s) (ledgerOf t) := by
  rcases step_cases hstep with ⟨call, _, hfree, ht⟩ | ⟨p, delivery, _, hpending, ht⟩ |
    ⟨_, ht⟩ | ⟨_, ht⟩
  · rw [ht, ledgerOf_invoke hs call]
    unfold ledgerOf
    rw [phaseOf_free hfree]
    exact LedgerStep.ask (verdictsOf s) call
  · rw [ht]
    exact ledgerStep_deliver hs hpending delivery
  · rw [ht]
    exact LedgerStep.stay (ledgerOf s)
  · rw [ht]
    exact LedgerStep.stay (ledgerOf s)

/-- An execution of the protocol. -/
structure LedgerRun (negotiation : ContentNegotiation) where
  ledger : Nat → Ledger
  initialized : ledger 0 = ⟨.idle, []⟩
  valid : ∀ k, LedgerStep negotiation (ledger k) (ledger (k+1))

/-- What a caller goes through, seen from outside. -/
def ClientRun.ledgers (r : ClientRun negotiation) : LedgerRun negotiation where
  ledger k := ledgerOf (r.state k)
  initialized := by
    rw [r.initialized]
    rfl
  valid k := ledgerStep_of_step (r.valid k) (r.sound k)

/-- A caller that has asked waits for its response. -/
theorem pending_of_asked {s : ClientState negotiation} (hs : s.Sound) {node : Node}
    {m : ClientMethod} (hphase : phaseOf s = .asked ⟨node, m⟩) :
    ∃ begun log resume, s.pending =
      some ⟨⟨⟨node, m⟩, begun, [], log⟩, .request (m.request node), resume⟩ := by
  cases hp : s.pending with
  | none =>
      rw [phaseOf_free hp] at hphase
      cases hphase
  | some p =>
      rw [phaseOf_pending hp] at hphase
      have hbegun := (begun_of_sound hs hp).1
      obtain ⟨⟨⟨node', m'⟩, begun, trace, log⟩, op, resume⟩ := p
      change CallBegun negotiation node' m' trace op at hbegun
      cases hbegun with
      | requested =>
          cases hphase
          exact ⟨begun, log, resume, rfl⟩
      | answered m response => cases hphase

/-- A caller that has its response waits for the body. -/
theorem pending_of_answered {s : ClientState negotiation} (hs : s.Sound) {node : Node}
    {m : DataMethod} {response : HttpResponse}
    (hphase : phaseOf s = .answered ⟨node, .data m⟩ response) :
    ∃ begun log resume, s.pending =
      some ⟨⟨⟨node, .data m⟩, begun, [⟨.request ((ClientMethod.data m).request node),
        .reply (HttpReply.response response)⟩], log⟩,
        .body response (descriptor m.Data), resume⟩ := by
  cases hp : s.pending with
  | none =>
      rw [phaseOf_free hp] at hphase
      cases hphase
  | some p =>
      rw [phaseOf_pending hp] at hphase
      have hbegun := (begun_of_sound hs hp).1
      obtain ⟨⟨⟨node', m'⟩, begun, trace, log⟩, op, resume⟩ := p
      change CallBegun negotiation node' m' trace op at hbegun
      cases hbegun with
      | requested => cases hphase
      | answered m' response' =>
          cases hphase
          exact ⟨begun, log, resume, rfl⟩

theorem free_of_idle {s : ClientState negotiation} (hphase : phaseOf s = .idle) :
    s.pending = none := by
  cases hp : s.pending with
  | none => rfl
  | some p =>
      rw [phaseOf_pending hp] at hphase
      cases hop : p.op with
      | request request =>
          rw [hop] at hphase
          cases hphase
      | body response d =>
          rw [hop] at hphase
          cases hphase

/-- What is thrown at a call is the end of it. -/
theorem ledgerOf_thrown {s : ClientState negotiation} (hs : s.Sound)
    {p : Pending (httpEnvironment negotiation) clients} (hp : s.pending = some p)
    {delivery : Delivery (httpEnvironment negotiation) p.op} {e : Throwable}
    (hthrew : delivery.result = .error e) :
    ledgerOf (s.deliver p delivery) =
      .tell (verdictsOf s) p.call.node p.call.method (caught p.call.method.fallback (.error e)) := by
  have hmem : (⟨p.op, delivery⟩ : Resumption (httpEnvironment negotiation)) ∈
      p.trace ++ [⟨p.op, delivery⟩] := List.mem_append_right _ List.mem_cons_self
  rcases ledgerOf_deliver hs hp delivery with ⟨lines, outcome, hreport, hafter⟩ |
    ⟨next, hfurther, _⟩
  · rw [hafter, hreport.thrown hmem hthrew]
  · obtain ⟨value, hvalue⟩ := hfurther.answered_ok _ hmem
    cases hthrew.symm.trans hvalue

/-- A reply to a pending call is a step. -/
theorem step_answer {s : ClientState negotiation} (hs : s.Sound)
    {p : Pending (httpEnvironment negotiation) clients} (hp : s.pending = some p)
    {answer : HttpReply p.op} {l : Ledger} (hl : ledgerOf (s.deliver p (.reply answer)) = l) :
    ∃ event t, Step s event t ∧ t.Sound ∧ ledgerOf t = l := by
  have hstep : Step s _ (s.deliver p (.reply answer)) :=
    Step.resume (.reply answer) hp fun hcancellation => by cases hcancellation
  exact ⟨_, _, hstep, hs.deliver hp (.reply answer), hl⟩

/-- **Every step of the protocol is a step of a caller.** -/
theorem exists_step {s : ClientState negotiation} (hs : s.Sound) {l : Ledger}
    (h : LedgerStep negotiation (ledgerOf s) l) :
    ∃ event t, Step s event t ∧ t.Sound ∧ ledgerOf t = l := by
  generalize hledger : ledgerOf s = before at h
  have hphase : phaseOf s = before.phase := congrArg Ledger.phase hledger
  have hverdicts : verdictsOf s = before.verdicts := congrArg Ledger.verdicts hledger
  cases h with
  | stay => exact ⟨.idle, s, Step.idle s, hs, hledger⟩
  | ask verdicts call =>
      have hasked := ledgerOf_invoke hs call
      rw [hverdicts] at hasked
      exact ⟨.call, _, Step.call call (free_of_idle hphase), hs.invoke call, hasked⟩
  | fail verdicts node m =>
      obtain ⟨begun, log, resume, hp⟩ := pending_of_asked hs hphase
      have hafter := @ledgerOf_thrown _ _ hs _ hp (.reply (HttpReply.ioFailure "")) _ rfl
      rw [hverdicts] at hafter
      exact step_answer hs hp hafter
  | crash verdicts node m name =>
      obtain ⟨begun, log, resume, hp⟩ := pending_of_asked hs hphase
      have hafter := @ledgerOf_thrown _ _ hs _ hp (.reply (HttpReply.fatal name)) _ rfl
      rw [hverdicts] at hafter
      exact step_answer hs hp hafter
  | status verdicts node response =>
      obtain ⟨begun, log, resume, hp⟩ := pending_of_asked hs hphase
      apply step_answer hs hp
      rcases ledgerOf_deliver hs hp (.reply (HttpReply.response response)) with
        ⟨lines, outcome, hreport, hafter⟩ | ⟨next, hfurther, hafter⟩
      · change CallReport negotiation node .isNodeRunning [⟨_, _⟩] lines outcome at hreport
        rw [hverdicts] at hafter
        refine hafter.trans ?_
        cases hreport with
        | requestThrew m delivery e hthrew => cases hthrew
        | statusRead response => rfl
      · change CallBegun negotiation node .isNodeRunning [⟨_, _⟩] next at hfurther
        cases hfurther
  | respond verdicts node m response =>
      obtain ⟨begun, log, resume, hp⟩ := pending_of_asked hs hphase
      apply step_answer hs hp
      rcases ledgerOf_deliver hs hp (.reply (HttpReply.response response)) with
        ⟨lines, outcome, hreport, hafter⟩ | ⟨next, hfurther, hafter⟩
      · change CallReport negotiation node (.data m) [⟨_, _⟩] lines outcome at hreport
        cases hreport with
        | requestThrew m delivery e hthrew => cases hthrew
      · change CallBegun negotiation node (.data m) [⟨_, _⟩] next at hfurther
        rw [hverdicts] at hafter
        refine hafter.trans ?_
        cases hfurther
        rfl
  | lose verdicts node m response =>
      obtain ⟨begun, log, resume, hp⟩ := pending_of_answered hs hphase
      have hafter := @ledgerOf_thrown _ _ hs _ hp (.reply (HttpReply.ioFailure "")) _ rfl
      rw [hverdicts] at hafter
      exact step_answer hs hp hafter
  | crashBody verdicts node m response name =>
      obtain ⟨begun, log, resume, hp⟩ := pending_of_answered hs hphase
      have hafter := @ledgerOf_thrown _ _ hs _ hp (.reply (HttpReply.fatal name)) _ rfl
      rw [hverdicts] at hafter
      exact step_answer hs hp hafter
  | read verdicts node m response =>
      obtain ⟨begun, log, resume, hp⟩ := pending_of_answered hs hphase
      apply step_answer hs hp
      rcases ledgerOf_deliver hs hp (.reply HttpReply.decode) with
        ⟨lines, outcome, hreport, hafter⟩ | ⟨next, hfurther, hafter⟩
      · change CallReport negotiation node (.data m) [⟨_, _⟩, ⟨_, _⟩] lines outcome at hreport
        rw [hverdicts] at hafter
        refine hafter.trans ?_
        cases hreport
        rfl
      · change CallBegun negotiation node (.data m) [⟨_, _⟩, ⟨_, _⟩] next at hfurther
        cases hfurther

variable {Ref ι : Type} [DecidableEq ι]

/-- **Every execution of the protocol is what some caller goes through.** -/
theorem ledger_complete (l : LedgerRun negotiation) :
    ∃ r : ClientRun negotiation, ∀ k, ledgerOf (r.state k) = l.ledger k := by
  let Realizes (k : Nat) :=
    {s : ClientState negotiation // s.Sound ∧ ledgerOf s = l.ledger k}
  have hnext : ∀ k (s : Realizes k), ∃ event, ∃ t : Realizes (k+1), Step s.1 event t.1 := by
    intro k s
    obtain ⟨s, hs, hledger⟩ := s
    have hvalid := l.valid k
    rw [← hledger] at hvalid
    obtain ⟨event, t, hstep, ht, hafter⟩ := exists_step hs hvalid
    exact ⟨event, ⟨t, ht, hafter⟩, hstep⟩
  choose event next hstep using hnext
  let first : Realizes 0 := ⟨State.initial _ _, State.sound_initial, l.initialized.symm⟩
  let state : (k : Nat) → Realizes k := fun k => Nat.rec first next k
  let r : ClientRun negotiation :=
    { state := fun k => (state k).1
      event := fun k => event k (state k)
      initialized := rfl
      valid := fun k => hstep k (state k) }
  exact ⟨r, fun k => (state k).2.2⟩

/-- **Every interleaving of executions of the protocol is what the callers of
one system go through.** -/
theorem ledgers_complete (ledgers : ι → LedgerRun negotiation) (schedule : Nat → ι) :
    ∃ r : SystemRun (httpEnvironment negotiation) (nodeObjects Node) ι, ∀ i k,
      ledgerOf ((r.state k).caller i) =
        (ledgers i).ledger (Nat.count (fun j => schedule j = i) k) := by
  choose runs hruns using fun i => ledger_complete (ledgers i)
  -- every node is an object of its own, which nobody writes
  let store : Node → Node := id
  obtain ⟨r, hr⟩ := @exists_interleaving _ _ _ _ _ (nodeObjects Node) ι _ store
    (fun call => ⟨call.node, call.method⟩) (fun _ => .read (.read (.read (.done _)))) runs schedule
  refine ⟨r, ?_⟩
  intro i k
  rw [hr i k]
  exact hruns i _

/-- A caller that invokes a method has asked. -/
theorem ledgerOf_invoked
    (r : SystemRun (httpEnvironment negotiation) (nodeObjects Ref) ι) {i : ι} {k : Nat}
    {invocation : ClientInvocation Ref} {call : ClientCall}
    (hevent : r.event k = .invoke i invocation call) :
    ledgerOf ((r.state (k+1)).caller i) =
      ⟨.asked call, verdictsOf ((r.state k).caller i)⟩ := by
  have hstep := r.valid k
  rw [hevent] at hstep
  rw [hstep.invoked.1]
  exact ledgerOf_invoke ((r.caller i).sound k) call

/-- One more completed call is one more verdict. -/
theorem verdictsOf_append {s t : ClientState negotiation}
    {c : Completed (httpEnvironment negotiation) clients}
    (hcompleted : t.completed = s.completed ++ [c]) :
    verdictsOf t = verdictsOf s ++ [⟨c.call, c.outcome⟩] := by
  unfold verdictsOf
  rw [hcompleted, List.map_append]
  rfl

/-- A step of the protocol adds verdicts and takes none back. -/
theorem LedgerStep.keeps_verdicts {before after : Ledger}
    (h : LedgerStep negotiation before after) : before.verdicts <+: after.verdicts := by
  cases h with
  | stay => exact List.prefix_refl _
  | ask => exact List.prefix_refl _
  | respond => exact List.prefix_refl _
  | fail => exact List.prefix_append _ _
  | crash => exact List.prefix_append _ _
  | crashBody => exact List.prefix_append _ _
  | status => exact List.prefix_append _ _
  | lose => exact List.prefix_append _ _
  | read => exact List.prefix_append _ _

/-- What was told is told for good. -/
theorem LedgerRun.keeps_verdicts (l : LedgerRun negotiation) (k d : Nat) :
    (l.ledger k).verdicts <+: (l.ledger (k + d)).verdicts := by
  induction d with
  | zero => exact List.prefix_refl _
  | succ d ih => exact ih.trans (l.valid (k + d)).keeps_verdicts

/-- The call a phase is about. -/
def Phase.calls : Phase → List ClientCall
  | .idle => []
  | .asked call => [call]
  | .answered call _ => [call]

theorem phaseAt_calls (call : ClientCall) (op : HttpOp) : (phaseAt call op).calls = [call] := by
  cases op <;> rfl

/-- The calls of a caller are the ones it was told of, and the one it waits
for. -/
theorem calls_eq_ledger (s : ClientState negotiation) :
    s.calls = (verdictsOf s).map Verdict.call ++ (phaseOf s).calls := by
  unfold State.calls verdictsOf
  rw [List.map_map]
  cases hp : s.pending with
  | none =>
      rw [phaseOf_free hp]
      rfl
  | some p =>
      rw [phaseOf_pending hp, phaseAt_calls]
      rfl

/-- A completed call was answered at its request before anything else. -/
theorem CallReport.request_first {node : Node} {m : ClientMethod}
    {trace : HttpTrace negotiation} {lines : List LogLine}
    {outcome : Except Throwable m.Result}
    (h : CallReport negotiation node m trace lines outcome) :
    ∃ (delivery : Delivery (httpEnvironment negotiation) (.request (m.request node)))
      (rest : HttpTrace negotiation), trace = ⟨_, delivery⟩ :: rest := by
  cases h with
  | requestThrew m delivery e hthrew => exact ⟨delivery, [], rfl⟩
  | statusRead response => exact ⟨_, [], rfl⟩
  | bodyEnded m response delivery => exact ⟨_, _, rfl⟩

/-- **Every request is told of once, in order, after an answer to it, and for
good**, the one in progress aside. -/
theorem verdicts_requested
    (r : SystemRun (httpEnvironment negotiation) (nodeObjects Ref) ι) (i : ι) (k d : Nat) :
    sentRequests ((r.state k).caller i) =
        ((verdictsOf ((r.state k).caller i)).map Verdict.call ++
          (phaseOf ((r.state k).caller i)).calls).map ClientCall.request ∧
      (∀ c ∈ ((r.state k).caller i).completed,
        ∃ (delivery : Delivery (httpEnvironment negotiation) (.request c.call.request))
          (rest : HttpTrace negotiation), c.trace = ⟨_, delivery⟩ :: rest) ∧
      verdictsOf ((r.state k).caller i) <+: verdictsOf ((r.state (k + d)).caller i) := by
  refine ⟨?_, ?_, ?_⟩
  · rw [← calls_eq_ledger]
    exact sentRequests_eq (r.caller i) k
  · intro c hc
    exact (report_of_sound ((r.caller i).sound k) hc).request_first
  · exact (ClientRun.ledgers (r.caller i)).keeps_verdicts k d

end Kryptokrona
