import KryptokronaSdk.Suspend

/-!
# Runs of a caller coroutine under a Job

A caller coroutine makes calls one after the other.  Its calls run the
programs of a `Callee`; between two suspension points a program runs on its
thread without interruption, so cancellation, which is cooperative, can
only meet it at a suspension point.  The environment may at any time cancel
the Job, and it resumes a suspended call with a reply or, once the Job is
cancelled, with the `CancellationException`.

`Step` is one step of caller and environment together, `Run` an infinite
sequence of steps; `idle` steps make finite runs a special case.  Any reply
may come at any step, whether the Job is cancelled or not.  The records
`begunCancelled`, `trace` and `log` of a call are not read by any step: they
say what has happened to it so far.

* `step_cases`: a step begins a call, resumes the pending one, cancels the Job,
  or does nothing; what a step preserves is read off it;
* `Run.sound`: in every state of every run, the record of a completed call
  is a play of its program, and the record of a pending call is the
  beginning of one;
* `Run.traces`: whatever the begin of a call establishes and every delivery
  of the run keeps holds of the trace of every call.
-/

namespace Coroutine

variable {Op : Type} {Res : Op → Type}

/-- The calls a caller can make and the program each of them runs. -/
structure Callee {Op : Type} (Res : Op → Type) (ω : Type) where
  Call : Type
  Result : Call → Type
  program : (call : Call) → Suspend Res ω (Result call)

variable {ω : Type} (env : Environment Res) (callee : Callee Res ω)

/-- What has happened to one call so far: whether the Job was already
cancelled when it began, the deliveries at its suspension points, and the
lines it wrote. -/
structure CallRecord where
  call : callee.Call
  begunCancelled : Bool
  trace : List (Resumption env)
  log : List ω

/-- A call waiting at a suspension point. -/
structure Pending extends CallRecord env callee where
  op : Op
  resume : Except Throwable (Res op) → Suspend Res ω (callee.Result call)

/-- A call that has returned or thrown. -/
structure Completed extends CallRecord env callee where
  outcome : Except Throwable (callee.Result call)

/-- The Job, the call in progress, and the calls completed, oldest first. -/
structure State where
  cancelled : Bool
  pending : Option (Pending env callee)
  completed : List (Completed env callee)

/-- A live Job and no call made yet. -/
def State.initial : State env callee := ⟨false, none, []⟩

variable {env : Environment Res} {callee : Callee Res ω}

/-- The call of `record` runs `p` up to its next suspension point or its
end. -/
def State.advance (s : State env callee) (record : CallRecord env callee)
    (p : Suspend Res ω (callee.Result record.call)) : State env callee :=
  match p.settle with
  | (lines, .finished outcome) =>
      { s with
        pending := none
        completed :=
          s.completed ++ [⟨{ record with log := record.log ++ lines }, outcome⟩] }
  | (lines, .suspended op resume) =>
      { s with pending := some ⟨{ record with log := record.log ++ lines }, op, resume⟩ }

theorem State.advance_finished (s : State env callee) (record : CallRecord env callee)
    {p : Suspend Res ω (callee.Result record.call)} {lines : List ω}
    {outcome : Except Throwable (callee.Result record.call)}
    (hsettle : p.settle = (lines, .finished outcome)) :
    s.advance record p =
      { s with
        pending := none
        completed :=
          s.completed ++ [⟨{ record with log := record.log ++ lines }, outcome⟩] } := by
  simp only [State.advance, hsettle]

theorem State.advance_suspended (s : State env callee) (record : CallRecord env callee)
    {p : Suspend Res ω (callee.Result record.call)} {lines : List ω} {op : Op}
    {resume : Except Throwable (Res op) → Suspend Res ω (callee.Result record.call)}
    (hsettle : p.settle = (lines, .suspended op resume)) :
    s.advance record p =
      { s with
        pending := some ⟨{ record with log := record.log ++ lines }, op, resume⟩ } := by
  simp only [State.advance, hsettle]

/-- The record of a pending call after one more delivery. -/
def Pending.delivered (p : Pending env callee) (delivery : Delivery env p.op) :
    CallRecord env callee :=
  { p.toCallRecord with trace := p.trace ++ [⟨p.op, delivery⟩] }

/-- The pending call is resumed by `delivery`. -/
def State.deliver (s : State env callee) (p : Pending env callee)
    (delivery : Delivery env p.op) : State env callee :=
  s.advance (p.delivered delivery) (p.resume delivery.result)

/-- The call is made: its program runs up to the first suspension point. -/
def State.invoke (s : State env callee) (call : callee.Call) : State env callee :=
  s.advance ⟨call, s.cancelled, [], []⟩ (callee.program call)

/-- What a step does, seen from outside. -/
inductive Event (env : Environment Res)
  | call
  | resume (x : Resumption env)
  | cancel
  | idle

/-- One step of the caller and its environment.  The `CancellationException`
is delivered only under a cancelled Job. -/
inductive Step : State env callee → Event env → State env callee → Prop
  | call {s : State env callee} (call : callee.Call) (hfree : s.pending = none) :
      Step s .call (s.invoke call)
  | resume {s : State env callee} {p : Pending env callee} (delivery : Delivery env p.op)
      (hpending : s.pending = some p)
      (hcancelled : delivery = .cancellation → s.cancelled = true) :
      Step s (.resume ⟨p.op, delivery⟩) (s.deliver p delivery)
  | cancel (s : State env callee) : Step s .cancel { s with cancelled := true }
  | idle (s : State env callee) : Step s .idle s

/-- **What a step can do**: begin a call, resume the pending one, cancel the
Job, or nothing. -/
theorem step_cases {s t : State env callee} {event : Event env} (hstep : Step s event t) :
    (∃ call, event = .call ∧ s.pending = none ∧ t = s.invoke call) ∨
    (∃ p : Pending env callee, ∃ delivery : Delivery env p.op,
      event = .resume ⟨p.op, delivery⟩ ∧ s.pending = some p ∧ t = s.deliver p delivery) ∨
    (event = .cancel ∧ t = { s with cancelled := true }) ∨
    (event = .idle ∧ t = s) := by
  cases hstep with
  | call call hfree => exact Or.inl ⟨call, rfl, hfree, rfl⟩
  | resume delivery hpending _ => exact Or.inr (Or.inl ⟨_, delivery, rfl, hpending, rfl⟩)
  | cancel => exact Or.inr (Or.inr (Or.inl ⟨rfl, rfl⟩))
  | idle => exact Or.inr (Or.inr (Or.inr ⟨rfl, rfl⟩))

/-- What a step that resumes the pending call does. -/
theorem Step.resumed {s t : State env callee} {x : Resumption env}
    (hstep : Step s (.resume x) t) {p : Pending env callee} (hpending : s.pending = some p) :
    ∃ delivery : Delivery env p.op, x = ⟨p.op, delivery⟩ ∧ t = s.deliver p delivery := by
  cases hstep with
  | resume delivery hq _ =>
      cases hpending.symm.trans hq
      exact ⟨delivery, rfl, rfl⟩

/-- A run from the initial state. -/
structure Run (env : Environment Res) (callee : Callee Res ω) where
  state : Nat → State env callee
  event : Nat → Event env
  initialized : state 0 = State.initial env callee
  valid : ∀ k, Step (state k) (event k) (state (k+1))

/-- What is left of a call continues its program: playing `p` to the end
completes the record to a play of the whole call. -/
def CallRecord.Continues (record : CallRecord env callee)
    (p : Suspend Res ω (callee.Result record.call)) : Prop :=
  ∀ trace lines outcome, Plays env p trace lines outcome →
    Plays env (callee.program record.call) (record.trace ++ trace)
      (record.log ++ lines) outcome

/-- The records of a state agree with the programs of its calls. -/
structure State.Sound (s : State env callee) : Prop where
  pending : ∀ p, s.pending = some p →
    p.toCallRecord.Continues (.await p.op p.resume)
  begun : ∀ p, s.pending = some p → p.begunCancelled = true → s.cancelled = true
  completed : ∀ c ∈ s.completed,
    Plays env (callee.program c.call) c.trace c.log c.outcome

/-- Advancing a call that continues its program keeps the records sound. -/
theorem State.Sound.advance {s : State env callee} (hs : s.Sound)
    {record : CallRecord env callee} {p : Suspend Res ω (callee.Result record.call)}
    (hcontinues : record.Continues p)
    (hbegun : record.begunCancelled = true → s.cancelled = true) :
    (s.advance record p).Sound := by
  rcases hsettle : p.settle with ⟨lines, outcome | ⟨op, resume⟩⟩
  · have hplay := hcontinues [] lines outcome (plays_nil_iff.mpr hsettle)
    rw [List.append_nil] at hplay
    rw [s.advance_finished record hsettle]
    refine ⟨fun _ h => by simp at h, fun _ h => by simp at h, ?_⟩
    intro c hc
    rcases List.mem_append.mp hc with hold | hnew
    · exact hs.completed c hold
    · obtain rfl := List.mem_singleton.mp hnew
      exact hplay
  · rw [s.advance_suspended record hsettle]
    refine ⟨?_, ?_, hs.completed⟩
    · intro q hq trace lines' outcome hplay
      cases hq
      obtain ⟨delivery, rest, rfl, htail⟩ := plays_await_iff.mp hplay
      have h := hcontinues _ _ _ (plays_cons_of_settle hsettle htail)
      simpa only [List.append_assoc] using h
    · intro q hq hlate
      cases hq
      exact hbegun hlate

/-- A pending call that continues its program does so after a delivery. -/
theorem Pending.continues_delivered {p : Pending env callee}
    (h : p.toCallRecord.Continues (.await p.op p.resume)) (delivery : Delivery env p.op) :
    (p.delivered delivery).Continues (p.resume delivery.result) := by
  intro trace lines outcome hplay
  have hwhole := h _ _ _ (hplay.await delivery)
  simpa [Pending.delivered] using hwhole

theorem State.Sound.invoke {s : State env callee} (hs : s.Sound) (call : callee.Call) :
    (s.invoke call).Sound := by
  apply hs.advance
  · intro trace lines outcome hplay
    simpa using hplay
  · exact id

theorem State.Sound.deliver {s : State env callee} (hs : s.Sound) {p : Pending env callee}
    (hpending : s.pending = some p) (delivery : Delivery env p.op) :
    (s.deliver p delivery).Sound :=
  hs.advance (Pending.continues_delivered (hs.pending p hpending) delivery)
    (hs.begun p hpending)

/-- **Every step keeps the records sound.** -/
theorem Step.sound {s t : State env callee} {event : Event env}
    (hstep : Step s event t) (hs : s.Sound) : t.Sound := by
  cases hstep with
  | call call hfree => exact hs.invoke call
  | resume delivery hpending _ => exact hs.deliver hpending delivery
  | cancel => exact ⟨hs.pending, fun _ _ _ => rfl, hs.completed⟩
  | idle => exact hs

theorem State.sound_initial : (State.initial env callee).Sound :=
  ⟨by simp [State.initial], by simp [State.initial], by simp [State.initial]⟩

/-- **The records of every run are plays of the programs called.** -/
theorem Run.sound (r : Run env callee) : ∀ k, (r.state k).Sound := by
  intro k
  induction k with
  | zero =>
      rw [r.initialized]
      exact State.sound_initial
  | succ k ih => exact (r.valid k).sound ih

/-- `T` holds of the trace of every call, pending or completed. -/
def State.Traces (T : callee.Call → Bool → List (Resumption env) → Prop)
    (s : State env callee) : Prop :=
  (∀ p, s.pending = some p → T p.call p.begunCancelled p.trace) ∧
  ∀ c ∈ s.completed, T c.call c.begunCancelled c.trace

theorem State.Traces.advance {T : callee.Call → Bool → List (Resumption env) → Prop}
    {s : State env callee} (hs : s.Traces T) {record : CallRecord env callee}
    {p : Suspend Res ω (callee.Result record.call)}
    (hrecord : T record.call record.begunCancelled record.trace) :
    (s.advance record p).Traces T := by
  rcases hsettle : p.settle with ⟨lines, outcome | ⟨op, resume⟩⟩
  · rw [s.advance_finished record hsettle]
    refine ⟨fun _ h => by simp at h, ?_⟩
    intro c hc
    rcases List.mem_append.mp hc with hold | hnew
    · exact hs.2 c hold
    · obtain rfl := List.mem_singleton.mp hnew
      exact hrecord
  · rw [s.advance_suspended record hsettle]
    refine ⟨?_, hs.2⟩
    intro q hq
    cases hq
    exact hrecord

/-- **Trace induction.**  What holds of the empty trace of a new call and is
kept by every delivery the run makes holds of every trace of the run. -/
theorem Run.traces (r : Run env callee)
    {T : callee.Call → Bool → List (Resumption env) → Prop}
    (hempty : ∀ call begun, T call begun [])
    (hresume : ∀ k p (delivery : Delivery env p.op), (r.state k).pending = some p →
      r.event k = .resume ⟨p.op, delivery⟩ → T p.call p.begunCancelled p.trace →
      T p.call p.begunCancelled (p.trace ++ [⟨p.op, delivery⟩])) :
    ∀ k, (r.state k).Traces T := by
  intro k
  induction k with
  | zero =>
      rw [r.initialized]
      simp [State.Traces, State.initial]
  | succ k ih =>
      rcases step_cases (r.valid k) with ⟨call, _, _, ht⟩ |
        ⟨p, delivery, hevent, hpending, ht⟩ | ⟨_, ht⟩ | ⟨_, ht⟩
      · rw [ht]
        exact ih.advance (hempty call _)
      · rw [ht]
        exact ih.advance (hresume k p delivery hpending hevent (ih.1 p hpending))
      · rw [ht]
        exact ih
      · rw [ht]
        exact ih

/-- The calls made so far, oldest first. -/
def State.calls (s : State env callee) : List callee.Call :=
  s.completed.map (fun c => c.call) ++ s.pending.toList.map (fun p => p.call)

theorem State.length_calls (s : State env callee) :
    s.calls.length = s.completed.length + s.pending.toList.length := by
  rw [State.calls, List.length_append, List.length_map, List.length_map]

theorem State.calls_advance (s : State env callee) (record : CallRecord env callee)
    (p : Suspend Res ω (callee.Result record.call)) :
    (s.advance record p).calls = s.completed.map (fun c => c.call) ++ [record.call] := by
  rcases hsettle : p.settle with ⟨lines, outcome | ⟨op, resume⟩⟩
  · rw [s.advance_finished record hsettle]
    simp [State.calls]
  · rw [s.advance_suspended record hsettle]
    simp [State.calls]

/-- A step that makes no call leaves the calls as they are. -/
theorem Step.calls_eq {s t : State env callee} {event : Event env} (hstep : Step s event t)
    (hevent : event ≠ .call) : t.calls = s.calls := by
  rcases step_cases hstep with ⟨call, hcall, _⟩ | ⟨p, delivery, _, hpending, ht⟩ |
    ⟨_, ht⟩ | ⟨_, ht⟩
  · exact absurd hcall hevent
  · have hcalls := s.calls_advance (p.delivered delivery) (p.resume delivery.result)
    rw [ht]
    refine hcalls.trans ?_
    simp [State.calls, hpending, Pending.delivered]
  · rw [ht]
    rfl
  · rw [ht]

end Coroutine
