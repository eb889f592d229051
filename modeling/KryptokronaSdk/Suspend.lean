/-!
# Suspending computations and their plays

A Kotlin `suspend fun` runs on its thread between *suspension points* and
hands the thread back at each of them; it is later resumed with either a
value or a `Throwable` (`Continuation.resumeWith`).  Such a computation is a
well-founded tree: it has finished, it writes a log line and goes on, or it
awaits the result of an operation.  Nothing here fixes what the operations
are or what is logged.

The tree alone says nothing about who answers a suspension point.  An
`Environment` names the replies its operations can be given, and a
`Delivery` is one of those replies or the `CancellationException` of the
coroutine's Job.  `Plays p trace log outcome` records one complete run of
`p`: the deliveries at its suspension points in order, the lines it wrote
and how it ended.

* `plays_bind` splits a play of a sequence at the point where the first
  part ends;
* `plays_catchException` does the same for `catch (e: Exception)`: a play
  of the guarded body either ends without an `Exception`, or hands it to
  the handler;
* `exists_play` says that every computation can be played to its end;
* `settle` is what the thread does before it next gives itself up, and
  `plays_nil_iff`, `plays_cons_of_settle` relate it to plays.
-/

namespace Coroutine

/-- What a Kotlin computation can throw.  `CancellationException` is a
subclass of `Exception`; an `Error` is a `Throwable` and no `Exception`. -/
inductive Throwable
  | cancellation
  | exception (name : String)
  | error (name : String)
deriving DecidableEq, Repr

/-- Whether `catch (e: Exception)` takes it. -/
def Throwable.isException : Throwable → Bool
  | .cancellation => true
  | .exception _ => true
  | .error _ => false

/-- A suspending computation with operations `Op`, results `Res`, log lines
`ω` and value type `α`. -/
inductive Suspend {Op : Type} (Res : Op → Type) (ω α : Type) : Type
  | done (outcome : Except Throwable α)
  | emit (line : ω) (next : Suspend Res ω α)
  | await (op : Op) (resume : Except Throwable (Res op) → Suspend Res ω α)

variable {Op : Type} {Res : Op → Type} {ω α β : Type}

namespace Suspend

/-- Sequencing: an outcome that is no value skips the rest. -/
def bind : Suspend Res ω α → (α → Suspend Res ω β) → Suspend Res ω β
  | done (.ok a), f => f a
  | done (.error e), _ => done (.error e)
  | emit line next, f => emit line (next.bind f)
  | await op resume, f => await op (fun result => (resume result).bind f)

instance : Monad (Suspend Res ω) where
  pure a := done (.ok a)
  bind := bind

/-- Give up the thread until `op` is answered. -/
def suspend (op : Op) : Suspend Res ω (Res op) := await op done

/-- Write one log line. -/
def log (line : ω) : Suspend Res ω Unit := emit line (done (.ok ()))

/-- `try { body } catch (e: Exception) { handler(e) }`.  An `Error` passes
through, and so does whatever the handler itself throws. -/
def catchException : Suspend Res ω α → (Throwable → Suspend Res ω α) → Suspend Res ω α
  | done (.ok a), _ => done (.ok a)
  | done (.error e), handler => if e.isException then handler e else done (.error e)
  | emit line next, handler => emit line (next.catchException handler)
  | await op resume, handler =>
      await op (fun result => (resume result).catchException handler)

/-- The outcome when every suspension point is answered by `answer`. -/
def run (answer : (op : Op) → Except Throwable (Res op)) :
    Suspend Res ω α → Except Throwable α
  | done outcome => outcome
  | emit _ next => next.run answer
  | await op resume => (resume (answer op)).run answer

/-- The lines written when every suspension point is answered by `answer`. -/
def runLog (answer : (op : Op) → Except Throwable (Res op)) :
    Suspend Res ω α → List ω
  | done _ => []
  | emit line next => line :: next.runLog answer
  | await op resume => (resume (answer op)).runLog answer

end Suspend

/-- Where the thread stands once it gives itself up: the computation has
finished, or it awaits one operation. -/
inductive Settled {Op : Type} (Res : Op → Type) (ω α : Type) : Type
  | finished (outcome : Except Throwable α)
  | suspended (op : Op) (resume : Except Throwable (Res op) → Suspend Res ω α)

/-- Run up to the next suspension point, collecting the lines written. -/
def Suspend.settle : Suspend Res ω α → List ω × Settled Res ω α
  | .done outcome => ([], .finished outcome)
  | .emit line next => (line :: next.settle.1, next.settle.2)
  | .await op resume => ([], .suspended op resume)

/-- What may answer the operations. -/
structure Environment {Op : Type} (Res : Op → Type) where
  Reply : Op → Type
  result : {op : Op} → Reply op → Except Throwable (Res op)

/-- What resumes a suspension point: a reply of the environment, or the
`CancellationException` of the Job. -/
inductive Delivery (env : Environment Res) (op : Op) : Type
  | reply (answer : env.Reply op)
  | cancellation

/-- What the continuation is resumed with. -/
def Delivery.result {env : Environment Res} {op : Op} :
    Delivery env op → Except Throwable (Res op)
  | .reply answer => env.result answer
  | .cancellation => .error .cancellation

/-- A delivery together with the operation it answers. -/
abbrev Resumption (env : Environment Res) := Σ op : Op, Delivery env op

/-- One complete run of a computation: the deliveries at its suspension
points, the lines it wrote, and its outcome. -/
inductive Plays (env : Environment Res) :
    Suspend Res ω α → List (Resumption env) → List ω → Except Throwable α → Prop
  | done (outcome : Except Throwable α) : Plays env (.done outcome) [] [] outcome
  | emit {line : ω} {next : Suspend Res ω α} {trace : List (Resumption env)}
      {lines : List ω} {outcome : Except Throwable α}
      (tail : Plays env next trace lines outcome) :
      Plays env (.emit line next) trace (line :: lines) outcome
  | await {op : Op} {resume : Except Throwable (Res op) → Suspend Res ω α}
      {trace : List (Resumption env)} {lines : List ω} {outcome : Except Throwable α}
      (delivery : Delivery env op)
      (tail : Plays env (resume delivery.result) trace lines outcome) :
      Plays env (.await op resume) (⟨op, delivery⟩ :: trace) lines outcome

variable {env : Environment Res}

@[simp] theorem plays_done_iff {outcome result : Except Throwable α}
    {trace : List (Resumption env)} {lines : List ω} :
    Plays env (.done outcome) trace lines result ↔
      trace = [] ∧ lines = [] ∧ result = outcome := by
  constructor
  · intro h
    cases h
    exact ⟨rfl, rfl, rfl⟩
  · intro hempty
    obtain ⟨htrace, hlines, hresult⟩ := hempty
    rw [htrace, hlines, hresult]
    exact Plays.done outcome

@[simp] theorem plays_emit_iff {line : ω} {next : Suspend Res ω α}
    {trace : List (Resumption env)} {lines : List ω} {outcome : Except Throwable α} :
    Plays env (.emit line next) trace lines outcome ↔
      ∃ rest, lines = line :: rest ∧ Plays env next trace rest outcome := by
  constructor
  · intro h
    cases h with
    | emit tail => exact ⟨_, rfl, tail⟩
  · intro htail
    obtain ⟨rest, hlines, h⟩ := htail
    rw [hlines]
    exact h.emit

theorem plays_await_iff {op : Op} {resume : Except Throwable (Res op) → Suspend Res ω α}
    {trace : List (Resumption env)} {lines : List ω} {outcome : Except Throwable α} :
    Plays env (.await op resume) trace lines outcome ↔
      ∃ (delivery : Delivery env op) (rest : List (Resumption env)),
        trace = ⟨op, delivery⟩ :: rest ∧
        Plays env (resume delivery.result) rest lines outcome := by
  constructor
  · intro h
    cases h with
    | await delivery tail => exact ⟨delivery, _, rfl, tail⟩
  · intro hfirst
    obtain ⟨delivery, rest, htrace, h⟩ := hfirst
    rw [htrace]
    exact h.await delivery

/-- A suspension point alone is played by one delivery. -/
theorem plays_suspend_iff {op : Op} {trace : List (Resumption env)} {lines : List ω}
    {outcome : Except Throwable (Res op)} :
    Plays env (Suspend.suspend op) trace lines outcome ↔
      ∃ delivery : Delivery env op,
        trace = [⟨op, delivery⟩] ∧ lines = [] ∧ outcome = delivery.result := by
  rw [Suspend.suspend, plays_await_iff]
  simp only [plays_done_iff]
  constructor
  · intro hfirst
    obtain ⟨delivery, rest, htrace, hrest, hlines, houtcome⟩ := hfirst
    exact ⟨delivery, hrest ▸ htrace, hlines, houtcome⟩
  · intro honly
    obtain ⟨delivery, htrace, hlines, houtcome⟩ := honly
    exact ⟨delivery, [], htrace, rfl, hlines, houtcome⟩

/-- Every computation can be played to its end. -/
theorem exists_play (env : Environment Res) (p : Suspend Res ω α) :
    ∃ trace lines outcome, Plays env p trace lines outcome := by
  induction p with
  | done outcome => exact ⟨[], [], outcome, Plays.done outcome⟩
  | emit line next ih =>
      obtain ⟨trace, lines, outcome, h⟩ := ih
      exact ⟨trace, line :: lines, outcome, h.emit⟩
  | await op resume ih =>
      obtain ⟨trace, lines, outcome, h⟩ := ih (.error .cancellation)
      exact ⟨⟨op, .cancellation⟩ :: trace, lines, outcome, h.await .cancellation⟩

/-- **A play of a sequence** is a play of its first part that throws, or one
that returns a value followed by a play of the rest. -/
theorem plays_bind {p : Suspend Res ω α} {f : α → Suspend Res ω β}
    {trace : List (Resumption env)} {lines : List ω} {outcome : Except Throwable β}
    (h : Plays env (p >>= f) trace lines outcome) :
    (∃ e, Plays env p trace lines (.error e) ∧ outcome = .error e) ∨
    (∃ a trace₁ trace₂ lines₁ lines₂, Plays env p trace₁ lines₁ (.ok a) ∧
      Plays env (f a) trace₂ lines₂ outcome ∧
      trace = trace₁ ++ trace₂ ∧ lines = lines₁ ++ lines₂) := by
  change Plays env (p.bind f) trace lines outcome at h
  induction p generalizing trace lines with
  | done result =>
      cases result with
      | error e =>
          obtain ⟨rfl, rfl, rfl⟩ := plays_done_iff.mp h
          exact Or.inl ⟨e, Plays.done _, rfl⟩
      | ok a => exact Or.inr ⟨a, [], trace, [], lines, Plays.done _, h, rfl, rfl⟩
  | emit line next ih =>
      obtain ⟨rest, rfl, hnext⟩ := plays_emit_iff.mp h
      rcases ih hnext with ⟨e, he, ho⟩ | ⟨a, t₁, t₂, l₁, l₂, h₁, h₂, rfl, rfl⟩
      · exact Or.inl ⟨e, he.emit, ho⟩
      · exact Or.inr ⟨a, t₁, t₂, line :: l₁, l₂, h₁.emit, h₂, rfl, rfl⟩
  | await op resume ih =>
      obtain ⟨delivery, rest, rfl, hnext⟩ := plays_await_iff.mp h
      rcases ih _ hnext with ⟨e, he, ho⟩ | ⟨a, t₁, t₂, l₁, l₂, h₁, h₂, rfl, rfl⟩
      · exact Or.inl ⟨e, he.await delivery, ho⟩
      · exact Or.inr ⟨a, ⟨op, delivery⟩ :: t₁, t₂, l₁, l₂, h₁.await delivery, h₂, rfl, rfl⟩

/-- Returning a function of the value changes the outcome only. -/
theorem plays_bind_pure {p : Suspend Res ω α} {f : α → β}
    {trace : List (Resumption env)} {lines : List ω} {outcome : Except Throwable β}
    (h : Plays env (p >>= fun a => pure (f a)) trace lines outcome) :
    ∃ result, Plays env p trace lines result ∧ outcome = f <$> result := by
  rcases plays_bind h with ⟨e, hthrew, houtcome⟩ | ⟨a, t₁, t₂, l₁, l₂, hvalue, hpure, ht, hl⟩
  · exact ⟨.error e, hthrew, houtcome⟩
  · obtain ⟨ht₂, hl₂, houtcome⟩ := plays_done_iff.mp hpure
    rw [ht₂, List.append_nil] at ht
    rw [hl₂, List.append_nil] at hl
    exact ⟨.ok a, ht ▸ hl ▸ hvalue, houtcome⟩

/-- **A play of a guarded body** either ends as the body does, with no
`Exception`, or continues in the handler with the `Exception` the body
threw. -/
theorem plays_catchException {p : Suspend Res ω α}
    {handler : Throwable → Suspend Res ω α}
    {trace : List (Resumption env)} {lines : List ω} {outcome : Except Throwable α}
    (h : Plays env (p.catchException handler) trace lines outcome) :
    (Plays env p trace lines outcome ∧
      ∀ e, outcome = .error e → e.isException = false) ∨
    (∃ e trace₁ trace₂ lines₁ lines₂, e.isException = true ∧
      Plays env p trace₁ lines₁ (.error e) ∧
      Plays env (handler e) trace₂ lines₂ outcome ∧
      trace = trace₁ ++ trace₂ ∧ lines = lines₁ ++ lines₂) := by
  induction p generalizing trace lines with
  | done result =>
      cases result with
      | ok a =>
          obtain ⟨rfl, rfl, rfl⟩ := plays_done_iff.mp h
          exact Or.inl ⟨Plays.done _, fun e he => by cases he⟩
      | error e =>
          by_cases hcaught : e.isException = true
          · rw [Suspend.catchException, if_pos hcaught] at h
            exact Or.inr ⟨e, [], trace, [], lines, hcaught, Plays.done _, h, rfl, rfl⟩
          · rw [Suspend.catchException, if_neg hcaught] at h
            obtain ⟨rfl, rfl, rfl⟩ := plays_done_iff.mp h
            refine Or.inl ⟨Plays.done _, fun e' he => ?_⟩
            cases he
            simpa using hcaught
  | emit line next ih =>
      obtain ⟨rest, rfl, hnext⟩ := plays_emit_iff.mp h
      rcases ih hnext with ⟨hp, he⟩ | ⟨e, t₁, t₂, l₁, l₂, hc, h₁, h₂, rfl, rfl⟩
      · exact Or.inl ⟨hp.emit, he⟩
      · exact Or.inr ⟨e, t₁, t₂, line :: l₁, l₂, hc, h₁.emit, h₂, rfl, rfl⟩
  | await op resume ih =>
      obtain ⟨delivery, rest, rfl, hnext⟩ := plays_await_iff.mp h
      rcases ih _ hnext with ⟨hp, he⟩ | ⟨e, t₁, t₂, l₁, l₂, hc, h₁, h₂, rfl, rfl⟩
      · exact Or.inl ⟨hp.await delivery, he⟩
      · exact Or.inr ⟨e, ⟨op, delivery⟩ :: t₁, t₂, l₁, l₂, hc,
          h₁.await delivery, h₂, rfl, rfl⟩

/-- A play without deliveries is one the thread finishes by itself. -/
theorem plays_nil_iff {p : Suspend Res ω α} {lines : List ω}
    {outcome : Except Throwable α} :
    Plays env p [] lines outcome ↔ p.settle = (lines, .finished outcome) := by
  induction p generalizing lines with
  | done result => simp [Suspend.settle, eq_comm]
  | emit line next ih =>
      rw [plays_emit_iff]
      simp only [ih, Suspend.settle, Prod.ext_iff]
      constructor
      · intro htail
        obtain ⟨rest, hlines, hwritten, hsettled⟩ := htail
        rw [hlines, hwritten]
        exact ⟨rfl, hsettled⟩
      · intro hwhole
        obtain ⟨hwritten, hsettled⟩ := hwhole
        exact ⟨next.settle.1, hwritten.symm, rfl, hsettled⟩
  | await op resume ih => simp [plays_await_iff, Suspend.settle]

/-- A play with a first delivery is one the thread suspends before it. -/
theorem plays_cons_of_settle {p : Suspend Res ω α} {written lines : List ω} {op : Op}
    {resume : Except Throwable (Res op) → Suspend Res ω α}
    {delivery : Delivery env op} {trace : List (Resumption env)}
    {outcome : Except Throwable α}
    (hsettle : p.settle = (written, .suspended op resume))
    (h : Plays env (resume delivery.result) trace lines outcome) :
    Plays env p (⟨op, delivery⟩ :: trace) (written ++ lines) outcome := by
  induction p generalizing written with
  | done result => simp [Suspend.settle] at hsettle
  | emit line next ih =>
      simp only [Suspend.settle, Prod.mk.injEq] at hsettle
      obtain ⟨rfl, hs⟩ := hsettle
      exact (ih (Prod.ext rfl hs)).emit
  | await op' resume' ih =>
      simp only [Suspend.settle, Prod.mk.injEq] at hsettle
      obtain ⟨rfl, hs⟩ := hsettle
      cases hs
      exact h.await delivery

/-- Answering every suspension point by a reply is one of the plays. -/
theorem plays_run (reply : (op : Op) → env.Reply op) (p : Suspend Res ω α) :
    ∃ trace, (∀ x ∈ trace, x.2 = .reply (reply x.1)) ∧
      Plays env p trace (p.runLog fun op => env.result (reply op))
        (p.run fun op => env.result (reply op)) := by
  induction p with
  | done outcome => exact ⟨[], by simp, Plays.done outcome⟩
  | emit line next ih =>
      obtain ⟨trace, hreply, h⟩ := ih
      exact ⟨trace, hreply, h.emit⟩
  | await op resume ih =>
      obtain ⟨trace, hreply, h⟩ := ih (env.result (reply op))
      refine ⟨⟨op, .reply (reply op)⟩ :: trace, ?_, Plays.await (.reply (reply op)) h⟩
      intro x hx
      rcases List.mem_cons.mp hx with rfl | hx
      · rfl
      · exact hreply x hx

/-- Each delivery is a play of its suspension point. -/
theorem plays_suspend {op : Op} (delivery : Delivery env op) :
    Plays env (Suspend.suspend op : Suspend Res ω (Res op)) [⟨op, delivery⟩] []
      delivery.result :=
  Plays.await delivery (Plays.done delivery.result)

/-- A play of the first part that throws is a play of the sequence. -/
theorem Plays.throws {p : Suspend Res ω α} {f : α → Suspend Res ω β} {e : Throwable}
    {trace : List (Resumption env)} {lines : List ω} (h : Plays env p trace lines (.error e)) :
    Plays env (p >>= f) trace lines (.error e) := by
  change Plays env (p.bind f) trace lines (.error e)
  generalize hthrew : (.error e : Except Throwable α) = result at h
  induction h with
  | done outcome =>
      cases hthrew
      exact Plays.done _
  | emit tail ih => exact (ih hthrew).emit
  | await delivery tail ih => exact (ih hthrew).await delivery

/-- A play of the first part that returns, followed by a play of the rest. -/
theorem Plays.followed {p : Suspend Res ω α} {f : α → Suspend Res ω β} {a : α}
    {trace₁ trace₂ : List (Resumption env)} {lines₁ lines₂ : List ω}
    {outcome : Except Throwable β} (h : Plays env p trace₁ lines₁ (.ok a))
    (hrest : Plays env (f a) trace₂ lines₂ outcome) :
    Plays env (p >>= f) (trace₁ ++ trace₂) (lines₁ ++ lines₂) outcome := by
  change Plays env (p.bind f) (trace₁ ++ trace₂) (lines₁ ++ lines₂) outcome
  generalize hvalue : (.ok a : Except Throwable α) = result at h
  induction h with
  | done outcome =>
      cases hvalue
      exact hrest
  | emit tail ih => exact (ih hvalue).emit
  | await delivery tail ih => exact (ih hvalue).await delivery

/-- Returning a function of the value plays as the computation does. -/
theorem Plays.mapped {p : Suspend Res ω α} {trace : List (Resumption env)} {lines : List ω}
    {result : Except Throwable α} (h : Plays env p trace lines result) (f : α → β) :
    Plays env (p >>= fun a => pure (f a)) trace lines (f <$> result) := by
  cases result with
  | error e => exact h.throws
  | ok a =>
      have hpure : Plays env (pure (f a) : Suspend Res ω β) [] [] (.ok (f a)) := Plays.done _
      have hboth := @Plays.followed _ _ _ _ _ _ p (fun a => pure (f a)) _ _ _ _ _ _ h hpure
      rw [List.append_nil, List.append_nil] at hboth
      exact hboth

/-- A play of the body that throws no `Exception` is a play of the guarded
body. -/
theorem Plays.unguarded {p : Suspend Res ω α} {handler : Throwable → Suspend Res ω α}
    {trace : List (Resumption env)} {lines : List ω} {outcome : Except Throwable α}
    (h : Plays env p trace lines outcome)
    (huncaught : ∀ e, outcome = .error e → e.isException = false) :
    Plays env (p.catchException handler) trace lines outcome := by
  induction h with
  | done outcome =>
      cases outcome with
      | ok a => exact Plays.done _
      | error e =>
          rw [Suspend.catchException, if_neg (by simp [huncaught e rfl])]
          exact Plays.done _
  | emit tail ih => exact (ih huncaught).emit
  | await delivery tail ih => exact (ih huncaught).await delivery

/-- A play of the body that throws an `Exception`, followed by a play of the
handler. -/
theorem Plays.guarded {p : Suspend Res ω α} {handler : Throwable → Suspend Res ω α}
    {e : Throwable} {trace₁ trace₂ : List (Resumption env)} {lines₁ lines₂ : List ω}
    {outcome : Except Throwable α} (h : Plays env p trace₁ lines₁ (.error e))
    (hcaught : e.isException = true)
    (hhandler : Plays env (handler e) trace₂ lines₂ outcome) :
    Plays env (p.catchException handler) (trace₁ ++ trace₂) (lines₁ ++ lines₂) outcome := by
  generalize hthrew : (.error e : Except Throwable α) = result at h
  induction h with
  | done outcome =>
      cases hthrew
      rw [Suspend.catchException, if_pos hcaught]
      exact hhandler
  | emit tail ih => exact (ih hthrew).emit
  | await delivery tail ih => exact (ih hthrew).await delivery

end Coroutine
