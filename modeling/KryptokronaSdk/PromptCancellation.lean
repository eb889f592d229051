import KryptokronaSdk.JobRuns

/-!
# Prompt cancellation

Coroutines give one guarantee about what resumes a suspended call: once the
Job is cancelled, a cancellable operation is not resumed with a value.  It may
still throw, be it the cancellation or a failure of its own.  No step of a run
takes this for granted.  `Run.Prompt` states it of a run, and a theorem that
needs it has it as a hypothesis.

* `Run.late`: a call begun under a cancelled Job gets no value at a cancellable
  operation;
* `Run.unanswered_from`: nor does any call made once the Job is cancelled.
-/

namespace Coroutine

variable {Op : Type} {Res : Op → Type} {ω : Type} {env : Environment Res}
  {callee : Callee Res ω}

/-- **Prompt cancellation**: once the Job is cancelled, a cancellable operation
is not resumed with a value. -/
def Run.Prompt (r : Run env callee) (Cancellable : Op → Prop) : Prop :=
  ∀ k (x : Resumption env), (r.state k).cancelled = true → Cancellable x.1 →
    r.event k = .resume x → ∃ e, x.2.result = .error e

/-- Nothing but throwing happened at the cancellable operations of the trace. -/
def Unanswered (Cancellable : Op → Prop) (trace : List (Resumption env)) : Prop :=
  ∀ x ∈ trace, Cancellable x.1 → ∃ e, x.2.result = .error e

variable {Cancellable : Op → Prop}

theorem Unanswered.resume {trace : List (Resumption env)} (h : Unanswered Cancellable trace)
    {x : Resumption env} (hx : Cancellable x.1 → ∃ e, x.2.result = .error e) :
    Unanswered Cancellable (trace ++ [x]) := by
  intro y hy
  rcases List.mem_append.mp hy with hold | hnew
  · exact h y hold
  · obtain rfl := List.mem_singleton.mp hnew
    exact hx

/-- **No late answer.**  A call begun after the Job was cancelled gets no value
at a cancellable operation. -/
theorem Run.late (r : Run env callee) (hprompt : r.Prompt Cancellable) :
    ∀ k, (r.state k).Traces fun _ begun trace => begun = true → Unanswered Cancellable trace := by
  apply r.traces
  · intro call begun _ x hx
    cases hx
  · intro k p delivery hpending hevent htrace hbegun
    have hcancelled := (r.sound k).begun p hpending hbegun
    exact (htrace hbegun).resume fun hop => hprompt k _ hcancelled hop hevent

@[simp] theorem State.cancelled_advance (s : State env callee) (record : CallRecord env callee)
    (p : Suspend Res ω (callee.Result record.call)) :
    (s.advance record p).cancelled = s.cancelled := by
  rcases hsettle : p.settle with ⟨lines, outcome | ⟨op, resume⟩⟩
  · rw [s.advance_finished record hsettle]
  · rw [s.advance_suspended record hsettle]

/-- The Job is cancelled, and the calls after the first `n` got no value at a
cancellable operation. -/
structure State.UnansweredFrom (Cancellable : Op → Prop) (n : Nat) (s : State env callee) :
    Prop where
  cancelled : s.cancelled = true
  reached : n ≤ s.calls.length
  completed : ∀ c ∈ s.completed.drop n, Unanswered Cancellable c.trace
  pending : ∀ p, s.pending = some p → n ≤ s.completed.length → Unanswered Cancellable p.trace

theorem State.UnansweredFrom.advance {n : Nat} {s : State env callee}
    (hs : s.cancelled = true)
    (hcompleted : ∀ c ∈ s.completed.drop n, Unanswered Cancellable c.trace)
    {record : CallRecord env callee} {p : Suspend Res ω (callee.Result record.call)}
    (hreached : n ≤ s.completed.length + 1)
    (hrecord : n ≤ s.completed.length → Unanswered Cancellable record.trace) :
    (s.advance record p).UnansweredFrom Cancellable n := by
  have hcancelled := (s.cancelled_advance record p).trans hs
  have hcalls : n ≤ (s.advance record p).calls.length := by
    rw [State.calls_advance]
    simpa using hreached
  rcases hsettle : p.settle with ⟨lines, outcome | ⟨op, resume⟩⟩
  · rw [s.advance_finished record hsettle] at hcancelled hcalls ⊢
    refine ⟨hcancelled, hcalls, ?_, fun _ h => by cases h⟩
    intro c hc
    by_cases hn : n ≤ s.completed.length
    · rw [List.drop_append_of_le_length hn] at hc
      rcases List.mem_append.mp hc with hold | hnew
      · exact hcompleted c hold
      · obtain rfl := List.mem_singleton.mp hnew
        exact hrecord hn
    · rw [List.drop_eq_nil_of_le (by simp; omega)] at hc
      cases hc
  · rw [s.advance_suspended record hsettle] at hcancelled hcalls ⊢
    refine ⟨hcancelled, hcalls, hcompleted, ?_⟩
    intro q hq hn
    cases hq
    exact hrecord hn

/-- **No answer after the cancellation.**  The calls made once the Job is
cancelled get no value at a cancellable operation. -/
theorem Run.unanswered_from (r : Run env callee) (hprompt : r.Prompt Cancellable) {k : Nat}
    (hcancelled : (r.state k).cancelled = true) (d : Nat) :
    (r.state (k + d)).UnansweredFrom Cancellable (r.state k).calls.length := by
  induction d with
  | zero =>
      refine ⟨hcancelled, Nat.le_refl _, ?_, ?_⟩
      · intro c hc
        rw [Nat.add_zero, List.drop_eq_nil_of_le (by rw [State.length_calls]; omega)] at hc
        cases hc
      · intro p hp hn
        rw [Nat.add_zero] at hp hn
        rw [State.length_calls, hp, Option.toList_some, List.length_singleton] at hn
        omega
  | succ d ih =>
      have hreached := ih.reached
      rcases step_cases (r.valid (k + d)) with ⟨call, _, hfree, ht⟩ |
        ⟨p, delivery, hevent, hpending, ht⟩ | ⟨_, ht⟩ | ⟨_, ht⟩
      · rw [(r.state (k + d)).length_calls, hfree, Option.toList_none, List.length_nil] at hreached
        rw [← Nat.add_assoc, ht]
        apply State.UnansweredFrom.advance ih.cancelled ih.completed (by omega)
        intro _ x hx
        cases hx
      · rw [(r.state (k + d)).length_calls, hpending, Option.toList_some,
          List.length_singleton] at hreached
        rw [← Nat.add_assoc, ht]
        apply State.UnansweredFrom.advance ih.cancelled ih.completed hreached
        intro hn
        have hthrew := fun hop => hprompt (k + d) ⟨p.op, delivery⟩ ih.cancelled hop hevent
        exact (ih.pending p hpending hn).resume hthrew
      · rw [← Nat.add_assoc, ht]
        exact ⟨rfl, hreached, ih.completed, ih.pending⟩
      · rw [← Nat.add_assoc, ht]
        exact ih

end Coroutine
