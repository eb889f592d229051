import KryptokronaSdk.JobRuns
import Mathlib.Data.Nat.Find

/-!
# Progress of the calls of a caller

Nothing makes the environment resume a suspended call.  When it does so again
and again, a call still need not come to its end, for its program may suspend
without bound.  `Suspend.AtMost` bounds the number of suspension points a
computation can come to, whatever it is answered with.

* `atMost_bind`, `atMost_catchException`: the bounds add up along a program;
* `Run.completes`: when every program suspends at most `n` times and the
  environment keeps answering, a pending call is the next to complete, after
  at most `n` deliveries in all.

A pending call waits unchanged until the first delivery, and each delivery
uses up one suspension point; so the induction is on the number left.
-/

namespace Coroutine

variable {Op : Type} {Res : Op → Type} {ω α β : Type}

/-- The computation suspends at most `n` times, whatever it is answered. -/
def Suspend.AtMost : Suspend Res ω α → Nat → Prop
  | .done _, _ => True
  | .emit _ next, n => next.AtMost n
  | .await _ _, 0 => False
  | .await _ resume, n + 1 => ∀ result, (resume result).AtMost n

theorem Suspend.AtMost.mono {p : Suspend Res ω α} {m n : Nat} (h : p.AtMost m)
    (hmn : m ≤ n) : p.AtMost n := by
  induction p generalizing m n with
  | done outcome => trivial
  | emit line next ih => exact ih h hmn
  | await op resume ih =>
      cases m with
      | zero => exact h.elim
      | succ m =>
          cases n with
          | zero => omega
          | succ n =>
              intro result
              exact ih result (h result) (by omega)

/-- The bounds of two parts add up. -/
theorem atMost_bind {p : Suspend Res ω α} {f : α → Suspend Res ω β} {m n : Nat}
    (hp : p.AtMost m) (hf : ∀ a, (f a).AtMost n) : (p >>= f).AtMost (m + n) := by
  change (p.bind f).AtMost (m + n)
  induction p generalizing m with
  | done outcome =>
      cases outcome with
      | ok a => exact (hf a).mono (by omega)
      | error e => trivial
  | emit line next ih => exact ih hp
  | await op resume ih =>
      cases m with
      | zero => exact hp.elim
      | succ m =>
          rw [Nat.add_right_comm]
          intro result
          exact ih result (hp result)

/-- Returning a function of the value suspends as the computation does. -/
theorem atMost_mapped {p : Suspend Res ω α} {f : α → β} {n : Nat} (hp : p.AtMost n) :
    (p >>= fun a => pure (f a)).AtMost n :=
  @atMost_bind _ _ _ _ _ p (fun a => pure (f a)) n 0 hp fun _ => trivial

theorem atMost_suspend (op : Op) : (Suspend.suspend op : Suspend Res ω (Res op)).AtMost 1 :=
  fun _ => trivial

/-- A handler adds its own suspension points to those of the body. -/
theorem atMost_catchException {p : Suspend Res ω α}
    {handler : Throwable → Suspend Res ω α} {m n : Nat}
    (hp : p.AtMost m) (hhandler : ∀ e, (handler e).AtMost n) :
    (p.catchException handler).AtMost (m + n) := by
  induction p generalizing m with
  | done outcome =>
      cases outcome with
      | ok a => trivial
      | error e =>
          rw [Suspend.catchException]
          by_cases hcaught : e.isException = true
          · rw [if_pos hcaught]
            exact (hhandler e).mono (by omega)
          · rw [if_neg hcaught]
            trivial
  | emit line next ih => exact ih hp
  | await op resume ih =>
      cases m with
      | zero => exact hp.elim
      | succ m =>
          rw [Nat.add_right_comm]
          intro result
          exact ih result (hp result)

/-- Coming to a suspension point uses one up. -/
theorem atMost_of_settle {p : Suspend Res ω α} {n : Nat} {written : List ω} {op : Op}
    {resume : Except Throwable (Res op) → Suspend Res ω α} (hp : p.AtMost n)
    (hsettle : p.settle = (written, .suspended op resume)) :
    ∃ m, n = m + 1 ∧ ∀ result, (resume result).AtMost m := by
  induction p generalizing written with
  | done outcome => simp [Suspend.settle] at hsettle
  | emit line next ih =>
      simp only [Suspend.settle, Prod.mk.injEq] at hsettle
      exact ih hp (Prod.ext rfl hsettle.2)
  | await op' resume' ih =>
      simp only [Suspend.settle, Prod.mk.injEq] at hsettle
      cases hsettle.2
      cases n with
      | zero => exact hp.elim
      | succ m => exact ⟨m, rfl, hp⟩

variable {env : Environment Res} {callee : Callee Res ω}

/-- An event that resumes the pending call. -/
def Event.Delivers (event : Event env) : Prop := ∃ x, event = .resume x

/-- A step that resumes nothing leaves a pending call and the completed ones
as they are. -/
theorem Step.waits {s t : State env callee} {event : Event env} (hstep : Step s event t)
    {p : Pending env callee} (hpending : s.pending = some p) (hevent : ¬ event.Delivers) :
    t.pending = some p ∧ t.completed = s.completed := by
  rcases step_cases hstep with ⟨call, _, hfree, _⟩ | ⟨q, delivery, hresume, _⟩ |
    ⟨_, ht⟩ | ⟨_, ht⟩
  · rw [hpending] at hfree
    cases hfree
  · exact absurd ⟨_, hresume⟩ hevent
  · rw [ht]
    exact ⟨hpending, rfl⟩
  · rw [ht]
    exact ⟨hpending, rfl⟩

/-- A step that resumes the pending call makes one delivery to it. -/
theorem Step.delivers {s t : State env callee} {event : Event env} (hstep : Step s event t)
    {p : Pending env callee} (hpending : s.pending = some p) (hevent : event.Delivers) :
    ∃ delivery : Delivery env p.op, t = s.deliver p delivery := by
  obtain ⟨x, hx⟩ := hevent
  rw [hx] at hstep
  obtain ⟨delivery, _, ht⟩ := hstep.resumed hpending
  exact ⟨delivery, ht⟩

/-- The environment keeps answering: a pending call is resumed some time. -/
def Run.Answers (r : Run env callee) : Prop :=
  ∀ k p, (r.state k).pending = some p → ∃ j, k ≤ j ∧ (r.event j).Delivers

/-- A pending call waits unchanged for its next delivery. -/
theorem Run.next_delivery (r : Run env callee) (hanswers : r.Answers) {k : Nat}
    {p : Pending env callee} (hpending : (r.state k).pending = some p) :
    ∃ j, k ≤ j ∧ (r.event j).Delivers ∧ (r.state j).pending = some p ∧
      (r.state j).completed = (r.state k).completed := by
  classical
  have hex := hanswers k p hpending
  have hfirst := Nat.find_spec hex
  have hbefore : ∀ i, k ≤ i → i < Nat.find hex → ¬ (r.event i).Delivers := by
    intro i hki hi hdelivers
    exact Nat.find_min hex hi ⟨hki, hdelivers⟩
  have hwaits : ∀ d, k + d ≤ Nat.find hex → (r.state (k + d)).pending = some p ∧
      (r.state (k + d)).completed = (r.state k).completed := by
    intro d
    induction d with
    | zero =>
        intro _
        exact ⟨hpending, rfl⟩
    | succ d ih =>
        intro hd
        obtain ⟨hp, hc⟩ := ih (by omega)
        have hquiet := hbefore (k + d) (by omega) (by omega)
        obtain ⟨hp', hc'⟩ := (r.valid (k + d)).waits hp hquiet
        exact ⟨hp', hc'.trans hc⟩
  obtain ⟨d, hd⟩ := Nat.exists_eq_add_of_le hfirst.1
  obtain ⟨hp, hc⟩ := hwaits d (by omega)
  rw [← hd] at hp hc
  exact ⟨Nat.find hex, hfirst.1, hfirst.2, hp, hc⟩

/-- `c` is the whole of the call `p` was a part of. -/
structure Completed.Extends (c : Completed env callee) (p : CallRecord env callee) :
    Prop where
  call : c.call = p.call
  begun : c.begunCancelled = p.begunCancelled
  trace : p.trace <+: c.trace

/-- A pending call with `m` suspension points left after this one is the next
to complete. -/
theorem Run.completes_of_left (r : Run env callee) (hanswers : r.Answers) {m k : Nat}
    {p : Pending env callee} (hpending : (r.state k).pending = some p)
    (hleft : ∀ result, (p.resume result).AtMost m) :
    ∃ j c, k < j ∧ (r.state j).completed = (r.state k).completed ++ [c] ∧
      c.Extends p.toCallRecord ∧ c.trace.length ≤ p.trace.length + 1 + m := by
  induction m using Nat.strongRecOn generalizing k p with
  | ind m ih =>
      obtain ⟨i, hki, hevent, hp, hc⟩ := r.next_delivery hanswers hpending
      obtain ⟨delivery, hnext⟩ := (r.valid i).delivers hp hevent
      rw [State.deliver] at hnext
      rcases hsettle : (p.resume delivery.result).settle with ⟨lines, outcome | ⟨op, resume⟩⟩
      · rw [(r.state i).advance_finished (p.delivered delivery) hsettle] at hnext
        refine ⟨i + 1, ⟨{ p.delivered delivery with log := p.log ++ lines }, outcome⟩,
          by omega, ?_, ⟨rfl, rfl, List.prefix_append _ _⟩, ?_⟩
        · rw [hnext, hc]
          rfl
        · simp [Pending.delivered]
      · rw [(r.state i).advance_suspended (p.delivered delivery) hsettle] at hnext
        obtain ⟨m', hm, hleft'⟩ := atMost_of_settle (hleft delivery.result) hsettle
        have hpending' := congrArg State.pending hnext
        have hcompleted := congrArg State.completed hnext
        obtain ⟨j, c, hij, hj, hextends, hlength⟩ := ih m' (by omega) hpending' hleft'
        refine ⟨j, c, by omega, ?_, ⟨hextends.call, hextends.begun, ?_⟩, ?_⟩
        · rw [hj, hcompleted, hc]
        · exact (List.prefix_append _ _).trans hextends.trace
        · simp only [Pending.delivered, List.length_append, List.length_singleton] at hlength
          omega

/-- The pending call of a state has suspension points left in its budget. -/
def State.Within (n : Nat) (s : State env callee) : Prop :=
  ∀ p, s.pending = some p →
    ∃ m, p.trace.length + 1 + m ≤ n ∧ ∀ result, (p.resume result).AtMost m

theorem State.Within.advance {n m : Nat} {s : State env callee}
    {record : CallRecord env callee} {p : Suspend Res ω (callee.Result record.call)}
    (hp : p.AtMost m) (hm : record.trace.length + m ≤ n) : (s.advance record p).Within n := by
  rcases hsettle : p.settle with ⟨lines, outcome | ⟨op, resume⟩⟩
  · rw [s.advance_finished record hsettle]
    intro q hq
    cases hq
  · rw [s.advance_suspended record hsettle]
    intro q hq
    cases hq
    obtain ⟨m', hm', hleft⟩ := atMost_of_settle hp hsettle
    refine ⟨m', ?_, hleft⟩
    change record.trace.length + 1 + m' ≤ n
    omega

/-- **Every run keeps its calls within the bound of their programs.** -/
theorem Run.within (r : Run env callee) {n : Nat}
    (hbound : ∀ call, (callee.program call).AtMost n) : ∀ k, (r.state k).Within n := by
  intro k
  induction k with
  | zero =>
      rw [r.initialized]
      intro p hp
      cases hp
  | succ k ih =>
      rcases step_cases (r.valid k) with ⟨call, _, _, ht⟩ | ⟨p, delivery, _, hpending, ht⟩ |
        ⟨_, ht⟩ | ⟨_, ht⟩
      · rw [ht]
        exact State.Within.advance (hbound call) (by simp)
      · obtain ⟨m, hm, hleft⟩ := ih p hpending
        have hlength : (p.delivered delivery).trace.length + m ≤ n := by
          simpa only [Pending.delivered, List.length_append, List.length_singleton] using hm
        rw [ht]
        exact State.Within.advance (hleft delivery.result) hlength
      · rw [ht]
        exact ih
      · rw [ht]
        exact ih

/-- **Progress.**  When the programs suspend at most `n` times and the
environment keeps answering, a pending call is the next to complete, after at
most `n` deliveries in all. -/
theorem Run.completes (r : Run env callee) {n : Nat}
    (hbound : ∀ call, (callee.program call).AtMost n) (hanswers : r.Answers) {k : Nat}
    {p : Pending env callee} (hpending : (r.state k).pending = some p) :
    ∃ j c, k < j ∧ (r.state j).completed = (r.state k).completed ++ [c] ∧
      c.Extends p.toCallRecord ∧ c.trace.length ≤ n := by
  obtain ⟨m, hm, hleft⟩ := r.within hbound k p hpending
  obtain ⟨j, c, hkj, hj, hextends, hlength⟩ := r.completes_of_left hanswers hpending hleft
  exact ⟨j, c, hkj, hj, hextends, by omega⟩

end Coroutine
