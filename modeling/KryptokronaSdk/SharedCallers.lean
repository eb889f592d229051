import KryptokronaSdk.JobProgress
import Mathlib.Data.Nat.Count
import Mathlib.Logic.Function.Basic

/-!
# Callers that share a store

Many caller coroutines run side by side, each under its own Job.  They share
a store of mutable objects.  An *invocation* names objects of the store; the
call it makes is fixed by what it reads of them, one piece after the other,
while anyone may write the store.

`SystemStep` is one step of one caller, or one write; the steps of different
callers come in any order.  A caller that was invoked reads the store and then
makes its call.  Its reads are not steps of their own: the step that makes the
call knows what the store has held since the caller last ran, and reads off
that.

* `SystemRun.caller`: what one caller goes through in a run of the system is
  a run of that caller alone, so whatever holds of every `Run` holds of each
  caller in every interleaving;
* `exists_interleaving`: and whatever runs single callers make, in any order of
  their turns, make up a run of the system;
* `SystemRun.calls_eq_invoked`: the calls of a caller, completed and pending,
  are the ones its invocations came to, in order;
* `SystemRun.seen_eq`: what a call was read off, the store held at moments of
  the run between the last step of the caller and this one.
-/

namespace Coroutine

variable {Op : Type} {Res : Op → Type} {ω : Type}

/-- A computation that reads a store, one piece after the other. -/
inductive Reading (σ α : Type)
  | done (value : α)
  | read (next : σ → Reading σ α)

/-- What a computation can come to while others write the store.  `seen` is
what the store has held from its start on, oldest first. -/
inductive Reading.Yields {σ α : Type} : List σ → Reading σ α → α → Prop
  | done {seen : List σ} (value : α) : Yields seen (.done value) value
  | later {store : σ} {seen : List σ} {reading : Reading σ α} {value : α}
      (tail : Yields seen reading value) : Yields (store :: seen) reading value
  | read {store : σ} {seen : List σ} {next : σ → Reading σ α} {value : α}
      (tail : Yields (store :: seen) (next store) value) :
      Yields (store :: seen) (.read next) value

theorem Reading.Yields.done_eq {σ α : Type} {seen : List σ} {value result : α}
    (h : (Reading.done value).Yields seen result) : result = value := by
  generalize hdone : Reading.done value = reading at h
  induction h with
  | done =>
      cases hdone
      rfl
  | later tail ih => exact ih hdone
  | read => cases hdone

/-- A read takes one of the stores there were, and goes on from there. -/
theorem Reading.Yields.read_cases {σ α : Type} {seen : List σ} {next : σ → Reading σ α}
    {value : α} (h : (Reading.read next).Yields seen value) :
    ∃ before store rest, seen = before ++ store :: rest ∧
      (next store).Yields (store :: rest) value := by
  generalize hread : Reading.read next = reading at h
  induction h with
  | done => cases hread
  | later tail ih =>
      obtain ⟨before, store, rest, hseen, hnext⟩ := ih hread
      exact ⟨_ :: before, store, rest, congrArg (List.cons _) hseen, hnext⟩
  | read tail _ =>
      cases hread
      exact ⟨[], _, _, rfl, tail⟩

/-- A read of what a store held at moments in order is made at one of them,
and the rest no earlier. -/
theorem Reading.Yields.read_at {σ α : Type} {held : Nat → σ} {times : List Nat}
    {next : σ → Reading σ α} {value : α} (hsorted : times.Pairwise (· ≤ ·))
    (h : (Reading.read next).Yields (times.map held) value) :
    ∃ t later, (∀ u ∈ t :: later, u ∈ times ∧ t ≤ u) ∧ (t :: later).Pairwise (· ≤ ·) ∧
      (next (held t)).Yields ((t :: later).map held) value := by
  obtain ⟨before, store, rest, hseen, hnext⟩ := h.read_cases
  obtain ⟨earlier, since, htimes, _, hsince⟩ := List.map_eq_append_iff.mp hseen
  obtain ⟨t, later, hcons, hstore, hlater⟩ := List.map_eq_cons_iff.mp hsince
  rw [hcons] at htimes
  have hstill : (t :: later).Pairwise (· ≤ ·) := by
    rw [htimes] at hsorted
    exact (List.pairwise_append.mp hsorted).2.1
  refine ⟨t, later, ?_, hstill, ?_⟩
  · intro u hu
    constructor
    · rw [htimes]
      exact List.mem_append_right _ hu
    · rcases List.mem_cons.mp hu with hfirst | hlast
      · omega
      · exact (List.pairwise_cons.mp hstill).1 u hlast
  · rw [List.map_cons, hstore, hlater]
    exact hnext

/-- What callers share: a store, and how an invocation comes to a call. -/
structure Sharing {Op : Type} {Res : Op → Type} {ω : Type} (callee : Callee Res ω) where
  Store : Type
  Invocation : Type
  resolve : Invocation → Reading Store callee.Call

variable (env : Environment Res) {callee : Callee Res ω} (sharing : Sharing callee) (ι : Type)

/-- The store, the callers with their Jobs and calls, and for each of them what
the store has held since it last ran. -/
structure SystemState where
  store : sharing.Store
  caller : ι → State env callee
  seen : ι → List sharing.Store

/-- What a step of the system does, seen from outside. -/
inductive SystemEvent
  | invoke (i : ι) (invocation : sharing.Invocation) (call : callee.Call)
  | resume (i : ι) (x : Resumption env)
  | cancel (i : ι)
  | write (store : sharing.Store)
  | idle

variable {env sharing ι} [DecidableEq ι]

/-- One caller runs to a state. -/
def SystemState.move (s : SystemState env sharing ι) (i : ι) (t : State env callee) :
    SystemState env sharing ι :=
  { s with
    caller := Function.update s.caller i t
    seen := Function.update s.seen i [s.store] }

/-- One step of the system. -/
inductive SystemStep :
    SystemState env sharing ι → SystemEvent env sharing ι → SystemState env sharing ι → Prop
  | invoke {s : SystemState env sharing ι} (i : ι) (invocation : sharing.Invocation)
      {call : callee.Call} (hfree : (s.caller i).pending = none)
      (hread : (sharing.resolve invocation).Yields (s.seen i) call) :
      SystemStep s (.invoke i invocation call) (s.move i ((s.caller i).invoke call))
  | resume {s : SystemState env sharing ι} (i : ι) {x : Resumption env} {t : State env callee}
      (hstep : Step (s.caller i) (.resume x) t) : SystemStep s (.resume i x) (s.move i t)
  | cancel (s : SystemState env sharing ι) (i : ι) :
      SystemStep s (.cancel i)
        { s with caller := Function.update s.caller i { s.caller i with cancelled := true } }
  | write (s : SystemState env sharing ι) (store : sharing.Store) :
      SystemStep s (.write store) { s with store := store, seen := fun i => s.seen i ++ [store] }
  | idle (s : SystemState env sharing ι) : SystemStep s .idle s

/-- A run of the system.  The store may hold anything at first. -/
structure SystemRun (env : Environment Res) (sharing : Sharing callee) (ι : Type)
    [DecidableEq ι] where
  state : Nat → SystemState env sharing ι
  event : Nat → SystemEvent env sharing ι
  initialized : ∀ i, (state 0).caller i = State.initial env callee ∧
    (state 0).seen i = [(state 0).store]
  valid : ∀ k, SystemStep (state k) (event k) (state (k+1))

/-- What a caller sees of an event. -/
def SystemEvent.seenBy (i : ι) : SystemEvent env sharing ι → Event env
  | .invoke j _ _ => if j = i then .call else .idle
  | .resume j x => if j = i then .resume x else .idle
  | .cancel j => if j = i then .cancel else .idle
  | .write _ => .idle
  | .idle => .idle

/-- The call a caller makes in an event. -/
def SystemEvent.callBy (i : ι) : SystemEvent env sharing ι → Option callee.Call
  | .invoke j _ call => if j = i then some call else none
  | _ => none

/-- The thread of a caller runs in an event. -/
def SystemEvent.RunBy (i : ι) : SystemEvent env sharing ι → Prop
  | .invoke j _ _ => j = i
  | .resume j _ => j = i
  | _ => False

/-- What a caller is resumed with, it is resumed with by a step of its own. -/
theorem SystemEvent.seenBy_eq_resume_iff {event : SystemEvent env sharing ι} {i : ι}
    {x : Resumption env} : event.seenBy i = .resume x ↔ event = .resume i x := by
  cases event with
  | invoke j invocation call => by_cases hij : j = i <;> simp [SystemEvent.seenBy, hij]
  | resume j y => by_cases hij : j = i <;> simp [SystemEvent.seenBy, hij]
  | cancel j => by_cases hij : j = i <;> simp [SystemEvent.seenBy, hij]
  | write store => simp [SystemEvent.seenBy]
  | idle => simp [SystemEvent.seenBy]

/-- What a step that makes a call does. -/
theorem SystemStep.invoked {s t : SystemState env sharing ι} {i : ι}
    {invocation : sharing.Invocation} {call : callee.Call}
    (hstep : SystemStep s (.invoke i invocation call) t) :
    t.caller i = (s.caller i).invoke call ∧
      (sharing.resolve invocation).Yields (s.seen i) call := by
  cases hstep with
  | invoke _ _ _ hread => exact ⟨Function.update_self _ _ _, hread⟩

/-- Every step of the system is a step of each caller, for most of them an
idle one. -/
theorem SystemStep.seenBy {s t : SystemState env sharing ι} {event : SystemEvent env sharing ι}
    (hstep : SystemStep s event t) (i : ι) :
    Step (s.caller i) (event.seenBy i) (t.caller i) := by
  cases hstep with
  | invoke j invocation hfree hread =>
      by_cases hij : j = i
      · subst hij
        simp only [SystemEvent.seenBy, SystemState.move, Function.update_self, if_true]
        exact Step.call _ hfree
      · simp only [SystemEvent.seenBy, SystemState.move, if_neg hij,
          Function.update_of_ne (Ne.symm hij)]
        exact Step.idle _
  | resume j hown =>
      by_cases hij : j = i
      · subst hij
        simp only [SystemEvent.seenBy, SystemState.move, Function.update_self, if_true]
        exact hown
      · simp only [SystemEvent.seenBy, SystemState.move, if_neg hij,
          Function.update_of_ne (Ne.symm hij)]
        exact Step.idle _
  | cancel j =>
      by_cases hij : j = i
      · subst hij
        simp only [SystemEvent.seenBy, Function.update_self, if_true]
        exact Step.cancel _
      · simp only [SystemEvent.seenBy, if_neg hij, Function.update_of_ne (Ne.symm hij)]
        exact Step.idle _
  | write store => exact Step.idle _
  | idle => exact Step.idle _

/-- **What one caller goes through is a run of that caller alone.** -/
def SystemRun.caller (r : SystemRun env sharing ι) (i : ι) : Run env callee where
  state k := (r.state k).caller i
  event k := (r.event k).seenBy i
  initialized := (r.initialized i).1
  valid k := (r.valid k).seenBy i

/-- A step of one caller is a step of the system, if nobody has written the
store and every call can be invoked under it. -/
theorem SystemStep.of_step {s : SystemState env sharing ι} (hseen : s.seen = fun _ => [s.store])
    {invocation : callee.Call → sharing.Invocation}
    (hresolve : ∀ call, (sharing.resolve (invocation call)).Yields [s.store] call) {i : ι}
    {event : Event env} {t : State env callee} (hstep : Step (s.caller i) event t) :
    ∃ systemEvent, SystemStep s systemEvent { s with caller := Function.update s.caller i t } := by
  have hmove : s.move i t = { s with caller := Function.update s.caller i t } := by
    unfold SystemState.move
    rw [hseen, Function.update_eq_self]
  cases event with
  | call =>
      rcases step_cases hstep with ⟨call, _, hfree, ht⟩ | ⟨p, delivery, h, _⟩ | ⟨h, _⟩ | ⟨h, _⟩
      · have hread : (sharing.resolve (invocation call)).Yields (s.seen i) call := by
          rw [hseen]
          exact hresolve call
        rw [← hmove, ht]
        exact ⟨_, SystemStep.invoke i (invocation call) hfree hread⟩
      · cases h
      · cases h
      · cases h
  | resume x =>
      rw [← hmove]
      exact ⟨_, SystemStep.resume i hstep⟩
  | cancel =>
      cases hstep
      exact ⟨_, SystemStep.cancel s i⟩
  | idle =>
      cases hstep
      rw [Function.update_eq_self]
      exact ⟨_, SystemStep.idle s⟩

/-- **Callers are independent.**  Under a store that lets every call be
invoked, runs of single callers make up a run of the system in any order of
their turns. -/
theorem exists_interleaving {store : sharing.Store}
    {invocation : callee.Call → sharing.Invocation}
    (hresolve : ∀ call, (sharing.resolve (invocation call)).Yields [store] call)
    (runs : ι → Run env callee) (schedule : Nat → ι) :
    ∃ r : SystemRun env sharing ι, ∀ i k,
      (r.state k).caller i = (runs i).state (Nat.count (fun j => schedule j = i) k) := by
  let state (k : Nat) : SystemState env sharing ι :=
    ⟨store, fun i => (runs i).state (Nat.count (fun j => schedule j = i) k), fun _ => [store]⟩
  have hturn : ∀ k, (state (k+1)).caller = Function.update (state k).caller (schedule k)
      ((runs (schedule k)).state (Nat.count (fun j => schedule j = schedule k) k + 1)) := by
    intro k
    funext i
    by_cases hi : i = schedule k
    · rw [hi, Function.update_self]
      simp [state, Nat.count_succ]
    · rw [Function.update_of_ne hi]
      simp [state, Nat.count_succ, Ne.symm hi]
  have hnext : ∀ k, ∃ event, SystemStep (state k) event (state (k+1)) := by
    intro k
    have hstep := (runs (schedule k)).valid (Nat.count (fun j => schedule j = schedule k) k)
    obtain ⟨event, hsystem⟩ := @SystemStep.of_step _ _ _ _ _ _ _ _ (state k) rfl invocation
      hresolve (schedule k) _ _ hstep
    rw [← hturn k] at hsystem
    exact ⟨event, hsystem⟩
  choose event hvalid using hnext
  have hinitialized : ∀ i, (state 0).caller i = State.initial env callee ∧
      (state 0).seen i = [(state 0).store] := fun i => ⟨(runs i).initialized, rfl⟩
  exact ⟨⟨state, event, hinitialized, hvalid⟩, fun _ _ => rfl⟩

/-- A step of the system adds to the calls of a caller the call it makes. -/
theorem SystemStep.calls_eq {s t : SystemState env sharing ι}
    {event : SystemEvent env sharing ι} (hstep : SystemStep s event t) (i : ι) :
    (t.caller i).calls = (s.caller i).calls ++ (event.callBy i).toList := by
  cases hstep with
  | invoke j invocation hfree hread =>
      by_cases hij : j = i
      · subst hij
        simp only [SystemState.move, Function.update_self, SystemEvent.callBy, if_true,
          State.invoke, State.calls_advance]
        simp [State.calls, hfree]
      · simp [SystemState.move, SystemEvent.callBy, if_neg hij,
          Function.update_of_ne (Ne.symm hij)]
  | resume j hown =>
      by_cases hij : j = i
      · subst hij
        have hsame := hown.calls_eq (by simp)
        simp [SystemState.move, SystemEvent.callBy, hsame]
      · simp [SystemState.move, SystemEvent.callBy, Function.update_of_ne (Ne.symm hij)]
  | cancel j =>
      by_cases hij : j = i
      · subst hij
        simp [SystemEvent.callBy, State.calls]
      · simp [SystemEvent.callBy, Function.update_of_ne (Ne.symm hij)]
  | write store => simp [SystemEvent.callBy]
  | idle => simp [SystemEvent.callBy]

/-- The calls the invocations of a caller have come to before step `k`. -/
def SystemRun.invoked (r : SystemRun env sharing ι) (i : ι) (k : Nat) : List callee.Call :=
  (List.range k).filterMap fun j => (r.event j).callBy i

/-- **The calls of a caller are those of its invocations in order**, none lost
and none made twice. -/
theorem SystemRun.calls_eq_invoked (r : SystemRun env sharing ι) (i : ι) (k : Nat) :
    ((r.state k).caller i).calls = r.invoked i k := by
  induction k with
  | zero =>
      rw [(r.initialized i).1]
      rfl
  | succ k ih =>
      rw [(r.valid k).calls_eq i, ih]
      unfold SystemRun.invoked
      rw [List.range_succ, List.filterMap_append]
      cases hmade : (r.event k).callBy i <;> simp [hmade]

/-- What a step adds to what a caller has seen of the store. -/
theorem SystemStep.seen_cases {s t : SystemState env sharing ι}
    {event : SystemEvent env sharing ι} (hstep : SystemStep s event t) (i : ι) :
    t.seen i = [t.store] ∨
      ¬ event.RunBy i ∧ (t.seen i = s.seen i ∨ t.seen i = s.seen i ++ [t.store]) := by
  cases hstep with
  | invoke j invocation hfree hread =>
      by_cases hij : i = j
      · rw [hij]
        exact Or.inl (Function.update_self _ _ _)
      · exact Or.inr ⟨Ne.symm hij, Or.inl (Function.update_of_ne hij _ _)⟩
  | resume j hown =>
      by_cases hij : i = j
      · rw [hij]
        exact Or.inl (Function.update_self _ _ _)
      · exact Or.inr ⟨Ne.symm hij, Or.inl (Function.update_of_ne hij _ _)⟩
  | cancel j => exact Or.inr ⟨id, Or.inl rfl⟩
  | write store => exact Or.inr ⟨id, Or.inr rfl⟩
  | idle => exact Or.inr ⟨id, Or.inl rfl⟩

/-- The thread of a caller does not run from step `j` to step `k`. -/
def SystemRun.Rests (r : SystemRun env sharing ι) (i : ι) (j k : Nat) : Prop :=
  ∀ t, j ≤ t → t < k → ¬ (r.event t).RunBy i

/-- **What a caller has seen, the store held** at moments since it last ran. -/
theorem SystemRun.seen_eq (r : SystemRun env sharing ι) (i : ι) (k : Nat) :
    ∃ times : List Nat, (r.state k).seen i = times.map (fun t => (r.state t).store) ∧
      times.Pairwise (· ≤ ·) ∧ ∀ t ∈ times, t ≤ k ∧ r.Rests i t k := by
  have hnow : ∀ k, ∀ t ∈ [k], t ≤ k ∧ r.Rests i t k := by
    intro k t ht
    rw [List.mem_singleton.mp ht]
    exact ⟨Nat.le_refl k, fun j hj hj' => absurd hj' (Nat.not_lt.mpr hj)⟩
  induction k with
  | zero => exact ⟨[0], (r.initialized i).2, by simp, hnow 0⟩
  | succ k ih =>
      rcases (r.valid k).seen_cases i with hran | ⟨hrests, hseen⟩
      · exact ⟨[k+1], hran, by simp, hnow (k+1)⟩
      · obtain ⟨times, htimes, hsorted, hbefore⟩ := ih
        have hstill : ∀ t ∈ times, t ≤ k + 1 ∧ r.Rests i t (k+1) := by
          intro t ht
          obtain ⟨htk, hrest⟩ := hbefore t ht
          refine ⟨by omega, ?_⟩
          intro j hj hjk
          by_cases hlast : j = k
          · rw [hlast]
            exact hrests
          · exact hrest j hj (by omega)
        rcases hseen with hsame | hwritten
        · exact ⟨times, hsame.trans htimes, hsorted, hstill⟩
        · refine ⟨times ++ [k+1], ?_, ?_, ?_⟩
          · rw [hwritten, htimes, List.map_append]
            rfl
          · apply List.pairwise_append.mpr
            refine ⟨hsorted, by simp, ?_⟩
            intro t ht u hu
            rw [List.mem_singleton.mp hu]
            exact (hstill t ht).1
          · intro t ht
            rcases List.mem_append.mp ht with hold | hnew
            · exact hstill t hold
            · exact hnow (k+1) t hnew

end Coroutine
