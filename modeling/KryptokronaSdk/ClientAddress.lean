import KryptokronaSdk.ClientRuns
import Mathlib

/-!
# What an address tells

The address of a request spells the scheme, the host, the port and the path of
the method one after the other.  A host has no `/`, so the address can be
taken apart again: the first `/` after the host ends the port, and the last
`:` before it starts the port.

* `url_inj`: nodes with the same address for some paths are the same;
* `request_eq_iff`: two calls send the same request only for the same node and
  method, or when both ask for the info of the node;
* `sentRequests_eq_iff`: what a caller has sent tells what it has invoked and
  read of its nodes, up to the two methods that ask for the info.
-/

namespace Kryptokrona

open Coroutine

/-- The first occurrence of a letter splits a word in one way. -/
theorem split_at_first {a : Char} {x y z w : List Char} (hx : a ∉ x) (hy : a ∉ y)
    (h : x ++ a :: z = y ++ a :: w) : x = y ∧ z = w := by
  induction x generalizing y with
  | nil =>
      cases y with
      | nil => exact ⟨rfl, (List.cons.inj h).2⟩
      | cons b y =>
          have hhead := (List.cons.inj h).1
          exact absurd (hhead ▸ List.mem_cons_self) hy
  | cons b x ih =>
      cases y with
      | nil =>
          have hhead := (List.cons.inj h).1
          exact absurd (hhead ▸ List.mem_cons_self) hx
      | cons c y =>
          obtain ⟨hhead, htail⟩ := List.cons.inj h
          have hx' : a ∉ x := fun hmem => hx (List.mem_cons_of_mem _ hmem)
          have hy' : a ∉ y := fun hmem => hy (List.mem_cons_of_mem _ hmem)
          obtain ⟨hxy, hzw⟩ := ih hx' hy' htail
          exact ⟨by rw [hhead, hxy], hzw⟩

/-- So does the last. -/
theorem split_at_last {a : Char} {x y z w : List Char} (hz : a ∉ z) (hw : a ∉ w)
    (h : x ++ a :: z = y ++ a :: w) : x = y ∧ z = w := by
  have hreverse := congrArg List.reverse h
  simp only [List.reverse_append, List.reverse_cons, List.append_assoc,
    List.singleton_append] at hreverse
  obtain ⟨hzw, hxy⟩ := split_at_first (by simpa using hz) (by simpa using hw) hreverse
  exact ⟨List.reverse_injective hxy, List.reverse_injective hzw⟩

/-- A number is written with digits and a sign. -/
theorem mem_repr {n : Int} {c : Char} (h : c ∈ n.repr.toList) : c = '-' ∨ c.isDigit = true := by
  have hdigits : ∀ k : Nat, c ∈ k.repr.toList → c.isDigit = true := by
    intro k hk
    rw [Nat.repr_eq_ofList_toDigits, String.toList_ofList] at hk
    exact Nat.isDigit_of_mem_toDigits (by decide) (by decide) hk
  cases n with
  | ofNat k => exact Or.inr (hdigits k h)
  | negSucc k =>
      change c ∈ ("-" ++ (k + 1).repr).toList at h
      rw [String.toList_append, List.mem_append] at h
      rcases h with hsign | hdigit
      · exact Or.inl (List.mem_singleton.mp hsign)
      · exact Or.inr (hdigits (k + 1) hdigit)

theorem slash_notMem_repr (n : Int) : '/' ∉ n.repr.toList := by
  intro h
  rcases mem_repr h with hsign | hdigit
  · cases hsign
  · cases hdigit

theorem colon_notMem_repr (n : Int) : ':' ∉ n.repr.toList := by
  intro h
  rcases mem_repr h with hsign | hdigit
  · cases hsign
  · cases hdigit

/-- The letters of an address. -/
theorem url_toList (node : Node) (path : String) :
    (node.url path).toList = (if node.ssl then "https://".toList else "http://".toList) ++
      ((node.hostName.toList ++ ':' :: node.port.toInt.repr.toList) ++ '/' :: path.toList) := by
  have hport : toString node.port = node.port.toInt.repr := rfl
  unfold Node.url
  by_cases hssl : node.ssl = true
  · rw [if_pos hssl, if_pos hssl]
    simp only [String.toList_append, hport, List.append_assoc]
    rfl
  · rw [if_neg hssl, if_neg hssl]
    simp only [String.toList_append, hport, List.append_assoc]
    rfl

/-- The two schemes part at their fifth letter. -/
theorem scheme_inj {a b : Bool} {x y : List Char}
    (h : (if a then "https://".toList else "http://".toList) ++ x =
      (if b then "https://".toList else "http://".toList) ++ y) : a = b ∧ x = y := by
  cases a with
  | false =>
      cases b with
      | false => exact ⟨rfl, List.append_cancel_left h⟩
      | true => cases h
  | true =>
      cases b with
      | false => cases h
      | true => exact ⟨rfl, List.append_cancel_left h⟩

/-- **Nodes with the same address are the same**, and so are the paths. -/
theorem url_inj {node other : Node} {path otherPath : String}
    (hnode : '/' ∉ node.hostName.toList) (hother : '/' ∉ other.hostName.toList)
    (h : node.url path = other.url otherPath) : node = other ∧ path = otherPath := by
  have hletters := congrArg String.toList h
  rw [url_toList, url_toList] at hletters
  obtain ⟨hssl, hafter⟩ := scheme_inj hletters
  have hauthority : ∀ n : Node, '/' ∉ n.hostName.toList →
      '/' ∉ n.hostName.toList ++ ':' :: n.port.toInt.repr.toList := by
    intro n hn hmem
    rcases List.mem_append.mp hmem with hhost | hport
    · exact hn hhost
    · rcases List.mem_cons.mp hport with hcolon | hdigits
      · cases hcolon
      · exact slash_notMem_repr _ hdigits
  obtain ⟨hbefore, hpath⟩ :=
    split_at_first (hauthority node hnode) (hauthority other hother) hafter
  obtain ⟨hhost, hport⟩ := split_at_last (colon_notMem_repr _) (colon_notMem_repr _) hbefore
  have hport' := Int32.toInt_inj.mp (Int.repr_inj.mp (String.toList_inj.mp hport))
  refine ⟨?_, String.toList_inj.mp hpath⟩
  cases node
  cases other
  cases hssl
  cases String.toList_inj.mp hhost
  cases hport'
  rfl

/-- A method that asks for the info of its node. -/
def ClientMethod.AsksInfo (m : ClientMethod) : Prop :=
  m = .isNodeRunning ∨ m = .data .getNodeInfo

/-- The paths tell the data methods apart. -/
theorem path_inj {m m' : DataMethod} (h : m.endpoint.path = m'.endpoint.path) : m = m' := by
  revert h
  cases m <;> cases m' <;> simp [DataMethod.endpoint]

/-- The path of a method is its own, the two that ask for the info aside. -/
theorem path_eq_iff {m m' : ClientMethod} :
    m.endpoint.path = m'.endpoint.path ↔ m = m' ∨ m.AsksInfo ∧ m'.AsksInfo := by
  have hinfo : ∀ d : DataMethod, d.endpoint.path = "info" ↔ d = .getNodeInfo := by
    intro d
    constructor
    · intro h
      exact @path_inj d .getNodeInfo h
    · intro h
      rw [h]
      rfl
  cases m with
  | isNodeRunning =>
      cases m' with
      | isNodeRunning => simp
      | data d' =>
          have hd := hinfo d'
          change "info" = d'.endpoint.path ↔ _
          rw [@eq_comm String "info", hd]
          simp [ClientMethod.AsksInfo]
  | data d =>
      cases m' with
      | isNodeRunning =>
          have hd := hinfo d
          change d.endpoint.path = "info" ↔ _
          simp [ClientMethod.AsksInfo, hd]
      | data d' =>
          change d.endpoint.path = d'.endpoint.path ↔ _
          constructor
          · intro h
            exact Or.inl (congrArg ClientMethod.data (path_inj h))
          · intro h
            rcases h with hsame | ⟨hd, hd'⟩
            · cases hsame
              rfl
            · simp only [ClientMethod.AsksInfo, ClientMethod.data.injEq, false_or,
                reduceCtorEq] at hd hd'
              rw [hd, hd']

/-- **A request tells its node and its method**, up to the two methods that
ask for the info. -/
theorem request_eq_iff {node other : Node} (hnode : '/' ∉ node.hostName.toList)
    (hother : '/' ∉ other.hostName.toList) (m m' : ClientMethod) :
    m.request node = m'.request other ↔
      node = other ∧ (m = m' ∨ m.AsksInfo ∧ m'.AsksInfo) := by
  rw [← path_eq_iff]
  constructor
  · intro h
    exact url_inj hnode hother (congrArg HttpRequest.url h)
  · intro h
    obtain ⟨hsame, hpath⟩ := h
    unfold ClientMethod.request
    rw [hsame, hpath]

/-- Images agree exactly when their originals do one by one. -/
theorem map_eq_map_iff_forall₂ {α β γ : Type} {f : α → γ} {g : β → γ} {R : α → β → Prop}
    {xs : List α} {ys : List β} (h : ∀ x ∈ xs, ∀ y ∈ ys, f x = g y ↔ R x y) :
    xs.map f = ys.map g ↔ List.Forall₂ R xs ys := by
  induction xs generalizing ys with
  | nil => cases ys <;> simp
  | cons x xs ih =>
      cases ys with
      | nil => simp
      | cons y ys =>
          have hhead := h x List.mem_cons_self y List.mem_cons_self
          have htail := @ih ys fun a ha b hb =>
            h a (List.mem_cons_of_mem _ ha) b (List.mem_cons_of_mem _ hb)
          rw [List.map_cons, List.map_cons, List.cons.injEq, List.forall₂_cons, hhead, htail]

/-- Two calls that look alike on the wire. -/
def ClientCall.Alike (call other : ClientCall) : Prop :=
  call.node = other.node ∧
    (call.method = other.method ∨ call.method.AsksInfo ∧ other.method.AsksInfo)

variable {negotiation negotiation' : ContentNegotiation} {Ref Ref' ι ι' : Type}
  [DecidableEq ι] [DecidableEq ι']

/-- **What callers have sent tells what they have invoked**: two callers, of
one system or of two, have sent the same requests exactly when their calls look
alike one by one, each with the host, the port and the scheme it has read. -/
theorem sentRequests_eq_iff
    (r : SystemRun (httpEnvironment negotiation) (nodeObjects Ref) ι) (i : ι) (k : Nat)
    (r' : SystemRun (httpEnvironment negotiation') (nodeObjects Ref') ι') (i' : ι') (k' : Nat)
    (hhosts : ∀ call ∈ r.invoked i k, '/' ∉ call.node.hostName.toList)
    (hhosts' : ∀ call ∈ r'.invoked i' k', '/' ∉ call.node.hostName.toList) :
    sentRequests ((r.state k).caller i) = sentRequests ((r'.state k').caller i') ↔
      List.Forall₂ ClientCall.Alike (r.invoked i k) (r'.invoked i' k') := by
  have hsent := sentRequests_eq (r.caller i) k
  have hsent' := sentRequests_eq (r'.caller i') k'
  have hcalls := r.calls_eq_invoked i k
  have hcalls' := r'.calls_eq_invoked i' k'
  change sentRequests ((r.state k).caller i) = ((r.state k).caller i).calls.map _ at hsent
  change sentRequests ((r'.state k').caller i') = ((r'.state k').caller i').calls.map _ at hsent'
  rw [hsent, hsent', hcalls, hcalls']
  apply map_eq_map_iff_forall₂
  intro call hcall other hother
  exact request_eq_iff (hhosts call hcall) (hhosts' other hother) call.method other.method

/-- A fee asked for has been asked for once, however far the call is. -/
theorem feeRun_sentRequests_eq :
    sentRequests ((feeRun.state 4).caller true) = sentRequests ((feeRun.state 1).caller true) := by
  have hhosts : ∀ call ∈ [(⟨testNode, .data .getNodeFee⟩ : ClientCall)],
      '/' ∉ call.node.hostName.toList := by decide
  apply (sentRequests_eq_iff feeRun true 4 feeRun true 1 hhosts hhosts).mpr
  exact List.Forall₂.cons ⟨rfl, Or.inl rfl⟩ List.Forall₂.nil

end Kryptokrona
