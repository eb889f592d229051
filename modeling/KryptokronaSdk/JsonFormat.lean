import KryptokronaSdk.SerialDescriptor

/-!
# Decoding a document against a descriptor

The decoder itself is library code.  It is a parameter here, a `JsonFormat`:
for each descriptor a function from documents to values that may fail.
`JsonFormat.Lawful` lists what it is known to do, one node of the document
at a time: a number under an `Int` is decoded when it is one, a list when
each element is, an object with exactly the declared keys when each
property is.  What it does with a document of another shape, and what
errors it reports, is left open.

* `decode_eq_ok_iff_reads`: on documents of the declared shape a lawful
  decoder returns the value that reads the document, and nothing else;
* `decodes_iff_fits`: it succeeds exactly when the numbers fit;
* `strictJson` is an executable lawful decoder.
-/

namespace Serialization

/-- A decoder for every descriptor. -/
structure JsonFormat (ε : Type) where
  decode : (d : Descriptor) → JsonElement → Except ε d.Value

variable {ε : Type}

/-- `R` relates the value under each serial name to the property of that
name. -/
def Fields.Forall (R : (d : Descriptor) → JsonElement → d.Value → Prop) :
    (fs : Fields) → JsonElement → fs.Values → Prop
  | .nil => fun _ _ => True
  | .cons name type rest => fun j vs => R type (j.field name) vs.1 ∧ rest.Forall R j vs.2

/-- What the decoder does at each kind of node. -/
structure JsonFormat.Lawful (F : JsonFormat ε) : Prop where
  int : ∀ (n : Int) (v : Int32), F.decode .int (.number n) = .ok v ↔ v.toInt = n
  long : ∀ (n : Int) (v : Int64), F.decode .long (.number n) = .ok v ↔ v.toInt = n
  boolean : ∀ b v : Bool, F.decode .boolean (.boolean b) = .ok v ↔ v = b
  string : ∀ s v : String, F.decode .string (.string s) = .ok v ↔ v = s
  list : ∀ (d : Descriptor) (elements : List JsonElement) (vs : List d.Value),
    F.decode (.list d) (.array elements) = .ok vs ↔
      List.Forall₂ (fun x v => F.decode d x = .ok v) elements vs
  record : ∀ (fs : Fields) (entries : List (String × JsonElement)) (vs : fs.Values),
    fs.names.Nodup → (entries.map Prod.fst).Perm fs.names →
      (F.decode (.record fs) (.object entries) = .ok vs ↔
        fs.Forall (fun d x v => F.decode d x = .ok v) (.object entries) vs)

/-- Pointwise equivalent relations relate the same lists. -/
theorem forall₂_iff_of_mem {α β : Type} {R S : α → β → Prop} {xs : List α} {ys : List β}
    (h : ∀ x ∈ xs, ∀ y, R x y ↔ S x y) : List.Forall₂ R xs ys ↔ List.Forall₂ S xs ys := by
  induction xs generalizing ys with
  | nil => simp
  | cons x xs ih =>
      obtain ⟨hx, hxs⟩ := List.forall_mem_cons.mp h
      cases ys with
      | nil => simp
      | cons y ys => rw [List.forall₂_cons, List.forall₂_cons, hx y, ih hxs]

variable {F : JsonFormat ε}

mutual

/-- **On documents of the declared shape a lawful decoder returns the value
that reads the document.** -/
theorem decode_eq_ok_iff_reads (hF : F.Lawful) : ∀ (d : Descriptor) (j : JsonElement),
    d.wellFormed = true → d.hasShape j = true →
      ∀ v, F.decode d j = .ok v ↔ d.Reads j v
  | .int, j, _, h, v => by
      obtain ⟨n, rfl⟩ := hasShape_int.mp h
      refine (hF.int n v).trans ⟨fun hv => ?_, fun hv => ?_⟩
      · exact congrArg JsonElement.number hv.symm
      · exact (JsonElement.number.inj hv).symm
  | .long, j, _, h, v => by
      obtain ⟨n, rfl⟩ := hasShape_long.mp h
      refine (hF.long n v).trans ⟨fun hv => ?_, fun hv => ?_⟩
      · exact congrArg JsonElement.number hv.symm
      · exact (JsonElement.number.inj hv).symm
  | .boolean, j, _, h, v => by
      obtain ⟨b, rfl⟩ := hasShape_boolean.mp h
      refine (hF.boolean b v).trans ⟨fun hv => ?_, fun hv => ?_⟩
      · exact congrArg JsonElement.boolean hv.symm
      · exact (JsonElement.boolean.inj hv).symm
  | .string, j, _, h, v => by
      obtain ⟨s, rfl⟩ := hasShape_string.mp h
      refine (hF.string s v).trans ⟨fun hv => ?_, fun hv => ?_⟩
      · exact congrArg JsonElement.string hv.symm
      · exact (JsonElement.string.inj hv).symm
  | .list element, j, hwf, h, vs => by
      obtain ⟨elements, rfl, helements⟩ := hasShape_list.mp h
      rw [Descriptor.wellFormed] at hwf
      have hpoint : ∀ x ∈ elements, ∀ v, F.decode element x = .ok v ↔ element.Reads x v := by
        intro x hx
        exact decode_eq_ok_iff_reads hF element x hwf (helements x hx)
      calc F.decode (.list element) (.array elements) = .ok vs
          ↔ List.Forall₂ (fun x v => F.decode element x = .ok v) elements vs :=
            hF.list element elements vs
        _ ↔ List.Forall₂ element.Reads elements vs := forall₂_iff_of_mem hpoint
        _ ↔ (Descriptor.list element).Reads (.array elements) vs := reads_array.symm
  | .record fields, j, hwf, h, vs => by
      obtain ⟨⟨entries, rfl, hperm⟩, hfields⟩ := hasShape_record.mp h
      rw [Descriptor.wellFormed, Bool.and_eq_true, decide_eq_true_iff] at hwf
      calc F.decode (.record fields) (.object entries) = .ok vs
          ↔ fields.Forall (fun d x v => F.decode d x = .ok v) (.object entries) vs :=
            hF.record fields entries vs hwf.1 hperm
        _ ↔ fields.Read (.object entries) vs :=
            decoded_iff_read hF fields _ hwf.2 hfields vs
        _ ↔ (Descriptor.record fields).Reads (.object entries) vs :=
            (and_iff_right ⟨entries, rfl, hperm⟩).symm

theorem decoded_iff_read (hF : F.Lawful) : ∀ (fs : Fields) (j : JsonElement),
    fs.wellFormed = true → fs.haveShape j = true →
      ∀ vs, fs.Forall (fun d x v => F.decode d x = .ok v) j vs ↔ fs.Read j vs
  | .nil, _, _, _, _ => Iff.rfl
  | .cons name type rest, j, hwf, h, vs => by
      rw [Fields.wellFormed, Bool.and_eq_true] at hwf
      rw [Fields.haveShape, Bool.and_eq_true] at h
      have hhead := decode_eq_ok_iff_reads hF type (j.field name) hwf.1 h.1 vs.1
      have htail := decoded_iff_read hF rest j hwf.2 h.2 vs.2
      exact and_congr hhead htail

end

/-- **A document of the declared shape is decoded exactly when its numbers
fit the declared types.** -/
theorem decodes_iff_fits (hF : F.Lawful) {d : Descriptor} {j : JsonElement}
    (hwf : d.wellFormed = true) (h : d.hasShape j = true) :
    (∃ v, F.decode d j = .ok v) ↔ d.FitsAll j :=
  (exists_congr (decode_eq_ok_iff_reads hF d j hwf h)).trans (exists_reads_iff_fits d j h)

/-- Both values, or the first failure. -/
def bothOk {α β : Type} (x : Except ε α) (y : Except ε β) : Except ε (α × β) :=
  x.bind fun a => y.map fun b => (a, b)

theorem bothOk_eq_ok_iff {α β : Type} {x : Except ε α} {y : Except ε β} {a : α} {b : β} :
    bothOk x y = .ok (a, b) ↔ x = .ok a ∧ y = .ok b := by
  cases x <;> cases y <;> simp [bothOk, Except.bind, Except.map]

mutual

/-- The decoder that takes documents of the declared shape and no others. -/
def strictDecode (failure : String → ε) : (d : Descriptor) → JsonElement → Except ε d.Value
  | .int => fun j => show Except ε Int32 from
      match j with
      | .number n =>
          if FitsInt n then .ok (Int32.ofInt n) else .error (failure "Int overflow")
      | _ => .error (failure "Int expected")
  | .long => fun j => show Except ε Int64 from
      match j with
      | .number n =>
          if FitsLong n then .ok (Int64.ofInt n) else .error (failure "Long overflow")
      | _ => .error (failure "Long expected")
  | .boolean => fun j => show Except ε Bool from
      match j with
      | .boolean b => .ok b
      | _ => .error (failure "Boolean expected")
  | .string => fun j => show Except ε String from
      match j with
      | .string s => .ok s
      | _ => .error (failure "String expected")
  | .list element => fun j => show Except ε (List element.Value) from
      match j with
      | .array elements => elements.mapM (strictDecode failure element)
      | _ => .error (failure "List expected")
  | .record fields => fun j =>
      match j with
      | .object entries =>
          if (entries.map Prod.fst).isPerm fields.names then
            strictDecodeFields failure fields (.object entries)
          else .error (failure "Missing field or unknown key")
      | _ => .error (failure "Object expected")

def strictDecodeFields (failure : String → ε) :
    (fs : Fields) → JsonElement → Except ε fs.Values
  | .nil => fun _ => .ok ()
  | .cons name type rest => fun j =>
      bothOk (strictDecode failure type (j.field name)) (strictDecodeFields failure rest j)

end

def strictJson (failure : String → ε) : JsonFormat ε := ⟨strictDecode failure⟩

/-- A list is mapped without failure exactly when each element is. -/
theorem mapM_eq_ok_iff {α β : Type} {f : α → Except ε β} {xs : List α} {ys : List β} :
    xs.mapM f = .ok ys ↔ List.Forall₂ (fun x y => f x = .ok y) xs ys := by
  induction xs generalizing ys with
  | nil => cases ys <;> simp [pure, Except.pure]
  | cons x xs ih =>
      rw [List.mapM_cons, List.forall₂_cons_left_iff]
      simp only [← ih]
      cases f x <;> cases xs.mapM f <;> simp [bind, Except.bind, pure, Except.pure, eq_comm]

theorem strictDecodeFields_eq_ok_iff (failure : String → ε) :
    ∀ (fs : Fields) (j : JsonElement) (vs : fs.Values),
      strictDecodeFields failure fs j = .ok vs ↔
        fs.Forall (fun d x v => strictDecode failure d x = .ok v) j vs
  | .nil, _, () => iff_of_true rfl trivial
  | .cons _ _ rest, j, (_, vs) =>
      bothOk_eq_ok_iff.trans
        (and_congr_right' (strictDecodeFields_eq_ok_iff failure rest j vs))

/-- A range check that converts is the conversion of a number in range. -/
theorem ite_ok_eq_ok_iff {α : Type} {n : Int} {p : Prop} [Decidable p] {a v : α} {e : ε}
    {toInt : α → Int} (hof : p → toInt a = n) (hrange : toInt v = n → p)
    (hinj : ∀ v, toInt v = toInt a → v = a) :
    (if p then Except.ok a else .error e) = .ok v ↔ toInt v = n := by
  by_cases h : p
  · rw [if_pos h, Except.ok.injEq, ← hof h]
    exact ⟨fun hav => hav ▸ rfl, fun hav => (hinj v hav).symm⟩
  · rw [if_neg h]
    exact iff_of_false (by simp) fun hv => h (hrange hv)

/-- **The strict decoder is lawful.** -/
theorem strictJson_lawful (failure : String → ε) : (strictJson failure).Lawful where
  int n v := ite_ok_eq_ok_iff
    (fun h => FitsInt.toInt_ofInt h)
    (fun h => (exists_int32_iff n).mp ⟨v, h⟩)
    (fun _ h => Int32.toInt_inj.mp h)
  long n v := ite_ok_eq_ok_iff
    (fun h => FitsLong.toInt_ofInt h)
    (fun h => (exists_int64_iff n).mp ⟨v, h⟩)
    (fun _ h => Int64.toInt_inj.mp h)
  boolean b v := by
    change (Except.ok b : Except ε Bool) = .ok v ↔ v = b
    rw [Except.ok.injEq, eq_comm]
  string s v := by
    change (Except.ok s : Except ε String) = .ok v ↔ v = s
    rw [Except.ok.injEq, eq_comm]
  list _ _ _ := mapM_eq_ok_iff
  record fs entries vs _ hperm := by
    have hkeys : strictDecode failure (.record fs) (.object entries) =
        strictDecodeFields failure fs (.object entries) :=
      if_pos (List.isPerm_iff.mpr hperm)
    exact (Eq.congr_left hkeys).trans (strictDecodeFields_eq_ok_iff failure fs _ vs)

end Serialization
