import KryptokronaSdk.JsonFormat

/-!
# The document of a value

An encoder writes a value as a document: each property of an object under its
serial name, in the declared order.  A reader takes the properties in any
order, so a value has many documents, of which this one is *canonical*.

* `reads_document`: the document of a value is read by that value;
* `reads_iff_canonical`: a document is read by a value exactly when it has the
  declared shape and its canonical form is the document of the value;
* `hasKeys_of_decode`: a decoder that knows no other keys accepts a document
  only if every object in it has the declared ones.

For a class, `documentOf` writes its instances, and a document `States` an
instance when it is read by the values of its properties.
-/

namespace Serialization

mutual

/-- The document of a value. -/
def Descriptor.document : (d : Descriptor) → d.Value → JsonElement
  | .int => fun (v : Int32) => .number v.toInt
  | .long => fun (v : Int64) => .number v.toInt
  | .boolean => fun (v : Bool) => .boolean v
  | .string => fun (v : String) => .string v
  | .list element => fun (vs : List element.Value) => .array (vs.map element.document)
  | .record fields => fun vs => .object (fields.entries vs)

def Fields.entries : (fs : Fields) → fs.Values → List (String × JsonElement)
  | .nil => fun _ => []
  | .cons name type rest => fun vs => (name, type.document vs.1) :: rest.entries vs.2

end

mutual

/-- The document with the keys of its objects in the declared order. -/
def Descriptor.canonical : Descriptor → JsonElement → JsonElement
  | .int, j => j
  | .long, j => j
  | .boolean, j => j
  | .string, j => j
  | .list element, j => .array (j.items.map element.canonical)
  | .record fields, j => .object (fields.canonicalEntries j)

def Fields.canonicalEntries : Fields → JsonElement → List (String × JsonElement)
  | .nil, _ => []
  | .cons name type rest, j =>
      (name, type.canonical (j.field name)) :: rest.canonicalEntries j

end

theorem entries_names : ∀ (fs : Fields) (vs : fs.Values),
    (fs.entries vs).map Prod.fst = fs.names
  | .nil, _ => rfl
  | .cons name _ rest, vs => congrArg (List.cons name) (entries_names rest vs.2)

theorem field_cons_self (name : String) (x : JsonElement)
    (entries : List (String × JsonElement)) :
    (JsonElement.object ((name, x) :: entries)).field name = x := by
  simp [JsonElement.field]

theorem field_cons_of_ne {name other : String} (h : other ≠ name) (x : JsonElement)
    (entries : List (String × JsonElement)) :
    (JsonElement.object ((name, x) :: entries)).field other =
      (JsonElement.object entries).field other := by
  have hother : (other == name) = false := beq_eq_false_iff_ne.mpr h
  simp [JsonElement.field, List.lookup_cons, hother]

/-- Only the values under the declared keys matter. -/
theorem read_congr : ∀ (fs : Fields) {i j : JsonElement} {vs : fs.Values},
    (∀ name ∈ fs.names, i.field name = j.field name) → fs.Read i vs → fs.Read j vs
  | .nil, _, _, _, _, _ => trivial
  | .cons name type rest, i, j, vs, h, hread => by
      obtain ⟨hname, hnames⟩ := List.forall_mem_cons.mp h
      obtain ⟨hhead, htail⟩ := hread
      rw [hname] at hhead
      exact ⟨hhead, read_congr rest hnames htail⟩

mutual

/-- **The document of a value is read by that value.** -/
theorem reads_document : ∀ (d : Descriptor) (v : d.Value), d.wellFormed = true →
    d.Reads (d.document v) v
  | .int, _, _ => rfl
  | .long, _, _ => rfl
  | .boolean, _, _ => rfl
  | .string, _, _ => rfl
  | .list element, vs, hwf => by
      rw [Descriptor.wellFormed] at hwf
      refine ⟨_, rfl, ?_⟩
      apply List.forall₂_map_left_iff.mpr
      apply List.forall₂_same.mpr
      intro v _
      exact reads_document element v hwf
  | .record fields, vs, hwf => by
      rw [Descriptor.wellFormed, Bool.and_eq_true, decide_eq_true_iff] at hwf
      have hkeys := List.Perm.of_eq (entries_names fields vs)
      exact ⟨⟨_, rfl, hkeys⟩, read_entries fields vs hwf.1 hwf.2⟩

theorem read_entries : ∀ (fs : Fields) (vs : fs.Values), fs.names.Nodup →
    fs.wellFormed = true → fs.Read (.object (fs.entries vs)) vs
  | .nil, _, _, _ => trivial
  | .cons name type rest, vs, hnodup, hwf => by
      rw [Fields.wellFormed, Bool.and_eq_true] at hwf
      obtain ⟨hname, hrest⟩ := List.nodup_cons.mp hnodup
      have hhead := reads_document type vs.1 hwf.1
      have htail := read_entries rest vs.2 hrest hwf.2
      constructor
      · rw [Fields.entries, field_cons_self]
        exact hhead
      · apply read_congr rest _ htail
        intro other hother
        have hne : other ≠ name := fun h => hname (h ▸ hother)
        exact (field_cons_of_ne hne _ _).symm

end

/-- The elements of a list are read one by one exactly when they have the
shape and their canonical forms are those documents. -/
theorem forall₂_iff_map_eq {α β γ : Type} {R : α → β → Prop} {P : α → Prop} {f : α → γ}
    {g : β → γ} (h : ∀ x y, R x y ↔ P x ∧ f x = g y) {xs : List α} {ys : List β} :
    List.Forall₂ R xs ys ↔ (∀ x ∈ xs, P x) ∧ xs.map f = ys.map g := by
  induction xs generalizing ys with
  | nil => cases ys <;> simp
  | cons x xs ih =>
      cases ys with
      | nil => simp
      | cons y ys =>
          rw [List.forall₂_cons, h, ih, List.forall_mem_cons, List.map_cons, List.map_cons,
            List.cons.injEq]
          tauto

mutual

/-- **A document is read by a value exactly when it has the declared shape
and its canonical form is the document of the value.** -/
theorem reads_iff_canonical : ∀ (d : Descriptor) (j : JsonElement) (v : d.Value),
    d.Reads j v ↔ d.hasShape j = true ∧ d.canonical j = d.document v
  | .int, j, v => by
      rw [hasShape_int]
      exact ⟨fun h => ⟨⟨_, h⟩, h⟩, fun h => h.2⟩
  | .long, j, v => by
      rw [hasShape_long]
      exact ⟨fun h => ⟨⟨_, h⟩, h⟩, fun h => h.2⟩
  | .boolean, j, v => by
      rw [hasShape_boolean]
      exact ⟨fun h => ⟨⟨_, h⟩, h⟩, fun h => h.2⟩
  | .string, j, v => by
      rw [hasShape_string]
      exact ⟨fun h => ⟨⟨_, h⟩, h⟩, fun h => h.2⟩
  | .list element, j, vs => by
      have hpoint := @forall₂_iff_map_eq _ _ _ _ _ _ _ (reads_iff_canonical element)
      rw [hasShape_list]
      constructor
      · intro hlist
        obtain ⟨elements, hj, hreads⟩ := hlist
        obtain ⟨hshape, hcanonical⟩ := hpoint.mp hreads
        rw [hj]
        exact ⟨⟨elements, rfl, hshape⟩, congrArg JsonElement.array hcanonical⟩
      · intro hlist
        obtain ⟨⟨elements, hj, hshape⟩, hcanonical⟩ := hlist
        rw [hj] at hcanonical
        exact ⟨elements, hj, hpoint.mpr ⟨hshape, JsonElement.array.inj hcanonical⟩⟩
  | .record fields, j, vs => by
      have hfields := read_iff_canonical fields j vs
      rw [hasShape_record]
      constructor
      · intro hrecord
        obtain ⟨hkeys, hread⟩ := hrecord
        obtain ⟨hshape, hcanonical⟩ := hfields.mp hread
        exact ⟨⟨hkeys, hshape⟩, congrArg JsonElement.object hcanonical⟩
      · intro hrecord
        obtain ⟨⟨hkeys, hshape⟩, hcanonical⟩ := hrecord
        exact ⟨hkeys, hfields.mpr ⟨hshape, JsonElement.object.inj hcanonical⟩⟩

theorem read_iff_canonical : ∀ (fs : Fields) (j : JsonElement) (vs : fs.Values),
    fs.Read j vs ↔ fs.haveShape j = true ∧ fs.canonicalEntries j = fs.entries vs
  | .nil, _, _ => iff_of_true trivial ⟨rfl, rfl⟩
  | .cons name type rest, j, (v, vs) => by
      have hhead := reads_iff_canonical type (j.field name) v
      have htail := read_iff_canonical rest j vs
      rw [Fields.haveShape, Fields.canonicalEntries, Bool.and_eq_true]
      change type.Reads (j.field name) v ∧ rest.Read j vs ↔
        _ ∧ _ = (name, type.document v) :: rest.entries vs
      rw [hhead, htail, List.cons.injEq, Prod.mk.injEq]
      tauto

end

variable {ε : Type} {F : JsonFormat ε}

/-- What reads a document is what a lawful decoder makes of it. -/
theorem decode_of_reads (hF : F.Lawful) {d : Descriptor} {j : JsonElement} {v : d.Value}
    (hwf : d.wellFormed = true) (h : d.Reads j v) : F.decode d j = .ok v := by
  have hshape := ((reads_iff_canonical d j v).mp h).1
  exact (decode_eq_ok_iff_reads hF d j hwf hshape v).mpr h

/-- The keys of an object. -/
def JsonElement.keys : JsonElement → List String
  | .object entries => entries.map Prod.fst
  | _ => []

mutual

/-- No object of the document that the decoder comes to repeats a key. -/
def Descriptor.UniqueKeys : Descriptor → JsonElement → Prop
  | .int, _ => True
  | .long, _ => True
  | .boolean, _ => True
  | .string, _ => True
  | .list element, j => ∀ x ∈ j.items, element.UniqueKeys x
  | .record fields, j => j.keys.Nodup ∧ fields.HaveUniqueKeys j

def Fields.HaveUniqueKeys : Fields → JsonElement → Prop
  | .nil, _ => True
  | .cons name type rest, j => type.UniqueKeys (j.field name) ∧ rest.HaveUniqueKeys j

end

mutual

/-- Every list of the document is an array and every object has the declared
keys.  The leaves may be anything. -/
def Descriptor.HasKeys : Descriptor → JsonElement → Prop
  | .int, _ => True
  | .long, _ => True
  | .boolean, _ => True
  | .string, _ => True
  | .list element, j => (∃ elements, j = .array elements) ∧ ∀ x ∈ j.items, element.HasKeys x
  | .record fields, j =>
      (∃ entries, j = .object entries ∧ (entries.map Prod.fst).Perm fields.names) ∧
        fields.HaveKeys j

def Fields.HaveKeys : Fields → JsonElement → Prop
  | .nil, _ => True
  | .cons name type rest, j => type.HasKeys (j.field name) ∧ rest.HaveKeys j

end

/-- The decoder knows the declared keys and no others, and misses those it
does not find. -/
structure JsonFormat.StrictKeys (F : JsonFormat ε) : Prop where
  list : ∀ (d : Descriptor) (j : JsonElement) (vs : List d.Value),
    F.decode (.list d) j = .ok vs → ∃ elements, j = .array elements
  record : ∀ (fs : Fields) (j : JsonElement) (vs : fs.Values),
    F.decode (.record fs) j = .ok vs →
      ∃ entries, j = .object entries ∧ ∀ name, name ∈ j.keys ↔ name ∈ fs.names

mutual

/-- **A decoder that knows no other keys accepts a document only if every
object in it has the declared ones.** -/
theorem hasKeys_of_decode (hF : F.Lawful) (hstrict : F.StrictKeys) :
    ∀ (d : Descriptor) (j : JsonElement) (v : d.Value), d.wellFormed = true →
      d.UniqueKeys j → F.decode d j = .ok v → d.HasKeys j
  | .int, _, _, _, _, _ => trivial
  | .long, _, _, _, _, _ => trivial
  | .boolean, _, _, _, _, _ => trivial
  | .string, _, _, _, _, _ => trivial
  | .list element, j, vs, hwf, hunique, h => by
      obtain ⟨elements, hj⟩ := hstrict.list element j vs h
      rw [Descriptor.wellFormed] at hwf
      rw [hj] at h hunique ⊢
      have helements := (hF.list element elements vs).mp h
      refine ⟨⟨elements, rfl⟩, ?_⟩
      intro x hx
      obtain ⟨v, hv⟩ := exists_forall₂_iff.mp ⟨vs, helements⟩ x hx
      exact hasKeys_of_decode hF hstrict element x v hwf (hunique x hx) hv
  | .record fields, j, vs, hwf, hunique, h => by
      obtain ⟨entries, hj, hkeys⟩ := hstrict.record fields j vs h
      rw [Descriptor.wellFormed, Bool.and_eq_true, decide_eq_true_iff] at hwf
      rw [hj] at h hunique hkeys ⊢
      have hperm : (entries.map Prod.fst).Perm fields.names :=
        (List.perm_ext_iff_of_nodup hunique.1 hwf.1).mpr hkeys
      have hfields := (hF.record fields entries vs hwf.1 hperm).mp h
      have hnested := haveKeys_of_decoded hF hstrict fields _ vs hwf.2 hunique.2 hfields
      exact ⟨⟨entries, rfl, hperm⟩, hnested⟩

theorem haveKeys_of_decoded (hF : F.Lawful) (hstrict : F.StrictKeys) :
    ∀ (fs : Fields) (j : JsonElement) (vs : fs.Values), fs.wellFormed = true →
      fs.HaveUniqueKeys j → fs.Forall (fun d x v => F.decode d x = .ok v) j vs → fs.HaveKeys j
  | .nil, _, _, _, _, _ => trivial
  | .cons name type rest, j, vs, hwf, hunique, h => by
      rw [Fields.wellFormed, Bool.and_eq_true] at hwf
      have hhead := hasKeys_of_decode hF hstrict type (j.field name) vs.1 hwf.1 hunique.1 h.1
      have htail := haveKeys_of_decoded hF hstrict rest j vs.2 hwf.2 hunique.2 h.2
      exact ⟨hhead, htail⟩

end

/-- The strict decoder knows no other keys. -/
theorem strictJson_strictKeys (failure : String → ε) : (strictJson failure).StrictKeys where
  list d j vs h := by
    cases j with
    | array elements => exact ⟨elements, rfl⟩
    | _ => cases h
  record fs j vs h := by
    cases j with
    | object entries =>
        refine ⟨entries, rfl, ?_⟩
        intro name
        by_cases hperm : (entries.map Prod.fst).isPerm fs.names = true
        · exact (List.isPerm_iff.mp hperm).mem_iff
        · have hkeys : strictDecode failure (.record fs) (.object entries) =
              .error (failure "Missing field or unknown key") := if_neg hperm
          cases hkeys.symm.trans h
    | _ => cases h

section Instances

variable {α : Type} [Serializable α] [SerialForm α]

open Serializable SerialForm

/-- The document of an instance of a class. -/
def documentOf (a : α) : JsonElement := (descriptor α).document (toValue a)

/-- The document states the properties of the instance, in any order of its
keys. -/
def States (j : JsonElement) (a : α) : Prop := (descriptor α).Reads j (toValue a)

theorem states_iff_canonical {j : JsonElement} {a : α} :
    States j a ↔ (descriptor α).hasShape j = true ∧ (descriptor α).canonical j = documentOf a :=
  reads_iff_canonical (descriptor α) j (toValue a)

/-- What a value reads, the instance built from it is stated by. -/
theorem states_ofValue_iff {j : JsonElement} {v : (descriptor α).Value} :
    States j (ofValue v : α) ↔ (descriptor α).Reads j v := by
  unfold States
  rw [toValue_ofValue]

/-- A document of the declared shape states an instance exactly when its
numbers fit. -/
theorem exists_states_iff {j : JsonElement} (hshape : (descriptor α).hasShape j = true) :
    (∃ a : α, States j a) ↔ (descriptor α).FitsAll j := by
  rw [← exists_reads_iff_fits (descriptor α) j hshape]
  constructor
  · intro hstated
    obtain ⟨a, ha⟩ := hstated
    exact ⟨toValue a, ha⟩
  · intro hread
    obtain ⟨v, hv⟩ := hread
    exact ⟨ofValue v, states_ofValue_iff.mpr hv⟩

/-- An encoder for every descriptor. -/
structure JsonWriter where
  write : (d : Descriptor) → d.Value → JsonElement

/-- What an encoder writes is read by the value written. -/
def JsonWriter.Lawful (W : JsonWriter) : Prop :=
  ∀ (d : Descriptor) (v : d.Value), d.wellFormed = true → d.Reads (W.write d v) v

/-- The encoder that keeps the declared order. -/
def declaredOrder : JsonWriter := ⟨Descriptor.document⟩

theorem declaredOrder_lawful : declaredOrder.Lawful := reads_document

end Instances

end Serialization
