import Mathlib.Data.List.Forall2

/-!
# Serial descriptors and the documents they describe

A `@Serializable` class declares a tree: properties with serial names, each
an `Int`, a `Long`, a `Boolean`, a `String`, a list, or another class.  The
descriptor of the class is that tree.  It fixes two things at once: the
values the class can hold, where an `Int` has 32 bits and a `Long` 64, and
the JSON documents of its shape, where a number may be as large as it likes.

This file relates the two, with no decoder in sight:

* `Descriptor.hasShape`: every object of the document has exactly the
  declared keys, in any order, and every leaf the declared kind;
* `Descriptor.Reads`: a value holds what the document says;
* `Descriptor.Fits`: every number of the document is in the range of its
  declared type, the numbers under the names in `skip` aside;
* `exists_reads_iff_fits`: a document of the declared shape can be read as
  a value exactly when its numbers fit.

`Serializable` attaches a descriptor to a type.
-/

namespace Serialization

/-- A JSON document.  `number` is an integer literal; a literal with a
fraction or an exponent is a `decimal`. -/
inductive JsonElement
  | null
  | boolean (value : Bool)
  | number (value : Int)
  | decimal (literal : String)
  | string (value : String)
  | array (elements : List JsonElement)
  | object (entries : List (String × JsonElement))
deriving Repr

namespace JsonElement

/-- The value under a key, `null` where there is none. -/
def field (name : String) : JsonElement → JsonElement
  | object entries => (entries.lookup name).getD null
  | _ => null

/-- The elements of an array. -/
def items : JsonElement → List JsonElement
  | array elements => elements
  | _ => []

/-- The value of an integer literal. -/
def toInt : JsonElement → Int
  | number value => value
  | _ => 0

end JsonElement

mutual

/-- The serial form of a type. -/
inductive Descriptor
  | int
  | long
  | boolean
  | string
  | list (element : Descriptor)
  | record (fields : Fields)

/-- The properties of a class under their serial names, as declared. -/
inductive Fields
  | nil
  | cons (name : String) (type : Descriptor) (rest : Fields)

end

/-- The serial names of a class, as declared. -/
def Fields.names : Fields → List String
  | .nil => []
  | .cons name _ rest => name :: rest.names

mutual

/-- No class of the descriptor uses a serial name twice. -/
def Descriptor.wellFormed : Descriptor → Bool
  | .int => true
  | .long => true
  | .boolean => true
  | .string => true
  | .list element => element.wellFormed
  | .record fields => decide fields.names.Nodup && fields.wellFormed

def Fields.wellFormed : Fields → Bool
  | .nil => true
  | .cons _ type rest => type.wellFormed && rest.wellFormed

end

mutual

/-- The values of the described type. -/
def Descriptor.Value : Descriptor → Type
  | .int => Int32
  | .long => Int64
  | .boolean => Bool
  | .string => String
  | .list element => List element.Value
  | .record fields => fields.Values

def Fields.Values : Fields → Type
  | .nil => Unit
  | .cons _ type rest => type.Value × rest.Values

end

mutual

/-- The document has the declared shape. -/
def Descriptor.hasShape : Descriptor → JsonElement → Bool
  | .int, .number _ => true
  | .long, .number _ => true
  | .boolean, .boolean _ => true
  | .string, .string _ => true
  | .list element, .array elements => elements.all element.hasShape
  | .record fields, .object entries =>
      (entries.map Prod.fst).isPerm fields.names && fields.haveShape (.object entries)
  | _, _ => false

def Fields.haveShape : Fields → JsonElement → Bool
  | .nil, _ => true
  | .cons name type rest, j => type.hasShape (j.field name) && rest.haveShape j

end

mutual

/-- The value holds what the document says. -/
def Descriptor.Reads : (d : Descriptor) → JsonElement → d.Value → Prop
  | .int => fun j (v : Int32) => j = .number v.toInt
  | .long => fun j (v : Int64) => j = .number v.toInt
  | .boolean => fun j (v : Bool) => j = .boolean v
  | .string => fun j (v : String) => j = .string v
  | .list element => fun j vs =>
      ∃ elements, j = .array elements ∧ List.Forall₂ element.Reads elements vs
  | .record fields => fun j vs =>
      (∃ entries, j = .object entries ∧ (entries.map Prod.fst).Perm fields.names) ∧
        fields.Read j vs

def Fields.Read : (fs : Fields) → JsonElement → fs.Values → Prop
  | .nil => fun _ _ => True
  | .cons name type rest => fun j v => type.Reads (j.field name) v.1 ∧ rest.Read j v.2

end

/-- The number is an `Int`. -/
def FitsInt (n : Int) : Prop := -2147483648 ≤ n ∧ n ≤ 2147483647

/-- The number is a `Long`. -/
def FitsLong (n : Int) : Prop :=
  -9223372036854775808 ≤ n ∧ n ≤ 9223372036854775807

mutual

/-- Every number is in the range of its declared type; what stands under a
name in `skip` is not looked at. -/
def Descriptor.Fits (skip : String → Bool) : Descriptor → JsonElement → Prop
  | .int, j => FitsInt j.toInt
  | .long, j => FitsLong j.toInt
  | .boolean, _ => True
  | .string, _ => True
  | .list element, j => ∀ x ∈ j.items, element.Fits skip x
  | .record fields, j => fields.Fit skip j

def Fields.Fit (skip : String → Bool) : Fields → JsonElement → Prop
  | .nil, _ => True
  | .cons name type rest, j =>
      (skip name = false → type.Fits skip (j.field name)) ∧ rest.Fit skip j

end

/-- Every number is in the range of its declared type. -/
abbrev Descriptor.FitsAll : Descriptor → JsonElement → Prop := Descriptor.Fits fun _ => false

instance : DecidablePred FitsInt := fun _ => inferInstanceAs (Decidable (_ ∧ _))

instance : DecidablePred FitsLong := fun _ => inferInstanceAs (Decidable (_ ∧ _))

mutual

def Descriptor.decideFits (skip : String → Bool) :
    (d : Descriptor) → (j : JsonElement) → Decidable (d.Fits skip j)
  | .int, j => inferInstanceAs (Decidable (FitsInt j.toInt))
  | .long, j => inferInstanceAs (Decidable (FitsLong j.toInt))
  | .boolean, _ => .isTrue trivial
  | .string, _ => .isTrue trivial
  | .list element, j =>
      have : DecidablePred (element.Fits skip) := element.decideFits skip
      inferInstanceAs (Decidable (∀ x ∈ j.items, element.Fits skip x))
  | .record fields, j => fields.decideFit skip j

def Fields.decideFit (skip : String → Bool) :
    (fs : Fields) → (j : JsonElement) → Decidable (fs.Fit skip j)
  | .nil, _ => .isTrue trivial
  | .cons name type rest, j =>
      have := type.decideFits skip (j.field name)
      have := rest.decideFit skip j
      inferInstanceAs
        (Decidable ((skip name = false → type.Fits skip (j.field name)) ∧ rest.Fit skip j))

end

instance (skip : String → Bool) (d : Descriptor) (j : JsonElement) :
    Decidable (d.Fits skip j) :=
  d.decideFits skip j

theorem hasShape_int {j : JsonElement} :
    Descriptor.int.hasShape j = true ↔ ∃ n, j = .number n := by
  cases j <;> simp [Descriptor.hasShape]

theorem hasShape_long {j : JsonElement} :
    Descriptor.long.hasShape j = true ↔ ∃ n, j = .number n := by
  cases j <;> simp [Descriptor.hasShape]

theorem hasShape_boolean {j : JsonElement} :
    Descriptor.boolean.hasShape j = true ↔ ∃ b, j = .boolean b := by
  cases j <;> simp [Descriptor.hasShape]

theorem hasShape_string {j : JsonElement} :
    Descriptor.string.hasShape j = true ↔ ∃ s, j = .string s := by
  cases j <;> simp [Descriptor.hasShape]

theorem hasShape_list {element : Descriptor} {j : JsonElement} :
    (Descriptor.list element).hasShape j = true ↔
      ∃ elements, j = .array elements ∧ ∀ x ∈ elements, element.hasShape x = true := by
  cases j <;> simp [Descriptor.hasShape]

theorem hasShape_record {fields : Fields} {j : JsonElement} :
    (Descriptor.record fields).hasShape j = true ↔
      (∃ entries, j = .object entries ∧ (entries.map Prod.fst).Perm fields.names) ∧
        fields.haveShape j = true := by
  cases j <;> simp [Descriptor.hasShape, List.isPerm_iff]

/-- A document of a declared shape states something. -/
theorem ne_null_of_hasShape {d : Descriptor} {j : JsonElement} (h : d.hasShape j = true) :
    j ≠ .null := by
  intro hnull
  rw [hnull] at h
  cases d <;> simp [Descriptor.hasShape] at h

theorem reads_array {element : Descriptor} {elements : List JsonElement}
    {vs : List element.Value} :
    (Descriptor.list element).Reads (.array elements) vs ↔
      List.Forall₂ element.Reads elements vs := by
  constructor
  · intro hlist
    obtain ⟨_, helements, h⟩ := hlist
    cases helements
    exact h
  · intro h
    exact ⟨elements, rfl, h⟩

/-- What an `Int` reads off the document. -/
theorem toInt_of_reads {j : JsonElement} {v : Int32} (h : Descriptor.int.Reads j v) :
    j.toInt = v.toInt := by
  have hnumber : j = .number v.toInt := h
  rw [hnumber]
  rfl

/-- What is read alike off every element is read alike off the list. -/
theorem items_map_of_reads {β : Type} {element : Descriptor} {j : JsonElement}
    {vs : List element.Value} {f : JsonElement → β} {g : element.Value → β}
    (h : (Descriptor.list element).Reads j vs)
    (hfg : ∀ x v, element.Reads x v → f x = g v) : j.items.map f = vs.map g := by
  obtain ⟨elements, hj, hreads⟩ := h
  rw [hj, JsonElement.items]
  clear hj
  induction hreads with
  | nil => rfl
  | cons hhead _ ih => rw [List.map_cons, List.map_cons, hfg _ _ hhead, ih]

theorem FitsInt.toInt_ofInt {n : Int} (h : FitsInt n) : (Int32.ofInt n).toInt = n := by
  obtain ⟨hlow, hhigh⟩ := h
  exact Int32.toInt_ofInt_of_le (by omega) (by omega)

/-- The integers an `Int` holds. -/
theorem exists_int32_iff (n : Int) : (∃ v : Int32, v.toInt = n) ↔ FitsInt n := by
  constructor
  · intro hheld
    obtain ⟨v, hv⟩ := hheld
    have hlow := v.le_toInt
    have hhigh := v.toInt_lt
    unfold FitsInt
    omega
  · intro hrange
    exact ⟨Int32.ofInt n, hrange.toInt_ofInt⟩

theorem FitsLong.toInt_ofInt {n : Int} (h : FitsLong n) : (Int64.ofInt n).toInt = n := by
  obtain ⟨hlow, hhigh⟩ := h
  exact Int64.toInt_ofInt_of_le (by omega) (by omega)

/-- The integers a `Long` holds. -/
theorem exists_int64_iff (n : Int) : (∃ v : Int64, v.toInt = n) ↔ FitsLong n := by
  constructor
  · intro hheld
    obtain ⟨v, hv⟩ := hheld
    have hlow := v.le_toInt
    have hhigh := v.toInt_lt
    unfold FitsLong
    omega
  · intro hrange
    exact ⟨Int64.ofInt n, hrange.toInt_ofInt⟩

/-- Pointwise existence collects into a list. -/
theorem exists_forall₂_iff {α β : Type} {R : α → β → Prop} {xs : List α} :
    (∃ ys, List.Forall₂ R xs ys) ↔ ∀ x ∈ xs, ∃ y, R x y := by
  induction xs with
  | nil => simp
  | cons x xs ih =>
      constructor
      · intro hall
        obtain ⟨_, h⟩ := hall
        obtain ⟨y, ys, hy, hys, rfl⟩ := List.forall₂_cons_left_iff.mp h
        exact List.forall_mem_cons.mpr ⟨⟨y, hy⟩, ih.mp ⟨ys, hys⟩⟩
      · intro h
        obtain ⟨⟨y, hy⟩, hxs⟩ := List.forall_mem_cons.mp h
        obtain ⟨ys, hys⟩ := ih.mpr hxs
        exact ⟨y :: ys, List.Forall₂.cons hy hys⟩

mutual

/-- **A document of the declared shape is read by a value exactly when each
of its numbers fits the type declared for it.** -/
theorem exists_reads_iff_fits : ∀ (d : Descriptor) (j : JsonElement),
    d.hasShape j = true → ((∃ v, d.Reads j v) ↔ d.FitsAll j)
  | .int, j, h => by
      obtain ⟨n, rfl⟩ := hasShape_int.mp h
      change (∃ v : Int32, JsonElement.number n = .number v.toInt) ↔ FitsInt n
      simpa [eq_comm] using exists_int32_iff n
  | .long, j, h => by
      obtain ⟨n, rfl⟩ := hasShape_long.mp h
      change (∃ v : Int64, JsonElement.number n = .number v.toInt) ↔ FitsLong n
      simpa [eq_comm] using exists_int64_iff n
  | .boolean, j, h => by
      obtain ⟨b, rfl⟩ := hasShape_boolean.mp h
      exact iff_of_true ⟨b, rfl⟩ trivial
  | .string, j, h => by
      obtain ⟨s, rfl⟩ := hasShape_string.mp h
      exact iff_of_true ⟨s, rfl⟩ trivial
  | .list element, j, h => by
      obtain ⟨elements, rfl, helements⟩ := hasShape_list.mp h
      have hpoint : ∀ x ∈ elements, ((∃ v, element.Reads x v) ↔ element.FitsAll x) :=
        fun x hx => exists_reads_iff_fits element x (helements x hx)
      calc (∃ vs, (Descriptor.list element).Reads (.array elements) vs)
          ↔ ∃ vs, List.Forall₂ element.Reads elements vs := exists_congr fun _ => reads_array
        _ ↔ ∀ x ∈ elements, ∃ v, element.Reads x v := exists_forall₂_iff
        _ ↔ ∀ x ∈ elements, element.FitsAll x := forall₂_congr hpoint
        _ ↔ (Descriptor.list element).FitsAll (.array elements) := by
          simp [Descriptor.Fits, JsonElement.items]
  | .record fields, j, h => by
      obtain ⟨hkeys, hfields⟩ := hasShape_record.mp h
      calc (∃ vs, (Descriptor.record fields).Reads j vs)
          ↔ ∃ vs, fields.Read j vs := exists_congr fun _ => and_iff_right hkeys
        _ ↔ (Descriptor.record fields).FitsAll j := exists_read_iff_fit fields j hfields

theorem exists_read_iff_fit : ∀ (fs : Fields) (j : JsonElement),
    fs.haveShape j = true → ((∃ vs, fs.Read j vs) ↔ fs.Fit (fun _ => false) j)
  | .nil, j, _ => iff_of_true ⟨(), trivial⟩ trivial
  | .cons name type rest, j, h => by
      rw [Fields.haveShape, Bool.and_eq_true] at h
      have hhead := exists_reads_iff_fits type (j.field name) h.1
      have htail := exists_read_iff_fit rest j h.2
      rw [Fields.Fit, ← htail]
      constructor
      · intro hread
        obtain ⟨⟨v, vs⟩, hv, hvs⟩ := hread
        exact ⟨fun _ => hhead.mp ⟨v, hv⟩, vs, hvs⟩
      · intro hfit
        obtain ⟨hfits, vs, hvs⟩ := hfit
        obtain ⟨v, hv⟩ := hhead.mpr (hfits rfl)
        exact ⟨(v, vs), hv, hvs⟩

end

/-- A `@Serializable` class: its descriptor, and the constructor call that
builds an instance from the values of its properties.  That no serial name
is used twice is checked where the class is declared. -/
class Serializable (α : Type) where
  descriptor : Descriptor
  ofValue : descriptor.Value → α
  wellFormed : descriptor.wellFormed = true := by exact Eq.refl true

/-- The way back: the values of the properties of an instance. -/
class SerialForm (α : Type) [Serializable α] where
  toValue : α → (Serializable.descriptor α).Value
  ofValue_toValue : ∀ a, Serializable.ofValue (toValue a) = a := by exact fun _ => Eq.refl _
  toValue_ofValue : ∀ v, toValue (Serializable.ofValue v) = v := by exact fun _ => Eq.refl _

namespace SerialForm

variable {α : Type} [Serializable α] [SerialForm α]

theorem map_ofValue_toValue (xs : List α) :
    (xs.map toValue).map Serializable.ofValue = xs := by
  rw [List.map_map]
  exact List.map_id'' ofValue_toValue xs

theorem map_toValue_ofValue (vs : List (Serializable.descriptor α).Value) :
    (vs.map Serializable.ofValue).map (@toValue α _ _) = vs := by
  rw [List.map_map]
  exact List.map_id'' toValue_ofValue vs

end SerialForm

end Serialization
