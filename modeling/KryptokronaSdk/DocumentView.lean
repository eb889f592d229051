import KryptokronaSdk.JsonFormat

/-!
# Views of a document

A view of a `@Serializable` class is a part of its data that can be read in
two places: off the document and off the instance decoded from it.  The part
takes the numbers under certain serial names, and fits the class when these
numbers are in the range of their declared types.

`View.decodes_iff` is the use of a view: the decoder hands on the part the
document holds exactly when this part fits and the other numbers do.
-/

namespace Serialization

open Serializable

/-- A part of the data of a class that takes the numbers under the serial
names in `names`. -/
structure View (names : String → Bool) (α : Type) [Serializable α] (A : Type) where
  document : JsonElement → A
  response : α → A
  Fit : A → Prop
  agree : ∀ {j : JsonElement} {v : (descriptor α).Value},
    (descriptor α).Reads j v → document j = response (ofValue v)
  fitsAll_iff : ∀ j : JsonElement,
    (descriptor α).FitsAll j ↔ Fit (document j) ∧ (descriptor α).Fits names j

namespace View

variable {names : String → Bool} {α : Type} [Serializable α] {A : Type}

/-- A list of instances has the parts a list of documents has. -/
theorem items_agree (view : View names α A) {j : JsonElement} {vs : List (descriptor α).Value}
    (h : (Descriptor.list (descriptor α)).Reads j vs) :
    j.items.map view.document = (vs.map ofValue).map view.response := by
  rw [List.map_map]
  exact items_map_of_reads h fun _ _ hx => view.agree hx

variable {ε : Type} {F : JsonFormat ε}

/-- What a decoded instance has for its part is what the document has. -/
theorem response_of_decode (view : View names α A) (hF : F.Lawful) {j : JsonElement}
    (hshape : (descriptor α).hasShape j = true) {v : (descriptor α).Value}
    (hv : F.decode (descriptor α) j = .ok v) :
    view.response (ofValue v) = view.document j := by
  have hreads := (decode_eq_ok_iff_reads hF (descriptor α) j wellFormed hshape v).mp hv
  exact (view.agree hreads).symm

/-- **A document is decoded exactly when the part and the other numbers
fit.** -/
theorem decodes_iff (view : View names α A) (hF : F.Lawful) {j : JsonElement}
    (hshape : (descriptor α).hasShape j = true) :
    (∃ v, F.decode (descriptor α) j = .ok v) ↔
      view.Fit (view.document j) ∧ (descriptor α).Fits names j :=
  (decodes_iff_fits hF wellFormed hshape).trans (view.fitsAll_iff j)

end View

end Serialization
