import ShapeCodec.Proofs.Buildable
/-! Values of a shape. A value is positional, so what fits an object depends on the schema: the
fields of a record belong to the properties of its type in order. -/
namespace ShapeCodec

/-- The value may stand at a position of the shape. -/
inductive Fits (s : Schema) : Shape → Value → Prop
  | int {n} : Fits s .int (.int n)
  | string {text} : Fits s .string (.str text)
  | noString : Fits s .string .null
  | noObject {name} : Fits s (.object name true) .null
  | noList {element} : Fits s (.list element true) .null
  | record {name nullable decl fields} : s.type? name = some decl →
      List.Forall₂ (fun p field => Fits s p.effectiveShape field) decl.properties fields →
      Fits s (.object name nullable) (.record name fields)
  | list {element nullable items} : (∀ item ∈ items, Fits s element item) →
      Fits s (.list element nullable) (.list items)

mutual

/-- The strings that occur in a value. -/
def Value.strings : Value → List String
  | .str text => [text]
  | .record _ fields => stringsOfList fields
  | .list items => stringsOfList items
  | _ => []

def Value.stringsOfList : List Value → List String
  | [] => []
  | value :: rest => value.strings ++ stringsOfList rest

end

/-- No string of the value holds a quote, which would end it early for a reader. -/
def Value.Quoteless (value : Value) : Prop :=
  ∀ text ∈ value.strings, '"' ∉ text.toList

namespace Value

theorem mem_stringsOfList {values : List Value} {text : String} :
    text ∈ stringsOfList values ↔ ∃ value ∈ values, text ∈ value.strings := by
  induction values with
  | nil => simp [stringsOfList]
  | cons value rest ih => simp [stringsOfList, ih]

theorem forall_strings_record {P : String → Prop} {type : String} {fields : List Value} :
    (∀ text ∈ (record type fields).strings, P text) ↔
      ∀ field ∈ fields, ∀ text ∈ field.strings, P text := by
  simp only [strings, mem_stringsOfList]
  grind

theorem forall_strings_list {P : String → Prop} {items : List Value} :
    (∀ text ∈ (list items).strings, P text) ↔ ∀ item ∈ items, ∀ text ∈ item.strings, P text := by
  simp only [strings, mem_stringsOfList]
  grind

theorem quoteless_null : Quoteless .null := by
  simp [Quoteless, strings]

theorem quoteless_int (n : Int64) : Quoteless (.int n) := by
  simp [Quoteless, strings]

theorem quoteless_str (text : String) : Quoteless (.str text) ↔ '"' ∉ text.toList := by
  simp [Quoteless, strings]

theorem quoteless_record (type : String) (fields : List Value) :
    Quoteless (.record type fields) ↔ ∀ field ∈ fields, Quoteless field :=
  forall_strings_record

theorem quoteless_list (items : List Value) :
    Quoteless (.list items) ↔ ∀ item ∈ items, Quoteless item :=
  forall_strings_list

end Value

variable {s : Schema} {direction : Direction} {shape : Shape} {v : Value}

theorem fits_null (h : Buildable s direction shape) (hnullable : shape.isNullable = true) :
    Fits s shape .null := by
  cases shape with
  | int => simp [Shape.isNullable] at hnullable
  | string => exact .noString
  | object name nullable =>
    obtain rfl : nullable = true := hnullable
    exact .noObject
  | list element nullable =>
    obtain rfl : nullable = true := hnullable
    exact .noList
  | unsupported text => exact h.not_unsupported.elim

/-- A default fits its shape. -/
theorem fits_of_defaultWithin {levels : Nat} {visiting : List String}
    (hbuildable : Buildable s direction shape)
    (h : s.defaultWithin levels visiting shape = .ok v) : Fits s shape v ∧ v.Quoteless := by
  induction levels using Nat.strongRecOn generalizing visiting shape v with
  | ind levels ih =>
    cases hnullable : shape.isNullable with
    | true =>
      rw [Schema.defaultWithin_nullable hnullable] at h
      cases h
      exact ⟨fits_null hbuildable hnullable, Value.quoteless_null⟩
    | false =>
      rcases Shape.of_not_nullable hnullable with rfl | ⟨element, rfl⟩ | ⟨name, rfl⟩
      · rw [Schema.defaultWithin_int] at h
        cases h
        exact ⟨.int, Value.quoteless_int 0⟩
      · rw [Schema.defaultWithin_list] at h
        cases h
        exact ⟨.list (by simp), (Value.quoteless_list []).2 (by simp)⟩
      · obtain ⟨decl, below, fields, hdecl, -, rfl, rfl, hfields⟩ := Schema.defaultWithin_object h
        have hproperties : ∀ p ∈ decl.properties, Buildable s direction p.effectiveShape :=
          fun p hp => hbuildable.property (Schema.properties_of_type? hdecl ▸ hp)
        have hfit := ((List.forall₂_and_left _ _).2 ⟨hproperties, hfields⟩).imp
          fun p field hfield => ih below (by omega) hfield.1 hfield.2
        exact ⟨.record hdecl (hfit.imp fun _ _ h => h.1),
          (Value.quoteless_record name fields).2 (forall_mem_of_forall₂ hfit fun _ _ h => h.2)⟩

/-- What blank input reads as fits its shape. -/
theorem fits_blankValue (h : Buildable s .deserialize shape) :
    Fits s shape (Generation.Progress.blankValue s shape) ∧
      (Generation.Progress.blankValue s shape).Quoteless := by
  unfold Generation.Progress.blankValue
  cases hdefault : s.defaultValue shape with
  | ok value => exact fits_of_defaultWithin h hdefault
  | error e =>
    -- only a non-null object can be without a default, and then it has a fault
    cases hnullable : shape.isNullable with
    | true => exact ⟨fits_null h hnullable, Value.quoteless_null⟩
    | false =>
      rcases Shape.of_not_nullable hnullable with rfl | ⟨element, rfl⟩ | ⟨name, rfl⟩
      · simp [Schema.defaultValue, Schema.defaultWithin_int] at hdefault
      · simp [Schema.defaultValue, Schema.defaultWithin_list] at hdefault
      · obtain ⟨fields, hfields⟩ := h.default
        simp [hfields] at hdefault

end ShapeCodec
