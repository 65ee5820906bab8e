import ShapeCodec.Proofs.RoundTrip
import ShapeCodec.Typed.Records
/-! Typed values in both directions. Types are built from integers, strings and records by lists and
options. A value of such a type comes back from its positional value, since nothing but an absent
option stands for null; and it comes back from its text, since the text gives back the positional
value. What the schema declares for the records does not matter: a record that does not fit the
declaration has no text. -/
namespace ShapeCodec

namespace HasShape

/-- Types that are built from integers, strings and the records of the catalogue, where no option
stands directly inside another. The flag tells the options from the rest. -/
inductive Built : (optional : Bool) → (α : Type) → [HasShape α] → Prop
  | int : Built false Int64
  | string : Built false String
  | empty : Built false Catalogue.Empty
  | person : Built false Catalogue.Person
  | chapter : Built false Catalogue.Chapter
  | book : Built false Catalogue.Book
  | list {optional α} [HasShape α] : Built optional α → Built false (List α)
  | option {α} [HasShape α] : Built false α → Built true (Option α)

/-- Every element is what its value is taken for. -/
def Recovers (α : Type) [HasShape α] : Prop :=
  ∀ a : α, ofValue (toValue a) = .ok a

section Recovers

variable {α : Type} [HasShape α]

theorem recovers_int : Recovers Int64 :=
  fun _ => rfl

theorem recovers_string : Recovers String :=
  fun _ => rfl

theorem recovers_list (h : Recovers α) : Recovers (List α) := by
  intro items
  have hitems : List.Forall₂ (fun value a => ofValue value = .ok a) (items.map toValue) items := by
    rw [List.forall₂_map_left_iff, List.forall₂_same]
    exact fun a _ => h a
  exact mapM_of_forall₂ hitems

/-- An element that is not written as null cannot be taken for an absent one. -/
theorem recovers_option (hnull : ∀ a : α, toValue a ≠ .null) (h : Recovers α) :
    Recovers (Option α) := by
  intro content
  cases content with
  | none => rfl
  | some a =>
    have hback : (some <$> ofValue (toValue a) : Except CodecError (Option α)) = .ok (some a) := by
      rw [h a]
      rfl
    have ha := hnull a
    change ofValue (α := Option α) (toValue a) = .ok (some a)
    revert hback ha
    cases toValue a with
    | null => exact fun _ hnull => absurd rfl hnull
    | _ => exact fun hback _ => hback

/-- A field that was written is taken off the rest. -/
theorem next_toValue (h : Recovers α) (type : String) (a : α) (rest : List Value) :
    RecordReader.next ⟨type, toValue a :: rest⟩ = .ok a ⟨type, rest⟩ := by
  simp only [RecordReader.next, h a]

end Recovers

section Records

open Catalogue

theorem recovers_text : Recovers (Option String) :=
  recovers_option (fun _ => nofun) recovers_string

theorem recovers_empty : Recovers Catalogue.Empty :=
  fun _ => rfl

theorem recovers_person : Recovers Person := by
  rintro ⟨name, age, county⟩
  change RecordReader.read "Person" _ (.record "Person" [toValue name, toValue age, toValue county]) =
    _
  simp only [RecordReader.read, RecordReader.start, if_true, bind, Except.bind, EStateM.bind,
    next_toValue recovers_text, next_toValue recovers_int, pure, EStateM.pure]

theorem recovers_chapter : Recovers Chapter := by
  rintro ⟨name, pageBegin, pageEnd⟩
  change RecordReader.read "Chapter" _
    (.record "Chapter" [toValue name, toValue pageBegin, toValue pageEnd]) = _
  simp only [RecordReader.read, RecordReader.start, if_true, bind, Except.bind, EStateM.bind,
    next_toValue recovers_text, next_toValue recovers_int, pure, EStateM.pure]

theorem recovers_book : Recovers Book := by
  rintro ⟨title, authors, chapters, totalPageCount, price⟩
  have hauthors : Recovers (Option (List Person)) :=
    recovers_option (fun _ => nofun) (recovers_list recovers_person)
  have hchapters : Recovers (Option (List Chapter)) :=
    recovers_option (fun _ => nofun) (recovers_list recovers_chapter)
  change RecordReader.read "Book" _ (.record "Book" [toValue title, toValue authors,
    toValue chapters, toValue totalPageCount, toValue price]) = _
  simp only [RecordReader.read, RecordReader.start, if_true, bind, Except.bind, EStateM.bind,
    next_toValue recovers_text, next_toValue hauthors, next_toValue hchapters,
    next_toValue recovers_int, pure, EStateM.pure]

end Records

/-- Only options are null for some element, and all elements come back. -/
theorem Built.recovers {optional : Bool} {α : Type} [HasShape α] (h : Built optional α) :
    (optional = false → ∀ a : α, toValue a ≠ .null) ∧ Recovers α := by
  induction h with
  | int => exact ⟨fun _ _ => nofun, recovers_int⟩
  | string => exact ⟨fun _ _ => nofun, recovers_string⟩
  | empty => exact ⟨fun _ _ => nofun, recovers_empty⟩
  | person => exact ⟨fun _ _ => nofun, recovers_person⟩
  | chapter => exact ⟨fun _ _ => nofun, recovers_chapter⟩
  | book => exact ⟨fun _ _ => nofun, recovers_book⟩
  | list _ ih => exact ⟨fun _ _ => nofun, recovers_list ih.2⟩
  | option _ ih => exact ⟨nofun, recovers_option (ih.1 rfl) ih.2⟩

end HasShape

namespace Generation

open HasShape

/-- A typed value that has a text is read back from it, whatever the schema declares for the records
in its type. -/
theorem deserializeAs_serializeAs {s : Schema} (options : Options) {optional : Bool} {α : Type}
    [HasShape α] (hbuilt : Built optional α) (hwrite : ⟨.serialize, shape α⟩ ∈ s.calls)
    (hread : ⟨.deserialize, shape α⟩ ∈ s.calls) (hwarnings : (ofSchema s options).warnings = [])
    {a : α} (hquoteless : ∀ content ∈ (toValue a).strings, '"' ∉ content.toList) {text : String}
    (h : (ofSchema s options).codec.serializeAs a = .ok text) :
    (ofSchema s options).codec.deserializeAs α text = .ok a := by
  rw [Codec.serializeAs] at h
  cases href : s.checkReferences (shape α) with
  | error e =>
    rw [serialize_of_error options href] at h
    cases h
  | ok =>
    rw [serialize_of_call options hwrite href] at h
    have hback := Direct.deserialize_of_serialize (buildable_of_call options hwrite href hwarnings)
      (buildable_of_call options hread href hwarnings) hquoteless h
    rw [Codec.deserializeAs, deserialize_of_call options hread href, hback]
    exact hbuilt.recovers.2 a

/-- A schema for lists of people, some of them unknown. -/
def guests : Schema where
  types := [⟨"Person", [⟨"name", .string, true, true⟩, ⟨"age", .int, false, true⟩,
    ⟨"county", .string, true, true⟩]⟩]
  calls := [⟨.serialize, .list (.object "Person" true) false⟩,
    ⟨.deserialize, .list (.object "Person" true) false⟩]
  valid := by decide +kernel
  nodup := by simp

theorem deserializeAs_serializeAs_guests :
    (ofSchema guests ⟨false⟩).codec.deserializeAs (List (Option Catalogue.Person))
      "[\n\x7b\n\"name\": \"A, null\",\n\"age\": -3,\n\"county\": null\n\x7d,\nnull\n]" =
        .ok [some ⟨some "A, null", -3, none⟩, none] :=
  deserializeAs_serializeAs ⟨false⟩ (.list (.option .person)) (by simp [guests, shape,
    Shape.withNullable]) (by simp [guests, shape, Shape.withNullable]) (by decide +kernel)
    (by decide +kernel) (by decide +kernel)

end Generation

end ShapeCodec
