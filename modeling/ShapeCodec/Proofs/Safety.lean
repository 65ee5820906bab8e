import ShapeCodec.Proofs.Calls
import ShapeCodec.Proofs.Checked.Read
import ShapeCodec.Proofs.Checked.Write
import ShapeCodec.Proofs.EntryPoint
/-! Generated codecs are safe to run. Behind an entry point every check is passed, whatever the text
or the value: calls find their routines, values and slots are there, texts are cut between
characters and brackets are not closed before they are opened. What is left to go wrong is the
text in one direction and the value in the other, and the answer says so. -/
namespace ShapeCodec

/-- The bytes of a text are those that the string is stored as. -/
theorem Text.toByteArray_eq (text : List Char) :
    (String.ofList text).toByteArray = (bytes text).toByteArray := by
  rw [String.toByteArray_ofList]
  rfl

/-- Places between characters are the valid positions of a string, its ends included. -/
theorem Text.Boundary.isValid {text : String} {offset : Nat}
    (h : Text.Boundary text.toList offset) : (⟨offset⟩ : String.Pos.Raw).IsValid text := by
  obtain ⟨before, after, htext, rfl⟩ := h
  rw [String.Pos.Raw.isValid_iff_exists_append]
  refine ⟨String.ofList before, String.ofList after, ?_, ?_⟩
  · rw [← String.ofList_append, ← htext, String.ofList_toList]
  · rw [String.rawEndPos, String.utf8ByteSize, Text.toByteArray_eq, List.size_toByteArray,
      Text.length_bytes]

namespace Codec

/-- Reading through a routine passes all checks, from every place in every text, and goes forwards.
The answer is a value, or an error that points at a place in the text. -/
structure ReadsSafely (c : Codec) (shape : Shape) (i : RoutineId) : Prop where
  run : ∀ text levels, Checked.Mirrors text id (Checked.readWithin text c.machine levels i)
    (c.machine.readWithin levels i)
  answer : ∀ text, (∃ v, c.deserialize shape text = .ok v) ∨
    ∃ error, c.deserialize shape text = .error (.parse error) ∧
      (⟨error.offset⟩ : String.Pos.Raw).IsValid text

/-- Writing through a routine passes all checks, whatever the value. The answer is a text, or an
error that is said against the value, and not because something was missing at a source. -/
structure WritesSafely (c : Codec) (shape : Shape) (i : RoutineId) : Prop where
  run : ∀ levels v, Checked.writeWithin c.machine levels i v =
    Checked.report (c.machine.writeWithin levels i v)
  answer : ∀ v, (∃ text, c.serialize shape v = .ok text) ∨
    ∃ e, c.serialize shape v = .error e ∧
      ((∃ expected found, e = .mismatch expected found) ∨ e = .depthLimit maxDepth) ∧
      ∀ source argument item, ValueSource.find argument item source ≠ .error e

/-- A routine is safe to run in its direction. -/
def RunsSafely (c : Codec) (shape : Shape) (i : RoutineId) : Direction → Prop
  | .serialize => c.WritesSafely shape i
  | .deserialize => c.ReadsSafely shape i

end Codec

namespace Generation

variable {s : Schema} {options : Options} {shape : Shape} {entry : Entry} {i : RoutineId}

theorem mirrors_of_entryPoint
    (h : (ofSchema s options).codec.entryPoint shape .deserialize = .ok (entry, i))
    (text : List Char) (levels : Nat) : Checked.Mirrors text id
      (Checked.readWithin text (ofSchema s options).codec.machine levels i)
      ((ofSchema s options).codec.machine.readWithin levels i) := by
  rcases of_entryPoint h with hat | ⟨r, hr, hbody⟩
  · rw [ofSchema_eq]
    exact Checked.mirrors_readWithin (sound_called s).faithful _ levels hat
  · unfold Checked.readWithin Machine.readWithin
    simp only [hr, hbody]
    exact Checked.mirrors_readInert

theorem report_of_entryPoint
    (h : (ofSchema s options).codec.entryPoint shape .serialize = .ok (entry, i))
    (levels : Nat) (v : Value) :
    Checked.writeWithin (ofSchema s options).codec.machine levels i v =
      Checked.report ((ofSchema s options).codec.machine.writeWithin levels i v) := by
  rcases of_entryPoint h with hat | ⟨r, hr, hbody⟩
  · rw [ofSchema_eq]
    exact Checked.writeWithin_eq (sound_called s).faithful _ levels hat v
  · unfold Checked.writeWithin Machine.writeWithin
    simp only [hr, hbody, Checked.report_pure]

/-- An error points at a place in the text: the run that it ends has stayed inside. -/
theorem isValid_of_deserialize
    (h : (ofSchema s options).codec.entryPoint shape .deserialize = .ok (entry, i))
    {text : String} {e : CodecError}
    (herror : (ofSchema s options).codec.deserialize shape text = .error e) :
    ∃ error, e = .parse error ∧ (⟨error.offset⟩ : String.Pos.Raw).IsValid text := by
  obtain ⟨error, c, rfl, hrun⟩ := parse_of_deserialize h herror
  have hstart : (Cursor.ofText text).In text.toList := ⟨[], rfl, rfl⟩
  have hagrees := mirrors_of_entryPoint h text.toList maxDepth _ hstart
  rw [Machine.read] at hrun
  rw [hrun] at hagrees
  generalize Checked.readWithin _ _ _ _ _ = checked at hagrees
  cases hagrees with
  | error hin hle hboundary => exact ⟨error, rfl, (hboundary error rfl).isValid⟩

/-- Every entry point is safe to go through. -/
theorem runsSafely_of_entryPoint {direction : Direction}
    (h : (ofSchema s options).codec.entryPoint shape direction = .ok (entry, i)) :
    (ofSchema s options).codec.RunsSafely shape i direction := by
  cases direction with
  | serialize =>
    refine ⟨report_of_entryPoint h, fun v => ?_⟩
    cases hanswer : (ofSchema s options).codec.serialize shape v with
    | ok text => exact .inl ⟨text, rfl⟩
    | error e =>
      have hrefusal := refusal_of_serialize h hanswer
      exact .inr ⟨e, rfl, hrefusal.mismatch_or_depthLimit, hrefusal.find_ne⟩
  | deserialize =>
    refine ⟨mirrors_of_entryPoint h, fun text => ?_⟩
    cases hanswer : (ofSchema s options).codec.deserialize shape text with
    | ok v => exact .inl ⟨v, rfl⟩
    | error e =>
      obtain ⟨error, rfl, hvalid⟩ := isValid_of_deserialize h hanswer
      exact .inr ⟨error, rfl, hvalid⟩

/-- The entry of a person. Blank input reads as one of age zero about whom nothing else is known. -/
def personEntry : Entry :=
  ⟨some ⟨0⟩, some ⟨3⟩, .record "Person" [.null, .int 0, .null, .list []]⟩

theorem runsSafely_of_entryPoint_family :
    (ofSchema .family ⟨true⟩).codec.entryPoint (.object "Person" false) .deserialize =
        .ok (personEntry, ⟨3⟩) ∧
      (ofSchema .family ⟨true⟩).codec.RunsSafely (.object "Person" false) ⟨3⟩ .deserialize :=
  have hentry : (ofSchema .family ⟨true⟩).codec.entryPoint (.object "Person" false) .deserialize =
      .ok (personEntry, ⟨3⟩) := by decide +kernel
  ⟨hentry, runsSafely_of_entryPoint hentry⟩

end Generation

end ShapeCodec
