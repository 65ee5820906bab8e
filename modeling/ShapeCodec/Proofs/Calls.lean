import ShapeCodec.Proofs.Buildable
import ShapeCodec.Proofs.Direct.Reader
import ShapeCodec.Proofs.Direct.Writer
import ShapeCodec.Proofs.Generation
/-! Call sites of a generated codec. Whatever was generated before and after the routine of a call
site, it writes and reads what the schema alone says. -/
namespace ShapeCodec

namespace Direct

/-- The text of a value, straight from the schema. -/
def serialize (s : Schema) (shape : Shape) (v : Value) : Except CodecError String :=
  match write s maxDepth shape v "" with
  | .ok _ text => .ok text
  | .error e _ => .error e

/-- The value of a text, straight from the schema. -/
def deserialize (s : Schema) (shape : Shape) (text : String) : Except CodecError Value :=
  if Codec.isBlankText text then .ok (Generation.Progress.blankValue s shape)
  else match read s maxDepth shape (.ofText text) with
    | .ok v _ => .ok v
    | .error e _ => .error e

end Direct

namespace Schema

/-- A type that refers to itself, with properties of every kind. -/
def person : Declaration :=
  ⟨"Person", [⟨"name", .string, true, true⟩, ⟨"age", .int, false, true⟩,
    ⟨"mother", .object "Person" true, true, true⟩, ⟨"pets", .list .string true, false, true⟩]⟩

theorem person_valid : person.Valid := by decide +kernel

/-- A schema of that type alone, with call sites in both directions. -/
def family : Schema where
  types := [person]
  calls := [⟨.serialize, .object "Person" false⟩, ⟨.deserialize, .object "Person" false⟩]
  valid := by simpa using person_valid
  nodup := by simp

end Schema

namespace Generation

variable {s : Schema} {shape : Shape} {direction : Direction} (options : Options)

theorem serialize_of_call (hcall : ⟨.serialize, shape⟩ ∈ s.calls)
    (href : s.checkReferences shape = .ok ()) (v : Value) :
    (ofSchema s options).codec.serialize shape v = Direct.serialize s shape v := by
  obtain ⟨table, more, entry, id, htable, hfaithful, -, hentry, -, hat⟩ :=
    entryPoint_of_call options hcall href
  have hwrite : (ofSchema s options).codec.machine.write id v =
      Direct.write s maxDepth shape v := by
    rw [Codec.machine, htable, Machine.write,
      Direct.writeWithin_eq hfaithful more maxDepth id shape hat]
  cases hresult : Direct.write s maxDepth shape v "" <;>
    simp only [Codec.serialize, hentry, bind, Except.bind, Codec.runWrite, hwrite,
      Direct.serialize, hresult]

theorem deserialize_of_call (hcall : ⟨.deserialize, shape⟩ ∈ s.calls)
    (href : s.checkReferences shape = .ok ()) (text : String) :
    (ofSchema s options).codec.deserialize shape text = Direct.deserialize s shape text := by
  obtain ⟨table, more, entry, id, htable, hfaithful, -, hentry, hblank, hat⟩ :=
    entryPoint_of_call options hcall href
  have hread : (ofSchema s options).codec.machine.read id = Direct.read s maxDepth shape := by
    rw [Codec.machine, htable, Machine.read,
      Direct.readWithin_eq hfaithful more maxDepth id shape hat]
  cases hresult : Direct.read s maxDepth shape (.ofText text) <;>
    simp only [Codec.deserialize, hentry, bind, Except.bind, pure, Except.pure, Codec.runRead,
      hread, hblank, Direct.deserialize, hresult]

/-- Without warnings there is code for all that a call site needs. -/
theorem buildable_of_call (hcall : ⟨direction, shape⟩ ∈ s.calls)
    (href : s.checkReferences shape = .ok ())
    (hwarnings : (ofSchema s options).warnings = []) : Buildable s direction shape := by
  obtain ⟨table, more, entry, id, -, hfaithful, hquiet, -, -, hat⟩ :=
    entryPoint_of_call options hcall href
  exact buildable_of_at hfaithful (hquiet hwarnings) hat

theorem serialize_of_error {err : ShapeError} (href : s.checkReferences shape = .error err)
    (v : Value) : (ofSchema s options).codec.serialize shape v =
      .error (.noEntry shape .serialize) := by
  simp [Codec.serialize, entryPoint_of_error options href, bind, Except.bind]

theorem deserialize_of_error {err : ShapeError} (href : s.checkReferences shape = .error err)
    (text : String) : (ofSchema s options).codec.deserialize shape text =
      .error (.noEntry shape .deserialize) := by
  simp [Codec.deserialize, entryPoint_of_error options href, bind, Except.bind]

/-- The generated reader of a call site refines the reader that knows nothing of routines: from
every cursor and with any number of nested calls to go, it gives the same value or the same error
and leaves the cursor at the same place. -/
theorem read_refines (hcall : ⟨.deserialize, shape⟩ ∈ s.calls)
    (href : s.checkReferences shape = .ok ()) :
    ∃ entry id, (ofSchema s options).codec.entryPoint shape .deserialize = .ok (entry, id) ∧
      (∀ levels c, (ofSchema s options).codec.machine.readWithin levels id c =
        Direct.read s levels shape c) ∧
      ∀ text, (ofSchema s options).codec.deserialize shape text =
        Direct.deserialize s shape text := by
  obtain ⟨table, more, entry, id, htable, hfaithful, -, hentry, -, hat⟩ :=
    entryPoint_of_call options hcall href
  refine ⟨entry, id, hentry, fun levels c => ?_, deserialize_of_call options hcall href⟩
  rw [Codec.machine, htable, Direct.readWithin_eq hfaithful more levels id shape hat]

theorem read_refines_family : ∃ entry id,
    (ofSchema .family ⟨true⟩).codec.entryPoint (.object "Person" false) .deserialize =
      .ok (entry, id) ∧
      (∀ levels c, (ofSchema .family ⟨true⟩).codec.machine.readWithin levels id c =
        Direct.read .family levels (.object "Person" false) c) ∧
      ∀ text, (ofSchema .family ⟨true⟩).codec.deserialize (.object "Person" false) text =
        Direct.deserialize .family (.object "Person" false) text :=
  read_refines ⟨true⟩ (by simp [Schema.family]) (by decide +kernel)

end Generation

end ShapeCodec
