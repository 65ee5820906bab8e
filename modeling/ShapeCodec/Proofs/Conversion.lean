import ShapeCodec.Proofs.Calls
import ShapeCodec.Proofs.Direct.JsonReading
import ShapeCodec.Proofs.Json.Parsing
import ShapeCodec.Proofs.Unused
/-! Converted documents can be written. A value that came from plain JSON by its shape is accepted by
every routine that it is passed to. Calls are nested one deeper than the JSON, where a null stands
for an object or list; the limits of the parser and of the writer differ by just that one. -/
namespace ShapeCodec

namespace Direct

open Machine (put)

/-- The step does not fail, whatever has been written before. -/
def Succeeds (x : Writing Unit) : Prop :=
  ∀ text, ∃ written, x text = .ok () written

namespace Succeeds

variable {x y : Writing Unit}

theorem put (wire : String) : Succeeds (put wire) :=
  fun text => ⟨text ++ wire, rfl⟩

theorem nothing : Succeeds (pure ()) :=
  fun text => ⟨text, rfl⟩

theorem seq (hx : Succeeds x) (hy : Succeeds y) : Succeeds (do x; y) := by
  intro text
  obtain ⟨mid, hmid⟩ := hx text
  obtain ⟨written, hwritten⟩ := hy mid
  exact ⟨written, by rw [Running.bind_of_ok hmid, hwritten]⟩

end Succeeds

variable {s : Schema} {levels : Nat} {shape element : Shape} {json : Json} {v : Value}
  {write : Shape → Value → Writing Unit} {properties : List Property} {fields : List Value}
  {members : List (String × Json)} {items : List Json} {values : List Value}

/-- Values that come from JSON nested less than `levels` deep are written without failure. -/
def Manages (s : Schema) (levels : Nat) (write : Shape → Value → Writing Unit) : Prop :=
  ∀ json shape v, json.nesting < levels → Value.ofJson s json shape = .ok v →
    Succeeds (write shape v)

theorem writeChild_succeeds (hwrite : Succeeds (write shape v))
    (hv : Value.ofJson s json shape = .ok v) : Succeeds (writeChild write shape v) := by
  cases shape with
  | int =>
    obtain ⟨k, -, -, rfl⟩ := Value.ofJson_int hv
    exact .put _
  | string =>
    rcases Value.ofJson_string hv with ⟨-, rfl⟩ | ⟨text, -, rfl⟩
    · exact .put _
    · exact .put _
  | object name nullable => exact hwrite
  | list element nullable => exact hwrite
  | unsupported text => exact hwrite

/-- A field comes from a member of the object, or from null. -/
theorem exists_json_of_fieldOf {p : Property} {field : Value} (h : Value.FieldOf s members p field)
    (hnesting : Json.nestingOfMembers members < levels) :
    ∃ json, json.nesting < levels ∧ Value.ofJson s json p.effectiveShape = .ok field := by
  rcases h with ⟨json, hlookup, hfield⟩ | ⟨-, hnullable, rfl⟩
  · obtain ⟨before, after, rfl, -⟩ := List.lookup_eq_some_iff.1 hlookup
    have hall := Json.nestingOfMembers_le.1
      (Nat.le_refl (Json.nestingOfMembers (before ++ (p.name, json) :: after)))
    have hmember := hall (p.name, json) (List.mem_append_right before List.mem_cons_self)
    exact ⟨json, Nat.lt_of_le_of_lt hmember hnesting, hfield⟩
  · refine ⟨.null, Nat.zero_lt_of_lt hnesting, ?_⟩
    rw [Value.ofJson, Value.ofMissing, if_pos hnullable]

theorem writeMembers_succeeds (hwrite : Manages s levels write)
    (hnesting : Json.nestingOfMembers members < levels)
    (hfields : List.Forall₂ (Value.FieldOf s members) properties fields) :
    Succeeds (writeMembers write properties fields) := by
  induction hfields with
  | nil => exact .nothing
  | cons hfield hrest ih =>
    obtain ⟨json, hjson, hv⟩ := exists_json_of_fieldOf hfield hnesting
    have hchild := writeChild_succeeds (hwrite json _ _ hjson hv) hv
    exact (Succeeds.put _).seq (hchild.seq ((Succeeds.put _).seq ih))

theorem writeItems_succeeds (hwrite : Manages s levels write)
    (hnesting : Json.nestingOfItems items < levels)
    (hvalues : List.Forall₂ (fun item value => Value.ofJson s item element = .ok value) items
      values) : Succeeds (writeItems write element values) := by
  induction hvalues with
  | nil => exact .nothing
  | cons hv hrest ih =>
    obtain ⟨hitem, hitems⟩ := Nat.max_lt.1 hnesting
    have hchild := writeChild_succeeds (hwrite _ _ _ hitem hv) hv
    exact hchild.seq ((Succeeds.put _).seq (ih hitems))

/-- Converted values pass the check of every routine. -/
theorem accept_of_ofJson (href : s.layoutFault? shape = none)
    (hv : Value.ofJson s json shape = .ok v) : accept s shape v = .ok () := by
  cases shape with
  | int =>
    obtain ⟨k, -, -, rfl⟩ := Value.ofJson_int hv
    rfl
  | string =>
    rcases Value.ofJson_string hv with ⟨-, rfl⟩ | ⟨text, -, rfl⟩
    · rfl
    · rfl
  | list element nullable =>
    rcases Value.ofJson_list hv with ⟨-, rfl, rfl⟩ | ⟨items, values, -, rfl, -⟩
    · rfl
    · rfl
  | object name nullable =>
    rcases Value.ofJson_object hv with ⟨-, rfl, rfl⟩ | ⟨_, decl, fields, -, hdecl, rfl, hfields⟩
    · rfl
    · simp [accept, hdecl, hfields.length_eq]
  | unsupported text => cases href

/-- Below a value that is written on `levels + 1` levels, the JSON is nested one less. -/
theorem writeValue_succeeds (hwrite : Manages s levels write) (href : s.layoutFault? shape = none)
    (hnesting : json.nesting < levels + 1) (hv : Value.ofJson s json shape = .ok v) :
    Succeeds (writeValue s write shape v) := by
  cases shape with
  | int =>
    obtain ⟨k, -, -, rfl⟩ := Value.ofJson_int hv
    exact .put _
  | string =>
    rcases Value.ofJson_string hv with ⟨-, rfl⟩ | ⟨text, -, rfl⟩
    · exact .put _
    · exact .put _
  | list element nullable =>
    rcases Value.ofJson_list hv with ⟨-, -, rfl⟩ | ⟨items, values, rfl, rfl, hvalues⟩
    · exact .put _
    · have hitems := writeItems_succeeds hwrite (Nat.lt_of_succ_lt_succ hnesting) hvalues
      exact (Succeeds.put _).seq (hitems.seq (.put _))
  | object name nullable =>
    rcases Value.ofJson_object hv with ⟨-, -, rfl⟩ | ⟨_, decl, fields, rfl, hdecl, rfl, hfields⟩
    · exact .put _
    · rw [← Schema.properties_of_type? hdecl] at hfields
      have hmembers := writeMembers_succeeds hwrite (Nat.lt_of_succ_lt_succ hnesting) hfields
      exact (Succeeds.put _).seq (hmembers.seq (.put _))
  | unsupported text => cases href

/-- As many levels as the JSON is nested, and one more, are enough. -/
theorem write_manages (s : Schema) (levels : Nat) : Manages s levels (Direct.write s levels) := by
  induction levels with
  | zero => exact fun json shape v hnesting => absurd hnesting (Nat.not_lt_zero _)
  | succ levels ih =>
    intro json shape v hnesting hv
    unfold Direct.write
    cases hfault : s.layoutFault? shape with
    | some e =>
      have hstub : s.routineFault? .serialize shape = some e := by
        simp [Schema.routineFault?, hfault]
      simp only [hstub, Option.isSome_some, if_true]
      exact .nothing
    | none =>
      have hcode : s.routineFault? .serialize shape = none := by
        simp [Schema.routineFault?, hfault]
      simp only [hcode, Option.isSome_none, Bool.false_eq_true, if_false,
        accept_of_ofJson hfault hv]
      exact writeValue_succeeds ih hfault hnesting hv

end Direct

namespace Generation

variable {s : Schema}

/-- Whatever document the parser accepts and the shape turns into a value, a codec that can write
the shape at all writes the value, stubs and all: no routine refuses it, and the calls do not nest
too deeply. -/
theorem serialize_of_ofJson (options : Options) {shape : Shape} {entry : Entry} {id : RoutineId}
    {text : String} {json : Json} {v : Value}
    (hentry : (ofSchema s options).codec.entryPoint shape .serialize = .ok (entry, id))
    (hparse : Json.parse text = .ok json) (hv : Value.ofJson s json shape = .ok v) :
    ∃ written, (ofSchema s options).codec.serialize shape v = .ok written := by
  have hsucceeds : Direct.Succeeds ((ofSchema s options).codec.machine.write id v) := by
    rcases of_entryPoint hentry with hat | ⟨r, hr, hbody⟩
    · have hnesting : json.nesting < maxDepth :=
        Nat.lt_succ_of_le (Json.nesting_of_parse hparse)
      rw [ofSchema_eq, Codec.machine, Machine.write,
        Direct.writeWithin_eq (sound_called s).faithful _ maxDepth id shape hat]
      exact Direct.write_manages s maxDepth json shape v hnesting hv
    · rw [Machine.write, Machine.writeWithin]
      simp only [hr, hbody]
      exact .nothing
  obtain ⟨written, hwritten⟩ := hsucceeds ""
  refine ⟨written, ?_⟩
  simp only [Codec.serialize, hentry, bind, Except.bind, Codec.runWrite, hwritten]

theorem serialize_of_ofJson_family :
    ∃ written, (ofSchema .family ⟨false⟩).codec.serialize (.object "Person" false)
      (.record "Person" [.null, .int 8, .null, .list [.str "\"", .null]]) = .ok written := by
  have hentry : (ofSchema .family ⟨false⟩).codec.entryPoint (.object "Person" false) .serialize =
      .ok (⟨some ⟨0⟩, some ⟨3⟩, .record "Person" [.null, .int 0, .null, .list []]⟩, ⟨0⟩) := by
    decide +kernel
  have hparse : Json.parse "\x7b\"age\": 7, \"age\": 8, \"pets\": [\"\\\"\", null]\x7d" =
      .ok (.object [("age", .number (.integer 8)), ("pets", .array [.string "\"", .null])]) := by
    decide +kernel
  exact serialize_of_ofJson ⟨false⟩ hentry hparse (by decide +kernel)

end Generation

end ShapeCodec
