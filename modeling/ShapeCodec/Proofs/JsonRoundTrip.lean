import ShapeCodec.Proofs.Direct.JsonReading
import ShapeCodec.Proofs.WireJson
/-! Positional values and plain JSON in both directions. A value that fits a shape comes back from
its plain JSON, because the properties of a type have distinct names. The plain JSON of a value that
came from JSON is that JSON, reduced to what the shape asks for. -/
namespace ShapeCodec.Value

variable {s : Schema} {shape element : Shape} {json : Json} {v : Value} {name : String}
  {nullable : Bool} {decl : Declaration} {properties : List Property} {fields items : List Value}
  {members : List (String × Json)}

section Reduction

mutual

/-- The JSON without what the shape does not ask for: every object has the members of the declared
properties in order, those that are missing as null. -/
def reduce (s : Schema) (json : Json) (shape : Shape) : Json :=
  match json, shape with
  | .array items, .list element _ => .array (reduceItems s items element)
  | .object members, .object name _ =>
    let given := reduceMembers s members
    .object ((s.properties name).map fun p =>
      (p.name, ((given.lookup p.name).map (· p.effectiveShape)).getD .null))
  | json, _ => json

def reduceItems (s : Schema) : List Json → Shape → List Json
  | [], _ => []
  | item :: rest, element => reduce s item element :: reduceItems s rest element

/-- Each member as what waits for the shape its property has. -/
def reduceMembers (s : Schema) : List (String × Json) → List (String × (Shape → Json))
  | [] => []
  | (key, json) :: rest => (key, reduce s json) :: reduceMembers s rest

end

theorem lookup_reduceMembers (s : Schema) (members : List (String × Json)) (key : String) :
    (reduceMembers s members).lookup key = (members.lookup key).map (reduce s) := by
  induction members with
  | nil => rfl
  | cons member members ih =>
    obtain ⟨other, json⟩ := member
    rw [reduceMembers, List.lookup_cons, List.lookup_cons]
    split
    · rfl
    · exact ih

/-- A member of an object, or null if there is none of that name. -/
theorem reduce_object (s : Schema) (members : List (String × Json)) (name : String)
    (nullable : Bool) : reduce s (.object members) (.object name nullable) =
      .object ((s.properties name).map fun p =>
        (p.name, ((members.lookup p.name).map (reduce s · p.effectiveShape)).getD .null)) := by
  rw [reduce]
  simp only [lookup_reduceMembers, Option.map_map]
  rfl

theorem reduceItems_eq_map (s : Schema) (items : List Json) (element : Shape) :
    reduceItems s items element = items.map (reduce s · element) := by
  induction items with
  | nil => rfl
  | cons item items ih => rw [reduceItems, ih, List.map_cons]

theorem reduce_null (s : Schema) (shape : Shape) : reduce s .null shape = .null := by
  cases shape <;> rfl

end Reduction

section Back

/-- The value is what its plain JSON stands for. -/
def ComesBack (s : Schema) (shape : Shape) (v : Value) : Prop :=
  ofJson s (v.toJson s) shape = .ok v

theorem comesBack_null (h : shape.isNullable = true) : ComesBack s shape .null := by
  rw [ComesBack, toJson, ofJson, ofMissing, if_pos h]

theorem inRange_toInt (n : Int64) : Scan.inRange n.toInt = true :=
  (Consumes.inRange_iff _).2 ⟨n.le_toInt, by have := n.toInt_lt; omega⟩

theorem comesBack_int (n : Int64) : ComesBack s .int (.int n) := by
  rw [ComesBack, toJson, ofJson, ofNumber, if_pos (inRange_toInt n), Int64.ofInt_toInt]

theorem comesBack_list (h : ∀ item ∈ items, ComesBack s element item) :
    ComesBack s (.list element nullable) (.list items) := by
  have hitems : ofItems s (toJsonItems s items) element = .ok items := by
    induction items with
    | nil => rfl
    | cons item items ih =>
      obtain ⟨hitem, hitems⟩ := List.forall_mem_cons.1 h
      rw [ComesBack] at hitem
      rw [toJsonItems, ofItems, hitem, ih hitems]
      rfl
  rw [ComesBack, toJson, ofJson, hitems]
  rfl

/-- Among members with distinct names, each is found by its own. -/
theorem lookup_zipWith (hnodup : (properties.map Property.name).Nodup)
    (h : List.Forall₂ (fun p field => ComesBack s p.effectiveShape field) properties fields) :
    List.Forall₂ (fun p field => ComesBack s p.effectiveShape field ∧
      (List.zipWith (fun p field => (p.name, field.toJson s)) properties fields).lookup p.name =
        some (field.toJson s)) properties fields := by
  induction h with
  | nil => exact .nil
  | @cons p field properties fields hfield hfields ih =>
    rw [List.map_cons, List.nodup_cons] at hnodup
    refine .cons ⟨hfield, by rw [List.zipWith_cons_cons, List.lookup_cons_self]⟩ ?_
    have hlater := (List.forall₂_and_left (p := (· ∈ properties)) _ _).2
      ⟨fun _ => id, ih hnodup.2⟩
    refine hlater.imp fun q other ⟨hq, hback, hlookup⟩ => ⟨hback, ?_⟩
    have hname : (q.name == p.name) = false := by
      rw [beq_eq_false_iff_ne]
      exact fun heq => hnodup.1 (heq ▸ List.mem_map_of_mem hq)
    rw [List.zipWith_cons_cons, List.lookup_cons, hname]
    exact hlookup

theorem comesBack_record (hdecl : s.type? name = some decl)
    (h : List.Forall₂ (fun p field => ComesBack s p.effectiveShape field) decl.properties fields) :
    ComesBack s (.object name nullable) (.record name fields) := by
  have hnodup := (s.valid decl (List.mem_of_find?_eq_some hdecl)).nodup
  rw [ComesBack, toJson_record hdecl h.length_eq, ofJson, hdecl]
  simp only [lookup_ofMembers]
  rw [mapM_of_forall₂ ((lookup_zipWith hnodup h).imp fun p field hfield => ?_)]
  · rfl
  · obtain ⟨hback, hlookup⟩ := hfield
    rw [hlookup]
    exact hback

theorem comesBack_of_fits {shape : Shape} {v : Value} (h : Fits s shape v) :
    ComesBack s shape v := by
  cases h with
  | int => exact comesBack_int _
  | string => rfl
  | noString => exact comesBack_null rfl
  | noObject => exact comesBack_null rfl
  | noList => exact comesBack_null rfl
  | record hdecl hfields =>
    exact comesBack_record hdecl
      (forall₂_imp_mem hfields fun p field hmem hfield => comesBack_of_fits hfield)
  | list hitems => exact comesBack_list fun item hmem => comesBack_of_fits (hitems item hmem)
termination_by sizeOf v

end Back

section Forth

/-- The value comes back from its plain JSON, which is what is left of the JSON that it came
from. -/
structure Settles (s : Schema) (json : Json) (shape : Shape) (v : Value) : Prop where
  back : ComesBack s shape v
  reduced : v.toJson s = reduce s json shape

theorem settles_null (h : shape.isNullable = true) : Settles s .null shape .null :=
  ⟨comesBack_null h, (reduce_null s shape).symm⟩

theorem settles_int {k : Int} (h : Scan.inRange k = true) :
    Settles s (.number (.integer k)) .int (.int (Int64.ofInt k)) := by
  refine ⟨comesBack_int _, ?_⟩
  rw [Consumes.inRange_iff] at h
  rw [toJson, Int64.toInt_ofInt_of_le h.1 (by omega)]
  rfl

theorem settles_list {given : List Json}
    (h : List.Forall₂ (fun json item => Settles s json element item) given items) :
    Settles s (.array given) (.list element nullable) (.list items) := by
  refine ⟨comesBack_list (forall_mem_of_forall₂ h fun _ _ hitem => hitem.back), ?_⟩
  have hmap : items.map (toJson s) = given.map (reduce s · element) := by
    rw [← List.forall₂_eq_eq_eq, List.forall₂_map_left_iff, List.forall₂_map_right_iff]
    exact h.flip.imp fun _ _ hitem => hitem.reduced
  rw [toJson, toJsonItems_eq_map, hmap, reduce, reduceItems_eq_map]

/-- A member that is missing settles as null. -/
theorem settles_record (hdecl : s.type? name = some decl)
    (h : List.Forall₂ (fun p field =>
      Settles s ((members.lookup p.name).getD .null) p.effectiveShape field)
      decl.properties fields) :
    Settles s (.object members) (.object name nullable) (.record name fields) := by
  refine ⟨comesBack_record hdecl (h.imp fun _ _ hfield => hfield.back), ?_⟩
  have hmembers : List.zipWith (fun p field => (p.name, field.toJson s)) decl.properties fields =
      decl.properties.map fun p =>
        (p.name, ((members.lookup p.name).map (reduce s · p.effectiveShape)).getD .null) := by
    generalize decl.properties = properties at h
    induction h with
    | nil => rfl
    | @cons p field _ _ hfield _ ih =>
      rw [List.zipWith_cons_cons, List.map_cons, ih, hfield.reduced]
      cases members.lookup p.name with
      | some json => rfl
      | none => rw [Option.getD_none, reduce_null, Option.map_none, Option.getD_none]
  rw [toJson_record hdecl h.length_eq, reduce_object, Schema.properties_of_type? hdecl, hmembers]

theorem settles_of_ofJson {json : Json} {shape : Shape} {v : Value}
    (h : ofJson s json shape = .ok v) : Settles s json shape v := by
  cases shape with
  | int =>
    obtain ⟨k, rfl, hrange, rfl⟩ := ofJson_int h
    exact settles_int hrange
  | string =>
    rcases ofJson_string h with ⟨rfl, rfl⟩ | ⟨text, rfl, rfl⟩
    · exact settles_null rfl
    · exact ⟨rfl, rfl⟩
  | list element nullable =>
    rcases ofJson_list h with ⟨rfl, hnullable, rfl⟩ | ⟨given, items, rfl, rfl, hitems⟩
    · exact settles_null hnullable
    · exact settles_list (forall₂_imp_mem hitems fun _ _ _ hitem => settles_of_ofJson hitem)
  | object name nullable =>
    rcases ofJson_object h with ⟨rfl, hnullable, rfl⟩ |
      ⟨members, decl, fields, rfl, hdecl, rfl, hfields⟩
    · exact settles_null hnullable
    · refine settles_record hdecl (forall₂_imp_mem hfields fun p field hmem hfield => ?_)
      rcases hfield with ⟨json, hlookup, hjson⟩ | ⟨hlookup, hnullable, rfl⟩
      · rw [hlookup]
        exact settles_of_ofJson hjson
      · rw [hlookup]
        exact settles_null hnullable
  | unsupported text =>
    cases json with
    | null =>
      obtain ⟨hnullable, rfl⟩ := ofMissing_eq_ok h
      exact settles_null hnullable
    | _ => cases h
termination_by sizeOf v

end Forth

/-- Plain JSON and positional values are the same up to what a shape does not ask for. What fits a
shape comes back from its plain JSON. What comes from JSON has for plain JSON the members of the
declared properties in order, null where one was missing, and comes back from that. -/
theorem ofJson_toJson (s : Schema) (shape : Shape) :
    (∀ v, Fits s shape v → ofJson s (v.toJson s) shape = .ok v) ∧
    ∀ json v, ofJson s json shape = .ok v →
      v.toJson s = reduce s json shape ∧ ofJson s (reduce s json shape) shape = .ok v := by
  refine ⟨fun v hfits => comesBack_of_fits hfits, fun json v h => ?_⟩
  obtain ⟨hback, hreduced⟩ := settles_of_ofJson h
  exact ⟨hreduced, hreduced ▸ hback⟩

example : reduce .family (.object [("likes", .array [.null]), ("pets", .array [.string "Rex"]),
      ("age", .number (.integer 8))]) (.object "Person" false) =
    .object [("name", .null), ("age", .number (.integer 8)), ("mother", .null),
      ("pets", .array [.string "Rex"])] := by decide +kernel

end ShapeCodec.Value
