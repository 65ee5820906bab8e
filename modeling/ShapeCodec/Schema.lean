import ShapeCodec.Shape.Expression
/-! Schemas: the declared types in order, and the call sites that ask for entry points. Declaring is
the only way to add a type, so every schema has distinct type names, distinct property names inside
a type, and only identifiers among both. -/
namespace ShapeCodec

structure Property where
  name : String
  shape : Shape
  nullable : Bool
  /-- Matters only when `shape` is a list. -/
  itemsNullable : Bool
  deriving DecidableEq

/-- The shape as the property uses it: its own flag on the outside, and for lists the element
narrowed by the flag for items. An item flag never makes a non-null element nullable. -/
def Property.effectiveShape (p : Property) : Shape :=
  match p.shape with
  | .list element _ =>
    .list (element.withNullable (element.isNullable && p.itemsNullable)) p.nullable
  | shape => shape.withNullable p.nullable

structure Declaration where
  name : String
  properties : List Property
  deriving DecidableEq

inductive Direction where
  | serialize
  | deserialize
  deriving DecidableEq

def Direction.text : Direction → String
  | serialize => "serialize"
  | deserialize => "deserialize"

structure CallSite where
  direction : Direction
  shape : Shape
  deriving DecidableEq

/-- Why a declaration is refused. -/
inductive DeclareError where
  | invalidIdentifier (name : String)
  | duplicateType (name : String)
  | duplicateProperty (type property : String)
  deriving DecidableEq

/-- Properties that can stand in one declaration. -/
structure Property.Distinct (properties : List Property) : Prop where
  identifier : ∀ p ∈ properties, isIdentifier p.name = true
  nodup : (properties.map Property.name).Nodup

/-- Well-formed on its own, apart from the other declarations. -/
structure Declaration.Valid (decl : Declaration) : Prop where
  name : isIdentifier decl.name = true
  property : ∀ p ∈ decl.properties, isIdentifier p.name = true
  nodup : (decl.properties.map Property.name).Nodup

instance (decl : Declaration) : Decidable decl.Valid :=
  decidable_of_iff (isIdentifier decl.name = true ∧
      (∀ p ∈ decl.properties, isIdentifier p.name = true) ∧
      (decl.properties.map Property.name).Nodup)
    ⟨fun ⟨name, property, nodup⟩ => ⟨name, property, nodup⟩,
      fun ⟨name, property, nodup⟩ => ⟨name, property, nodup⟩⟩

structure Schema where
  types : List Declaration
  calls : List CallSite
  valid : ∀ decl ∈ types, decl.Valid
  nodup : (types.map Declaration.name).Nodup

namespace Schema

def empty : Schema :=
  ⟨[], [], by simp, by simp⟩

instance : Inhabited Schema := ⟨empty⟩

def type? (s : Schema) (name : String) : Option Declaration :=
  s.types.find? (·.name = name)

def isDeclared (s : Schema) (name : String) : Bool :=
  (s.type? name).isSome

theorem isDeclared_iff (s : Schema) (name : String) :
    s.isDeclared name = true ↔ name ∈ s.types.map Declaration.name := by
  simp [isDeclared, type?, List.find?_isSome]

/-- The schema with a declaration behind the others. -/
def insert (s : Schema) (decl : Declaration) (valid : decl.Valid)
    (fresh : s.isDeclared decl.name = false) : Schema where
  types := s.types ++ [decl]
  calls := s.calls
  valid := by
    intro d hd
    rcases List.mem_append.1 hd with hd | hd
    · exact s.valid d hd
    · exact List.mem_singleton.1 hd ▸ valid
  nodup := by
    rw [List.map_append, List.nodup_append]
    refine ⟨s.nodup, by simp, ?_⟩
    rintro a ha b hb rfl
    simp only [List.map_cons, List.map_nil, List.mem_singleton] at hb
    have hdeclared := (isDeclared_iff s decl.name).2 (hb ▸ ha)
    simp [fresh] at hdeclared

end Schema

namespace Property

theorem distinct_nil : Distinct [] :=
  ⟨by simp, by simp⟩

theorem Distinct.of_append {before rest : List Property} (h : Distinct (before ++ rest)) :
    Distinct before := by
  have hnodup := h.nodup
  rw [List.map_append, List.nodup_append] at hnodup
  exact ⟨fun p hp => h.identifier p (List.mem_append_left _ hp), hnodup.1⟩

theorem distinct_append_iff {before : List Property} {p : Property} :
    Distinct (before ++ [p]) ↔
      Distinct before ∧ isIdentifier p.name = true ∧ p.name ∉ before.map Property.name := by
  constructor
  · intro h
    have hnodup := h.nodup
    rw [List.map_append, List.nodup_append] at hnodup
    exact ⟨h.of_append, h.identifier p (by simp), fun hmem => hnodup.2.2 _ hmem _ (by simp) rfl⟩
  · rintro ⟨hbefore, hp, hmem⟩
    refine ⟨List.forall_mem_append.2 ⟨hbefore.identifier, by simpa using hp⟩, ?_⟩
    rw [List.map_append, List.nodup_append]
    refine ⟨hbefore.nodup, by simp, fun a ha b hb heq => hmem ?_⟩
    rw [List.map_singleton, List.mem_singleton] at hb
    rwa [← hb, ← heq]

end Property

/-- Steps that change a schema, and may refuse to. A refusal keeps the schema as it is by then. -/
abbrev Declaring := EStateM DeclareError Schema

namespace Declaring

/-- Goes on with the proof of a condition, or refuses. -/
def require (condition : Prop) [Decidable condition] (e : DeclareError) :
    Declaring (PLift condition) :=
  if h : condition then pure ⟨h⟩ else throw e

/-- Checks properties in order, each against those before it. -/
def checkProperties (type : String) (before : List Property) (distinct : Property.Distinct before) :
    (rest : List Property) → Declaring (PLift (Property.Distinct (before ++ rest)))
  | [] => pure ⟨by simpa using distinct⟩
  | p :: rest => do
    let name ← require (isIdentifier p.name = true) (.invalidIdentifier p.name)
    let fresh ← require (p.name ∉ before.map Property.name) (.duplicateProperty type p.name)
    let all ← checkProperties type (before ++ [p])
      (Property.distinct_append_iff.2 ⟨distinct, name.down, fresh.down⟩) rest
    pure ⟨by simpa using all.down⟩

end Declaring

open Declaring in
/-- Adds a declaration behind the others. Before that its name is checked, then whether the name is
declared, then its properties. -/
def Declaration.addTo (decl : Declaration) : Declaring Unit := do
  let name ← require (isIdentifier decl.name = true) (.invalidIdentifier decl.name)
  let s ← get
  let fresh ← require (s.isDeclared decl.name = false) (.duplicateType decl.name)
  let distinct ← checkProperties decl.name [] Property.distinct_nil decl.properties
  set (s.insert decl ⟨name.down, distinct.down.identifier, distinct.down.nodup⟩ fresh.down)

namespace Schema

/-- The schema with one more declaration, if it is not refused. -/
def declare (s : Schema) (decl : Declaration) : Except DeclareError Schema :=
  match decl.addTo s with
  | .ok _ s => .ok s
  | .error e _ => .error e

/-- The schema with more declarations, up to the first that is refused. -/
def declareAll (s : Schema) (decls : List Declaration) : Except DeclareError Schema :=
  decls.foldlM declare s

/-- Records a request for an entry point. -/
def call (s : Schema) (direction : Direction) (shape : Shape) : Schema :=
  { s with calls := s.calls ++ [⟨direction, shape⟩] }

def callBoth (s : Schema) (shape : Shape) : Schema :=
  (s.call .serialize shape).call .deserialize shape

/-- Every shape that generation can meet below `shape`: its parts, and the parts of every declared
property's shape. -/
def closure (s : Schema) (shape : Shape) : List Shape :=
  shape.parts ++ s.types.flatMap fun decl =>
    decl.properties.flatMap fun p => p.effectiveShape.parts

end Schema

end ShapeCodec
