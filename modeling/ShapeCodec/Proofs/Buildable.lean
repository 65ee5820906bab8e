import Mathlib.Logic.Relation
import ShapeCodec.Proofs.Default
import ShapeCodec.Proofs.Table
/-! What lies below a shape, and shapes without a fault anywhere below them. A faithful table that
causes no warning has a routine with code for every composite shape below one that it holds. -/
namespace ShapeCodec

/-- One step down: to a property as the type uses it, or to the element of a list. -/
inductive Child (s : Schema) : Shape → Shape → Prop
  | property {name nullable p} : p ∈ s.properties name →
      Child s (.object name nullable) p.effectiveShape
  | element {element nullable} : Child s (.list element nullable) element

/-- There is no fault in a direction, neither of the shape nor of what lies below it. -/
def Buildable (s : Schema) (direction : Direction) (shape : Shape) : Prop :=
  ∀ below, Relation.ReflTransGen (Child s) shape below → s.routineFault? direction below = none

namespace Buildable

variable {s : Schema} {direction : Direction} {shape below item : Shape} {name text : String}
  {nullable : Bool} {p : Property}

theorem fault (h : Buildable s direction shape) : s.routineFault? direction shape = none :=
  h shape .refl

theorem child (h : Buildable s direction shape) (hchild : Child s shape below) :
    Buildable s direction below :=
  fun other hother => h other (.head hchild hother)

theorem property (h : Buildable s direction (.object name nullable)) (hp : p ∈ s.properties name) :
    Buildable s direction p.effectiveShape :=
  h.child (.property hp)

theorem element (h : Buildable s direction (.list item nullable)) :
    Buildable s direction item :=
  h.child .element

theorem layoutFault? (h : Buildable s direction shape) : s.layoutFault? shape = none :=
  Schema.layoutFault?_eq_none h.fault

theorem not_unsupported (h : Buildable s direction (.unsupported text)) : False := by
  have hfault := h.layoutFault?
  simp [Schema.layoutFault?, Schema.checkReferences, Shape.unsupportedText?] at hfault

theorem declared (h : Buildable s direction (.object name nullable)) :
    ∃ decl, s.type? name = some decl ∧ s.properties name = decl.properties := by
  have hfault := h.layoutFault?
  cases hdecl : s.type? name with
  | none => simp [Schema.layoutFault?, hdecl] at hfault
  | some decl => exact ⟨decl, rfl, Schema.properties_of_type? hdecl⟩

/-- Where objects can be read they have a default. -/
theorem default (h : Buildable s .deserialize (.object name nullable)) :
    ∃ fields, s.defaultValue (.object name false) = .ok (.record name fields) := by
  have hfault := h.fault
  simp only [Schema.routineFault?, h.layoutFault?] at hfault
  cases hdefault : s.defaultValue (.object name false) with
  | error e => simp [hdefault] at hfault
  | ok v =>
    obtain ⟨decl, fields, -, rfl, -⟩ := Schema.defaultValue_object hdefault
    exact ⟨fields, rfl⟩

end Buildable

variable {s : Schema} {table : List Routine} {direction : Direction} {shape below : Shape}

/-- The shape is handled in place, or the table has a routine for it. -/
def Provided (table : List Routine) (direction : Direction) (shape : Shape) : Prop :=
  shape = .int ∨ shape = .string ∨ ∃ id, Table.At table id shape direction

theorem Operand.For.provided {operand : Operand}
    (h : Operand.For s table direction shape operand) : Provided table direction shape := by
  cases h with
  | int => exact .inl rfl
  | string => exact .inr (.inl rfl)
  | call hcomposite href hat => exact .inr (.inr ⟨_, hat⟩)

theorem provided_of_laid {properties : List Property} {members : List (String × Operand)}
    (h : List.Forall₂ (Property.Laid s table direction) properties members) :
    ∀ p ∈ properties, Provided table direction p.effectiveShape := by
  induction h with
  | nil => simp
  | cons hp _ ih => exact List.forall_mem_cons.2 ⟨hp.2.provided, ih⟩

theorem Layout.For.provided {layout : Layout} (h : Layout.For s table direction shape layout)
    (hchild : Child s shape below) : Provided table direction below := by
  cases h with
  | scalar hscalar hoperand => cases hchild <;> simp [Shape.isComposite] at hscalar
  | list hoperand =>
    cases hchild
    exact hoperand.provided
  | object hdecl hlaid =>
    cases hchild with
    | property hp =>
      rw [Schema.properties_of_type? hdecl] at hp
      exact provided_of_laid hlaid _ hp

/-- Without warnings, all shapes that have a routine are buildable. -/
theorem buildable_of_at (hfaithful : ∀ r ∈ table, r.Faithful s table)
    (hwarnings : ∀ r ∈ table, r.warning? = none) {id : RoutineId}
    (hat : Table.At table id shape direction) : Buildable s direction shape := by
  have hfault {id : RoutineId} {shape : Shape} (hat : Table.At table id shape direction) :
      s.routineFault? direction shape = none := by
    obtain ⟨r, hr, rfl, rfl⟩ := Table.at_iff.1 hat
    have hmem := List.mem_of_getElem? hr
    exact (hfaithful r hmem).warning?_eq_none_iff.1 (hwarnings r hmem)
  have hreach {below : Shape} (h : Relation.ReflTransGen (Child s) shape below) :
      Provided table direction below := by
    induction h with
    | refl => exact .inr (.inr ⟨id, hat⟩)
    | tail _ hchild ih =>
      rcases ih with rfl | rfl | ⟨id, hat⟩
      · cases hchild
      · cases hchild
      · obtain ⟨r, hr, rfl, rfl⟩ := Table.at_iff.1 hat
        obtain ⟨layout, hlayout, -⟩ := (hfaithful r (List.mem_of_getElem? hr)).code (hfault hat)
        exact hlayout.provided hchild
  intro below hbelow
  rcases hreach hbelow with rfl | rfl | ⟨id, hat⟩
  · cases direction <;> rfl
  · cases direction <;> rfl
  · exact hfault hat

end ShapeCodec
