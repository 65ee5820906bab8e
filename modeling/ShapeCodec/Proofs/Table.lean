import Mathlib.Data.List.Forall2
import ShapeCodec.Codec
/-! Routine tables that do what their schema says. A table is read through the keys of its routines,
their shapes and directions: a call is right if the routine at its position has the right key. Since
keys never change once a position is taken, what is said of a call stays true while the table grows
and while other bodies are still being filled in. -/
namespace ShapeCodec

/-- The fault that a check reports, if any. -/
def faultOf {ε α : Type} : Except ε α → Option ε
  | .ok _ => none
  | .error e => some e

@[simp] theorem faultOf_ok {ε α : Type} (a : α) : faultOf (.ok a : Except ε α) = none := rfl

@[simp] theorem faultOf_error {ε α : Type} (e : ε) : faultOf (.error e : Except ε α) = some e := rfl

namespace Schema

/-- The properties of a type, none if it is undeclared. -/
def properties (s : Schema) (name : String) : List Property :=
  ((s.type? name).map Declaration.properties).getD []

theorem properties_of_type? {s : Schema} {name : String} {decl : Declaration}
    (h : s.type? name = some decl) : s.properties name = decl.properties := by
  rw [properties, h]
  rfl

/-- Why a shape has no layout: it is undeclared, or else the fault of its first child that cannot be
referenced. -/
def layoutFault? (s : Schema) : Shape → Option ShapeError
  | .object name _ =>
    match s.type? name with
    | none => some (.undeclared name)
    | some decl => decl.properties.findSome? fun p => faultOf (s.checkReferences p.effectiveShape)
  | .list element _ => faultOf (s.checkReferences element)
  | shape => faultOf (s.checkReferences shape)

/-- Why a shape has no routine in a direction. Reading an object needs the defaults of its
properties besides. -/
def routineFault? (s : Schema) (direction : Direction) (shape : Shape) : Option ShapeError :=
  match s.layoutFault? shape, direction, shape with
  | some e, _, _ => some e
  | none, .deserialize, .object name _ => faultOf (s.defaultValue (.object name false))
  | none, _, _ => none

theorem layoutFault?_eq_none {s : Schema} {direction : Direction} {shape : Shape}
    (h : s.routineFault? direction shape = none) : s.layoutFault? shape = none := by
  unfold routineFault? at h
  split at h
  · simp at h
  · assumption
  · assumption

end Schema

/-- What identifies a routine in its table. -/
def Routine.key (r : Routine) : Shape × Direction :=
  (r.shape, r.direction)

namespace Table

/-- The routine at a position is for the given shape and direction. -/
def At (table : List Routine) (id : RoutineId) (shape : Shape) (direction : Direction) : Prop :=
  (table.map Routine.key)[id.index]? = some (shape, direction)

variable {table more : List Routine} {id : RoutineId} {shape : Shape} {direction : Direction}

theorem at_iff : At table id shape direction ↔
    ∃ r, table[id.index]? = some r ∧ r.shape = shape ∧ r.direction = direction := by
  simp [At, Routine.key]

theorem At.append (h : At table id shape direction) (more : List Routine) :
    At (table ++ more) id shape direction := by
  obtain ⟨hlt, -⟩ := List.getElem?_eq_some_iff.1 h
  rw [At, List.map_append, List.getElem?_append_left hlt]
  exact h

theorem At.congr (h : At table id shape direction)
    (hkeys : table.map Routine.key = more.map Routine.key) : At more id shape direction := by
  rw [At, ← hkeys]
  exact h

theorem at_length (table : List Routine) (r : Routine) :
    At (table ++ [r]) ⟨table.length⟩ r.shape r.direction := by
  simp [at_iff]

/-- A new routine stands at the end, and nowhere else. -/
theorem at_concat_iff {r : Routine} : At (table ++ [r]) id shape direction ↔
    At table id shape direction ∨ id = ⟨table.length⟩ ∧ r.key = (shape, direction) := by
  obtain ⟨i⟩ := id
  simp only [At, List.map_append, List.map_cons, List.map_nil, RoutineId.mk.injEq]
  rcases Nat.lt_trichotomy i table.length with hlt | rfl | hlt
  · rw [List.getElem?_append_left (by simpa using hlt)]
    simp [Nat.ne_of_lt hlt]
  · simp
  · rw [List.getElem?_eq_none (by simp; omega), List.getElem?_eq_none (by simp; omega)]
    simp [Nat.ne_of_gt hlt]

end Table

/-- What stands for a child shape: scalars are handled in place, a composite shape that can be
referenced is left to its routine. -/
inductive Operand.For (s : Schema) (table : List Routine) (direction : Direction) :
    Shape → Operand → Prop
  | int : Operand.For s table direction .int .int
  | string : Operand.For s table direction .string .str
  | call {shape id} : shape.isComposite = true → s.checkReferences shape = .ok () →
      Table.At table id shape direction → Operand.For s table direction shape (.call id)

/-- The member of a layout for a property. -/
def Property.Laid (s : Schema) (table : List Routine) (direction : Direction) (p : Property)
    (member : String × Operand) : Prop :=
  member.1 = p.name ∧ Operand.For s table direction p.effectiveShape member.2

/-- A layout of a shape whose children are in the table. -/
inductive Layout.For (s : Schema) (table : List Routine) (direction : Direction) :
    Shape → Layout → Prop
  | scalar {shape operand} : shape.isComposite = false →
      Operand.For s table direction shape operand →
      Layout.For s table direction shape (.scalar operand)
  | object {name nullable decl members} : s.type? name = some decl →
      List.Forall₂ (Property.Laid s table direction) decl.properties members →
      Layout.For s table direction (.object name nullable) (.object name nullable members)
  | list {element nullable operand} : Operand.For s table direction element operand →
      Layout.For s table direction (.list element nullable) (.list nullable operand)

/-- A routine is what the schema prescribes for its key: a stub if there is a fault, and otherwise
the code for a layout of its shape. -/
structure Routine.Faithful (s : Schema) (table : List Routine) (r : Routine) : Prop where
  fieldCount : r.fieldCount = Emitter.fieldCount? s r.shape
  stub : ∀ e, s.routineFault? r.direction r.shape = some e → r.body = .stub (.unbuildable e)
  code : s.routineFault? r.direction r.shape = none → ∃ layout,
    Layout.For s table r.direction r.shape layout ∧ Emitter.bodyOf s layout r.direction = .ok r.body

/-- The warning that a routine causes. -/
def Routine.warning? (r : Routine) : Option Diagnostic :=
  match r.body with
  | .stub (.unbuildable e) => some ⟨.warning, .routine r.direction r.shape, e⟩
  | _ => none

section Congr

variable {s : Schema} {table more : List Routine} {direction : Direction}

theorem Operand.For.congr {shape : Shape} {operand : Operand}
    (h : Operand.For s table direction shape operand)
    (hmono : ∀ id shape, Table.At table id shape direction → Table.At more id shape direction) :
    Operand.For s more direction shape operand := by
  cases h with
  | int => exact .int
  | string => exact .string
  | call hcomposite href hat => exact .call hcomposite href (hmono _ _ hat)

theorem Layout.For.congr {shape : Shape} {layout : Layout}
    (h : Layout.For s table direction shape layout)
    (hmono : ∀ id shape, Table.At table id shape direction → Table.At more id shape direction) :
    Layout.For s more direction shape layout := by
  cases h with
  | scalar hscalar h => exact .scalar hscalar (h.congr hmono)
  | object hdecl h => exact .object hdecl (h.imp fun _ _ hm => ⟨hm.1, hm.2.congr hmono⟩)
  | list h => exact .list (h.congr hmono)

theorem Routine.Faithful.congr {r : Routine} (h : r.Faithful s table)
    (hmono : ∀ id shape direction, Table.At table id shape direction →
      Table.At more id shape direction) : r.Faithful s more := by
  refine ⟨h.fieldCount, h.stub, fun hfault => ?_⟩
  obtain ⟨layout, hlayout, hbody⟩ := h.code hfault
  exact ⟨layout, hlayout.congr fun id shape => hmono id shape _, hbody⟩

theorem Routine.Faithful.append {r : Routine} (h : r.Faithful s table) (more : List Routine) :
    r.Faithful s (table ++ more) :=
  h.congr fun _ _ _ hat => hat.append more

theorem Routine.Faithful.writeCode {r : Routine} (h : r.Faithful s table)
    (hdirection : r.direction = .serialize) (hfault : s.routineFault? .serialize r.shape = none) :
    ∃ layout, Layout.For s table .serialize r.shape layout ∧
      r.body = .write (WriteStep.mergeLiterals (layout.writeTree .arg).flatten) := by
  rw [← hdirection] at hfault
  obtain ⟨layout, hlayout, hbody⟩ := h.code hfault
  simp only [hdirection, Emitter.bodyOf, Except.ok.injEq] at hbody
  exact ⟨layout, hdirection ▸ hlayout, hbody.symm⟩

theorem Routine.Faithful.readCode {r : Routine} (h : r.Faithful s table)
    (hdirection : r.direction = .deserialize)
    (hfault : s.routineFault? .deserialize r.shape = none) :
    ∃ layout plan, Layout.For s table .deserialize r.shape layout ∧
      layout.readPlan s = .ok plan ∧ r.body = .read plan := by
  rw [← hdirection] at hfault
  obtain ⟨layout, hlayout, hbody⟩ := h.code hfault
  simp only [hdirection, Emitter.bodyOf] at hbody
  cases hplan : layout.readPlan s with
  | error e => simp [hplan, Except.map] at hbody
  | ok plan =>
    simp only [hplan, Except.map, Except.ok.injEq] at hbody
    exact ⟨layout, plan, hdirection ▸ hlayout, hplan, hbody.symm⟩

/-- A faithful routine causes a warning exactly if its shape has a fault. -/
theorem Routine.Faithful.warning?_eq_none_iff {r : Routine} (h : r.Faithful s table) :
    r.warning? = none ↔ s.routineFault? r.direction r.shape = none := by
  constructor
  · intro hwarning
    cases hfault : s.routineFault? r.direction r.shape with
    | none => rfl
    | some e => simp [Routine.warning?, h.stub e hfault] at hwarning
  · intro hfault
    cases hdirection : r.direction with
    | serialize =>
      obtain ⟨layout, -, hbody⟩ := h.writeCode hdirection (hdirection ▸ hfault)
      simp [Routine.warning?, hbody]
    | deserialize =>
      obtain ⟨layout, plan, -, -, hbody⟩ := h.readCode hdirection (hdirection ▸ hfault)
      simp [Routine.warning?, hbody]

end Congr

/-- The routine at a position of a faithful table, whatever else the machine holds behind it. -/
theorem routine_of_at {s : Schema} {table : List Routine} {id : RoutineId} {shape : Shape}
    {direction : Direction} (hfaithful : ∀ r ∈ table, r.Faithful s table) (more : List Routine)
    (hat : Table.At table id shape direction) :
    ∃ r, (⟨table ++ more⟩ : Machine).routine? id = some r ∧ r.Faithful s table ∧
      r.shape = shape ∧ r.direction = direction := by
  obtain ⟨r, hr, hkey⟩ := Table.at_iff.1 hat
  refine ⟨r, ?_, hfaithful r (List.mem_of_getElem? hr), hkey⟩
  rw [Machine.routine?, List.getElem?_append_left (List.getElem?_eq_some_iff.1 hr).1, hr]

end ShapeCodec
