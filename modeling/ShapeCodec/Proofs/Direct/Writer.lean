import ShapeCodec.Proofs.Literals
import ShapeCodec.Proofs.Table
/-! Writing straight from the schema, without a routine table, and the proof that a faithful table
does the same: the same text or the same error, with the same text before it. -/
namespace ShapeCodec.Direct

open Machine (put)

section Block

variable (write : Shape → Value → Writing Unit)

/-- Writes a child: scalars in place, composite shapes through `write`. -/
def writeChild : Shape → Value → Writing Unit
  | .int, .int n => put (Wire.int n)
  | .int, value => throw (.unexpected .int value)
  | .string, .str text => put (Wire.str (some text))
  | .string, .null => put (Wire.str none)
  | .string, value => throw (.unexpected .string value)
  | shape, value => write shape value

/-- Writes the properties of a record on lines of their own. -/
def writeMembers : List Property → List Value → Writing Unit
  | p :: properties, value :: values => do
    put (WriteTree.label p.name)
    writeChild write p.effectiveShape value
    put (if properties.isEmpty then "\n" else ",\n")
    writeMembers properties values
  | _, _ => pure ()

/-- Writes the items of a list on lines of their own. -/
def writeItems (element : Shape) : List Value → Writing Unit
  | [] => pure ()
  | value :: values => do
    writeChild write element value
    put (if values.isEmpty then "\n" else ",\n")
    writeItems element values

end Block

/-- Whether a value may be written as a shape, as far as its outermost level shows. -/
def accept (s : Schema) : Shape → Value → Except CodecError Unit
  | shape, .null =>
    if shape.isNullable then .ok () else .error (.unexpected (.shape shape) .null)
  | .object name nullable, .record type fields =>
    if type ≠ name then .error (.mismatch (.shape (.object name nullable)) .otherType)
    else match s.type? name with
      | some decl =>
        if fields.length = decl.properties.length then .ok ()
        else .error (.mismatch (.fieldCount decl.properties.length name) .otherFieldCount)
      | none => .ok ()
  | .object name nullable, other => .error (.unexpected (.shape (.object name nullable)) other)
  | .list _ _, .list _ => .ok ()
  | .list element nullable, other => .error (.unexpected (.shape (.list element nullable)) other)
  | _, _ => .ok ()

/-- Writes an accepted value. -/
def writeValue (s : Schema) (write : Shape → Value → Writing Unit) : Shape → Value → Writing Unit
  | .object name _, .record _ fields => do
    put "\x7b\n"
    writeMembers write (s.properties name) fields
    put "\x7d"
  | .list element _, .list items => do
    put "[\n"
    writeItems write element items
    put "]"
  | .object _ _, _ => put (Wire.str none)
  | .list _ _, _ => put (Wire.str none)
  | shape, value => writeChild write shape value

/-- Writes a value as a shape with `levels` nested calls to go, itself included. A shape with a
fault has no text. -/
def write (s : Schema) : Nat → Shape → Value → Writing Unit
  | levels, shape, value =>
    if (s.routineFault? .serialize shape).isSome then pure ()
    else match levels with
      | 0 => throw (.depthLimit maxDepth)
      | levels + 1 => do
        accept s shape value
        writeValue s (write s levels) shape value

section Simulation

variable {s : Schema} {table : List Routine} {call : RoutineId → Value → Writing Unit}
  {write : Shape → Value → Writing Unit} {argument value : Value} {item : Option Value}
  {source : ValueSource} {shape : Shape} {operand : Operand}

/-- Calls of the routines in the table do what `write` does. -/
def Writes (table : List Routine) (call : RoutineId → Value → Writing Unit)
    (write : Shape → Value → Writing Unit) : Prop :=
  ∀ id shape, Table.At table id shape .serialize → call id = write shape

theorem writeBlock_child (hcall : Writes table call write)
    (hoperand : Operand.For s table .serialize shape operand)
    (hsource : source.find argument item = .ok value) :
    Machine.writeBlock call argument (Layout.childTree source operand).flatten item =
      (do writeChild write shape value; pure .next) := by
  have hlift : (liftM (source.find argument item) : Writing Value) = pure value := by
    rw [hsource]
    rfl
  cases hoperand with
  | int =>
    cases value <;>
      simp [Layout.childTree, WriteTree.flatten, Machine.writeBlock, Machine.writeStep, hlift,
        writeChild, Running.throw_bind, Running.map_throw]
  | string =>
    cases value <;>
      simp [Layout.childTree, WriteTree.flatten, Machine.writeBlock, Machine.writeStep, hlift,
        writeChild, Running.throw_bind, Running.map_throw]
  | call hcomposite href hat =>
    have hchild : writeChild write shape value = write shape value := by
      cases shape <;> simp_all [writeChild, Shape.isComposite]
    simp [Layout.childTree, WriteTree.flatten, Machine.writeBlock, Machine.writeStep, hlift,
      hcall _ _ hat, hchild]

theorem writeBlock_members (hcall : Writes table call write) {properties : List Property}
    {members : List (String × Operand)} {values : List Value}
    (hlaid : List.Forall₂ (Property.Laid s table .serialize) properties members)
    (hlength : values.length = properties.length) (type : String) (before : List Value)
    (item : Option Value) :
    Machine.writeBlock call (.record type (before ++ values))
        (WriteTree.flattenMembers (members.mapIdx fun slot member =>
          (member.1, Layout.childTree (.field (before.length + slot)) member.2))) item =
      (do writeMembers write properties values; pure .next) := by
  induction hlaid generalizing before values with
  | nil => simp [WriteTree.flattenMembers, Machine.writeBlock, writeMembers]
  | @cons p member properties members hp hlaid ih =>
    obtain ⟨value, values, rfl⟩ := List.exists_cons_of_length_eq_add_one hlength
    have hfound : (ValueSource.field before.length).find
        (.record type (before ++ value :: values)) item = .ok value := by
      simp [ValueSource.find]
    have hrest := ih (Nat.succ.inj hlength) (before ++ [value])
    have hempty (f : Nat → String × Operand → String × WriteTree) :
        (members.mapIdx f).isEmpty = properties.isEmpty := by
      cases hlaid <;> simp
    simp only [List.append_assoc, List.singleton_append, List.length_append, List.length_singleton,
      Nat.add_assoc, Nat.add_comm 1] at hrest
    simp only [List.mapIdx_cons, Nat.add_zero, WriteTree.flattenMembers, Machine.writeBlock,
      List.cons_append, Machine.writeStep, bind_assoc, pure_bind, Machine.writeBlock_append,
      writeBlock_child hcall hp.2 hfound, hrest, hp.1, writeMembers, hempty]

theorem writeItems_items (hcall : Writes table call write)
    (hoperand : Operand.For s table .serialize shape operand) (items : List Value) :
    Machine.writeItems (fun element => Machine.writeBlock call argument
        (Layout.childTree .element operand).flatten (some element)) ",\n" "\n" items =
      (do writeItems write shape items; pure .next) := by
  induction items with
  | nil => simp [Machine.writeItems, writeItems]
  | cons value values ih =>
    have hfound : ValueSource.element.find argument (some value) = .ok value := rfl
    have hchild := writeBlock_child hcall hoperand hfound
    simp only [Machine.writeItems, hchild, ih, writeItems, bind_assoc, pure_bind]

theorem writeBlock_guard_null (code : List WriteStep) :
    Machine.writeBlock call .null (WriteTree.guard .arg true ++ code) item =
      (do put (Wire.str none); pure .leave) := by
  rfl

theorem writeBlock_guard (h : value ≠ .null) (nullable : Bool) (code : List WriteStep) :
    Machine.writeBlock call value (WriteTree.guard .arg nullable ++ code) item =
      Machine.writeBlock call value code item := by
  cases nullable with
  | false => rfl
  | true =>
    cases value with
    | null => exact absurd rfl h
    | _ => rfl

/-- The code for a layout does what `writeValue` does with an accepted value. -/
theorem writeBlock_layout (hcall : Writes table call write) {layout : Layout}
    (hlayout : Layout.For s table .serialize shape layout)
    (haccept : accept s shape value = .ok ()) :
    discard (Machine.writeBlock call value (layout.writeTree .arg).flatten none) =
      writeValue s write shape value := by
  rw [Running.discard_eq_map]
  cases hlayout with
  | scalar hscalar hoperand =>
    have hfound : ValueSource.arg.find value none = .ok value := rfl
    rw [Layout.writeTree, writeBlock_child hcall hoperand hfound]
    have hvalue : writeValue s write shape value = writeChild write shape value := by
      cases shape <;> simp_all [writeValue, Shape.isComposite]
    simp [hvalue]
  | @object name nullable decl members hdecl hlaid =>
    rw [Layout.writeTree, WriteTree.flatten, List.append_assoc]
    cases value with
    | null =>
      cases nullable with
      | false => simp [accept, Shape.isNullable] at haccept
      | true => rw [writeBlock_guard_null]; simp [writeValue]
    | record type fields =>
      simp only [accept, hdecl] at haccept
      split at haccept
      · simp at haccept
      · next htype =>
        obtain rfl := not_not.1 htype
        split at haccept
        · next hlength =>
          have hmembers := writeBlock_members hcall hlaid hlength type [] none
          simp only [List.nil_append, List.length_nil, Nat.zero_add] at hmembers
          rw [writeBlock_guard (by simp)]
          simp [Machine.writeBlock, Machine.writeStep, Machine.writeBlock_append, hmembers,
            writeValue, Schema.properties_of_type? hdecl]
        · simp at haccept
    | _ => simp [accept] at haccept
  | @list element nullable operand hoperand =>
    rw [Layout.writeTree, WriteTree.flatten]
    cases value with
    | null =>
      cases nullable with
      | false => simp [accept, Shape.isNullable] at haccept
      | true => rw [writeBlock_guard_null]; simp [writeValue]
    | list items =>
      rw [writeBlock_guard (by simp)]
      have hlift : (liftM (ValueSource.arg.find (.list items) none) : Writing Value) =
          pure (.list items) := rfl
      simp [Machine.writeBlock, Machine.writeStep, hlift, writeItems_items hcall hoperand,
        writeValue]
    | _ => simp [accept] at haccept

theorem accept_eq {r : Routine} (h : r.Faithful s table) (value : Value) :
    r.accept value = accept s r.shape value := by
  unfold Routine.accept accept
  rw [h.fieldCount]
  cases r.shape <;> cases value <;> try rfl
  next name nullable type fields =>
    simp only [Emitter.fieldCount?]
    cases s.type? name <;> rfl

/-- Running a faithful table is writing straight from the schema. -/
theorem writeWithin_eq (hfaithful : ∀ r ∈ table, r.Faithful s table) (more : List Routine)
    (levels : Nat) :
    Writes table (Machine.writeWithin ⟨table ++ more⟩ levels) (Direct.write s levels) := by
  induction levels with
  | zero =>
    intro id shape hat
    obtain ⟨r, hrun, hr, rfl, hdirection⟩ := routine_of_at hfaithful more hat
    funext value
    unfold Machine.writeWithin Direct.write
    simp only [hrun]
    cases hfault : s.routineFault? .serialize r.shape with
    | some e => simp [hr.stub e (hdirection ▸ hfault)]
    | none =>
      obtain ⟨layout, -, hbody⟩ := hr.writeCode hdirection hfault
      simp [hbody]
  | succ levels ih =>
    intro id shape hat
    obtain ⟨r, hrun, hr, rfl, hdirection⟩ := routine_of_at hfaithful more hat
    funext value
    unfold Machine.writeWithin Direct.write
    simp only [hrun]
    cases hfault : s.routineFault? .serialize r.shape with
    | some e => simp [hr.stub e (hdirection ▸ hfault)]
    | none =>
      obtain ⟨layout, hlayout, hbody⟩ := hr.writeCode hdirection hfault
      simp only [hbody, Option.isSome_none, Bool.false_eq_true, if_false, accept_eq hr,
        Machine.writeBlock_mergeLiterals]
      cases haccept : accept s r.shape value with
      | error e => rfl
      | ok => rw [writeBlock_layout ih hlayout haccept]

end Simulation

end ShapeCodec.Direct
