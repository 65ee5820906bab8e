import ShapeCodec.Proofs.Default
import ShapeCodec.Proofs.Locality
import ShapeCodec.Proofs.Table
/-! Reading straight from the schema, without a routine table, and the proof that a faithful table
does the same: the same value or the same error, with the cursor left at the same place. -/
namespace ShapeCodec.Direct

section Child

variable (read : Shape → Reading Value)

/-- Reads a child: scalars in place, composite shapes through `read`. -/
def readChild (shape : Shape) : Reading Value := do
  Scan.skipWhitespace
  match shape with
  | .int => if ← Scan.tryNull then pure (.int 0) else .int <$> Scan.readInt
  | .string => if ← Scan.tryNull then pure .null else .str <$> Scan.readString
  | shape => read shape

/-- One member of an object, which is looked up by name among the properties. -/
def readMember (properties : List Property) (slots : List Value) : Reading (List Value) := do
  let name ← Scan.readString
  Scan.skipWhitespace
  Scan.expect ':'
  match properties.zipIdx.find? fun entry => entry.1.name = name with
  | some (p, slot) => slots.set slot <$> readChild read p.effectiveShape
  | none =>
    Scan.skipValue
    pure slots

/-- One round of a loop: it ends at the closing bracket, and otherwise goes on behind one more entry
and an optional comma. -/
def round {α β : Type} (close : Char) (finish : α) (entry : Reading β) (next : β → Reading α) :
    Reading α := do
  Scan.skipWhitespace
  if (← get).isExhausted then Scan.fail (.contentOr close)
  else if ← Scan.tryChar close then pure finish
  else
    let x ← entry
    Scan.skipWhitespace
    discard (Scan.tryChar ',')
    next x

/-- The members up to the closing brace. Each takes up input, so that `bound` need not exceed its
length: `readMembers_unrolls`. -/
def readMembers (properties : List Property) : Nat → List Value → Reading (List Value)
  | 0, _ => Scan.fail (.contentOr '\x7d')
  | bound + 1, slots =>
    round '\x7d' slots (readMember read properties slots) (readMembers properties bound)

/-- The items up to the closing bracket; `bound` is as for members. -/
def readItems (element : Shape) : Nat → Reading (List Value)
  | 0 => Scan.fail (.contentOr ']')
  | bound + 1 =>
    round ']' [] (readChild read element) fun item => (item :: ·) <$> readItems element bound

end Child

section Bound

variable {α β : Type} {close : Char} {finish : α} {entry : Reading β} {next next' : β → Reading α}
  {read : Shape → Reading Value} {c : Cursor} {bound : Nat}

theorem round_exhausted (h : c.rest = []) :
    round close finish entry next c = (liftM (Scan.fail (.contentOr close)) : Reading α) c := by
  obtain ⟨offset, rest⟩ := c
  obtain rfl : rest = [] := h
  rfl

/-- The next round starts with less text than the one before it. -/
theorem round_congr (hentry : Lexes entry)
    (h : ∀ x mid, mid.rest.length < c.rest.length → next x mid = next' x mid) :
    round close finish entry next c = round close finish entry next' c := by
  have hcomma : Peeks (discard (liftM (Scan.tryChar ',') : Reading Bool)) :=
    (peeks_tryChar ',').lift.map _
  refine Running.bind_congr fun _ opened hopened => ?_
  have hopened := peeks_skipWhitespace.lift.length_le hopened
  refine Running.bind_congr fun start mid hstart => ?_
  obtain ⟨rfl, rfl⟩ : opened = start ∧ opened = mid := by
    cases hstart
    exact ⟨rfl, rfl⟩
  split
  · rfl
  refine Running.bind_congr fun closed mid hclosed => ?_
  have hclosed := (peeks_tryChar close).lift.length_le hclosed
  split
  · rfl
  refine Running.bind_congr fun x behind hx => ?_
  have hx := hentry.length_lt hx
  refine Running.bind_congr fun _ blank hblank => ?_
  have hblank := peeks_skipWhitespace.lift.length_le hblank
  refine Running.bind_congr fun _ last hlast => ?_
  have hlast := hcomma.length_le hlast
  exact h x last (by omega)

/-- The bound never ends the loop. Given as much of it as there is text, the loop goes round with
the same bound again for as long as it finds members. -/
theorem readMembers_unrolls {properties : List Property} {slots : List Value}
    (hmember : ∀ slots, Lexes (readMember read properties slots)) (h : c.rest.length ≤ bound) :
    readMembers read properties bound slots c =
      round '\x7d' slots (readMember read properties slots) (readMembers read properties bound)
        c := by
  induction bound generalizing slots c with
  | zero => exact (round_exhausted (List.length_eq_zero_iff.1 (by omega))).symm
  | succ bound ih => exact round_congr (hmember slots) fun slots mid hmid => ih (by omega)

theorem readItems_unrolls {element : Shape} (helement : Lexes (readChild read element))
    (h : c.rest.length ≤ bound) :
    readItems read element bound c =
      round ']' [] (readChild read element) (fun item => (item :: ·) <$> readItems read element bound)
        c := by
  induction bound generalizing c with
  | zero => exact (round_exhausted (List.length_eq_zero_iff.1 (by omega))).symm
  | succ bound ih =>
    refine round_congr helement fun item mid hmid => ?_
    rw [Running.map_apply, Running.map_apply, ih (by omega)]
    rfl

end Bound

/-- What properties read as where the input leaves them out. -/
def defaults (s : Schema) (properties : List Property) : List Value :=
  properties.map fun p => Generation.Progress.blankValue s p.effectiveShape

/-- Reads a value after whitespace. -/
def readValue (s : Schema) (read : Shape → Reading Value) : Shape → Reading Value
  | .object name nullable => do
    let properties := s.properties name
    if ← Scan.tryNull then
      pure (if nullable then .null else .record name (defaults s properties))
    else
      Scan.expect '{'
      let start ← get
      .record name <$> readMembers read properties start.rest.length (defaults s properties)
  | .list element nullable => do
    if ← Scan.tryNull then pure (if nullable then .null else .list [])
    else
      Scan.expect '['
      let start ← get
      .list <$> readItems read element start.rest.length
  | shape => readChild read shape

/-- Reads a value of a shape with `levels` nested calls to go, itself included. Where the schema has
a fault, a value of any kind is skipped and null comes instead. -/
def read (s : Schema) : Nat → Shape → Reading Value
  | levels, shape =>
    if (s.routineFault? .deserialize shape).isSome then do
      Scan.skipValue
      pure .null
    else match levels with
      | 0 => do
        Scan.skipWhitespace
        Scan.fail .depthLimit
      | levels + 1 => do
        Scan.skipWhitespace
        readValue s (read s levels) shape

section Simulation

variable {s : Schema} {table : List Routine} {call : RoutineId → Reading Value}
  {read : Shape → Reading Value} {shape : Shape} {operand : Operand}

/-- What stands for a fault is what a stub does. -/
theorem read_of_fault {e : ShapeError} (h : s.routineFault? .deserialize shape = some e)
    (levels : Nat) : Direct.read s levels shape = Machine.readInert := by
  unfold Direct.read
  rw [h]
  rfl

/-- Calls of the routines in the table do what `read` does. -/
def Reads (table : List Routine) (call : RoutineId → Reading Value)
    (read : Shape → Reading Value) : Prop :=
  ∀ id shape, Table.At table id shape .deserialize → call id = read shape

theorem readOperand_eq (hcall : Reads table call read)
    (hoperand : Operand.For s table .deserialize shape operand) :
    Machine.readOperand call operand = readChild read shape := by
  cases hoperand with
  | int => rfl
  | string => rfl
  | call hcomposite href hat =>
    rw [Machine.readOperand, hcall _ _ hat]
    cases shape <;> simp_all [readChild, Shape.isComposite]

theorem defaults_eq {properties : List Property} {fields : List Value}
    (h : List.Forall₂ (fun p field => s.defaultValue p.effectiveShape = .ok field)
      properties fields) : fields = defaults s properties := by
  induction h with
  | nil => rfl
  | cons hfield _ ih => simp [defaults, Generation.Progress.blankValue, hfield, ih]

/-- The plan of a field is for the property of the same name. -/
theorem find?_plan {properties : List Property} {members : List (String × Operand)}
    (hlaid : List.Forall₂ (Property.Laid s table .deserialize) properties members)
    (name : String) (offset : Nat) :
    Option.Rel (fun (f : FieldPlan) (entry : Property × Nat) => f.slot = entry.2 ∧
        Operand.For s table .deserialize entry.1.effectiveShape f.operand)
      ((members.mapIdx fun slot member => (⟨member.1, offset + slot, member.2⟩ : FieldPlan)).find?
        fun f => f.name = name)
      ((properties.zipIdx offset).find? fun entry => entry.1.name = name) := by
  induction hlaid generalizing offset with
  | nil => exact .none
  | @cons p member properties members hp hlaid ih =>
    have hrest := ih (offset + 1)
    simp only [List.mapIdx_cons, List.zipIdx_cons, List.find?_cons, Nat.add_zero, hp.1]
    by_cases hname : p.name = name
    · simp only [hname, decide_true]
      exact .some ⟨rfl, hp.2⟩
    · simp only [hname, decide_false]
      simpa only [Nat.add_assoc, Nat.add_comm 1] using hrest

theorem readMember_eq (hcall : Reads table call read) {properties : List Property}
    {members : List (String × Operand)}
    (hlaid : List.Forall₂ (Property.Laid s table .deserialize) properties members)
    (slots : List Value) :
    Machine.readMember call
        (members.mapIdx fun slot member => ⟨member.1, slot, member.2⟩) slots =
      readMember read properties slots := by
  unfold Machine.readMember readMember
  refine congrArg (Bind.bind _) (funext fun name => ?_)
  refine congrArg (Bind.bind _) (funext fun _ => ?_)
  refine congrArg (Bind.bind _) (funext fun _ => ?_)
  have hplan := find?_plan hlaid name 0
  simp only [Nat.zero_add] at hplan
  revert hplan
  generalize properties.zipIdx.find? _ = entry
  generalize List.find? _ (List.mapIdx _ _) = plan
  intro hplan
  cases hplan with
  | none => rfl
  | some hfield => simp only [hfield.1, readOperand_eq hcall hfield.2]

theorem readMembers_eq (hcall : Reads table call read) {properties : List Property}
    {members : List (String × Operand)}
    (hlaid : List.Forall₂ (Property.Laid s table .deserialize) properties members)
    (bound : Nat) (slots : List Value) :
    Machine.readMembers call
        (members.mapIdx fun slot member => ⟨member.1, slot, member.2⟩) bound slots =
      readMembers read properties bound slots := by
  induction bound generalizing slots with
  | zero => rfl
  | succ bound ih =>
    simp only [Machine.readMembers, readMembers, round, readMember_eq hcall hlaid, ih]

theorem readItems_eq (hcall : Reads table call read)
    (hoperand : Operand.For s table .deserialize shape operand) (bound : Nat) :
    Machine.readItems call operand bound = readItems read shape bound := by
  induction bound with
  | zero => rfl
  | succ bound ih =>
    simp only [Machine.readItems, readItems, round, readOperand_eq hcall hoperand, ih]

/-- The plan for a layout does what `readValue` does after whitespace. -/
theorem runPlan_eq (hcall : Reads table call read) {layout : Layout} {plan : ReadPlan}
    (hlayout : Layout.For s table .deserialize shape layout)
    (hplan : layout.readPlan s = .ok plan) :
    Machine.runPlan call plan = (do Scan.skipWhitespace; readValue s read shape) := by
  cases hlayout with
  | @scalar _ operand hscalar hoperand =>
    cases hplan
    rw [Machine.runPlan]
    refine congrArg (Bind.bind _) (funext fun _ => ?_)
    have hvalue : readValue s read shape = readChild read shape := by
      cases shape <;> simp_all [readValue, Shape.isComposite]
    simp only [readOperand_eq hcall hoperand, hvalue]
  | list hoperand =>
    cases hplan
    simp only [Machine.runPlan, readValue, readItems_eq hcall hoperand]
  | @object name nullable decl members hdecl hlaid =>
    cases hdefault : s.defaultValue (.object name false) with
    | error e => simp [Layout.readPlan, hdefault, bind, Except.bind] at hplan
    | ok value =>
      obtain ⟨_, fields, hdecl', rfl, hfields⟩ := Schema.defaultValue_object hdefault
      obtain rfl := Option.some.inj (hdecl.symm.trans hdecl')
      simp only [Layout.readPlan, hdefault, bind, Except.bind, Except.ok.injEq] at hplan
      subst hplan
      simp only [Machine.runPlan, readValue, readMembers_eq hcall hlaid,
        Schema.properties_of_type? hdecl, ← defaults_eq hfields]

/-- Running a faithful table is reading straight from the schema. -/
theorem readWithin_eq (hfaithful : ∀ r ∈ table, r.Faithful s table) (more : List Routine)
    (levels : Nat) :
    Reads table (Machine.readWithin ⟨table ++ more⟩ levels) (Direct.read s levels) := by
  induction levels with
  | zero =>
    intro id shape hat
    obtain ⟨r, hrun, hr, rfl, hdirection⟩ := routine_of_at hfaithful more hat
    unfold Machine.readWithin
    cases hfault : s.routineFault? .deserialize r.shape with
    | some e => simp only [hrun, hr.stub e (hdirection ▸ hfault), read_of_fault hfault]
    | none =>
      obtain ⟨layout, plan, -, -, hbody⟩ := hr.readCode hdirection hfault
      unfold Direct.read
      simp [hrun, hbody, hfault]
  | succ levels ih =>
    intro id shape hat
    obtain ⟨r, hrun, hr, rfl, hdirection⟩ := routine_of_at hfaithful more hat
    unfold Machine.readWithin
    cases hfault : s.routineFault? .deserialize r.shape with
    | some e => simp only [hrun, hr.stub e (hdirection ▸ hfault), read_of_fault hfault]
    | none =>
      obtain ⟨layout, plan, hlayout, hplan, hbody⟩ := hr.readCode hdirection hfault
      unfold Direct.read
      simp only [hrun, hbody, hfault, Option.isSome_none, Bool.false_eq_true, if_false]
      exact runPlan_eq ih hlayout hplan

end Simulation

end ShapeCodec.Direct
