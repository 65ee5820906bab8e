import ShapeCodec.Proofs.Checked.Scan
import ShapeCodec.Proofs.Code
/-! Writing with checks. A call has to find a routine in the table, and a source a value. In a table
that keeps to its schema a value is looked for only where the routine has accepted the argument, so
that both checks are passed whatever is written. -/
namespace ShapeCodec.Checked

/-- A step that adds to a text. -/
abbrev Output := EStateM Stop String

/-- The step with its failures as errors, and without traps. -/
def report {α : Type} (x : Writing α) : Output α := fun text =>
  match x text with
  | .ok a text => .ok a text
  | .error e text => .error (.error e) text

def put (text : String) : Output Unit :=
  modify (· ++ text)

/-- The value at a source has to be there. -/
def locate (source : ValueSource) (argument : Value) (item : Option Value) : Output Value :=
  match source.find argument item with
  | .ok value => pure value
  | .error _ => throw (.trap (.source source))

def writeItems (body : Value → Output Flow) (separator terminator : String) :
    List Value → Output Flow
  | [] => pure .next
  | item :: rest => do
    match ← body item with
    | .leave => pure .leave
    | .next =>
      put (if rest.isEmpty then terminator else separator)
      writeItems body separator terminator rest

section Block

variable (call : RoutineId → Value → Output Unit) (argument : Value)

mutual

def writeBlock : List WriteStep → Option Value → Output Flow
  | [], _ => pure .next
  | instr :: rest, item => do
    match ← writeStep instr item with
    | .leave => pure .leave
    | .next => writeBlock rest item

def writeStep : WriteStep → Option Value → Output Flow
  | .literal text, _ => do
    put text
    pure .next
  | .nullGuard source, item => do
    if (← locate source argument item).isNull then
      put (Wire.str none)
      pure .leave
    else pure .next
  | .int source, item => do
    match ← locate source argument item with
    | .int n =>
      put (Wire.int n)
      pure .next
    | other => throw (.error (.unexpected .int other))
  | .str source, item => do
    match ← locate source argument item with
    | .str text =>
      put (Wire.str (some text))
      pure .next
    | .null =>
      put (Wire.str none)
      pure .next
    | other => throw (.error (.unexpected .string other))
  | .call id source, item => do
    call id (← locate source argument item)
    pure .next
  | .each list body separator terminator, item => do
    match ← locate list argument item with
    | .list items =>
      writeItems (fun element => writeBlock body (some element)) separator terminator items
    | other => throw (.error (.unexpected .list other))

end

end Block

def writeWithin (m : Machine) : Nat → RoutineId → Value → Output Unit
  | levels, id, value =>
    match m.routine? id with
    | none => throw (.trap (.routine id))
    | some r =>
      match r.body with
      | .stub _ => pure ()
      | .read _ => throw (.error (.noEntry r.shape .serialize))
      | .write code =>
        match levels with
        | 0 => throw (.error (.depthLimit maxDepth))
        | levels + 1 => do
          report (liftM (r.accept value))
          discard (writeBlock (writeWithin m levels) value code none)

section Report

variable {α β : Type}

theorem report_pure (a : α) : report (pure a) = pure a := rfl

theorem report_put (text : String) : report (Machine.put text) = put text := rfl

theorem report_bind (x : Writing α) (f : α → Writing β) :
    report (x >>= f) = report x >>= fun a => report (f a) := by
  funext text
  simp only [report, Running.bind_apply]
  cases x text <;> rfl

theorem report_discard (x : Writing α) : report (discard x) = discard (report x) := by
  funext text
  simp only [report, Running.discard_eq_map, Running.map_apply]
  cases x text <;> rfl

end Report

/-- A use of a value that passes the checks: the value is there, inside the loop or outside, and the
routine that is called for it passes them as well. -/
structure Passes (checkedCall : RoutineId → Value → Output Unit)
    (call : RoutineId → Value → Writing Unit) (argument : Value) (looping : Bool) (use : Use) :
    Prop where
  find : ∀ item : Option Value, item.isSome = looping →
    ∃ value, use.source.find argument item = .ok value
  call : ∀ i source, use = .call i source → ∀ value, checkedCall i value = report (call i value)

section Run

variable {checkedCall : RoutineId → Value → Output Unit} {call : RoutineId → Value → Writing Unit}
  {argument : Value}

/-- A value that is there is found with the check as without it. -/
theorem bind_locate {α : Type} {source : ValueSource} {item : Option Value} {value : Value}
    {checked : Value → Output α} {x : Value → Writing α}
    (hfind : source.find argument item = .ok value) (h : checked value = report (x value)) :
    (locate source argument item >>= checked) =
      report (liftM (source.find argument item) >>= x) := by
  rw [locate, hfind]
  exact h

theorem writeItems_eq {checkedBody : Value → Output Flow} {body : Value → Writing Flow}
    (hbody : ∀ value, checkedBody value = report (body value)) (separator terminator : String)
    (items : List Value) : writeItems checkedBody separator terminator items =
      report (Machine.writeItems body separator terminator items) := by
  induction items with
  | nil => rfl
  | cons value values ih =>
    rw [writeItems, Machine.writeItems, report_bind, hbody]
    refine congrArg (Bind.bind _) (funext fun flow => ?_)
    cases flow with
    | leave => rfl
    | next => simp only [report_bind, report_put, ih]

mutual

theorem writeBlock_eq (looping : Bool) (item : Option Value) (hitem : item.isSome = looping)
    (code : List WriteStep) (h : ∀ l use, (l, use) ∈ WriteStep.uses looping code →
      Passes checkedCall call argument l use) :
    writeBlock checkedCall argument code item =
      report (Machine.writeBlock call argument code item) := by
  cases code with
  | nil => simp only [writeBlock, Machine.writeBlock, report_pure]
  | cons instr rest =>
    have hinstr := writeStep_eq looping item hitem instr
      fun l use hmem => h l use (List.mem_append_left _ hmem)
    have hrest := writeBlock_eq looping item hitem rest
      fun l use hmem => h l use (List.mem_append_right _ hmem)
    rw [writeBlock, Machine.writeBlock, report_bind, hinstr]
    refine congrArg (Bind.bind _) (funext fun flow => ?_)
    cases flow with
    | leave => rfl
    | next => exact hrest

/-- Where the uses of values pass the checks, the instruction does what it does without them. -/
theorem writeStep_eq (looping : Bool) (item : Option Value) (hitem : item.isSome = looping)
    (instr : WriteStep) (h : ∀ l use, (l, use) ∈ instr.usesInside looping →
      Passes checkedCall call argument l use) :
    writeStep checkedCall argument instr item =
      report (Machine.writeStep call argument instr item) := by
  cases instr with
  | literal text =>
    simp only [writeStep, Machine.writeStep, report_bind, report_put, report_pure]
  | nullGuard source =>
    obtain ⟨value, hfind⟩ := (h _ _ List.mem_cons_self).find item hitem
    rw [writeStep, Machine.writeStep]
    refine bind_locate hfind ?_
    cases value.isNull <;> rfl
  | int source =>
    obtain ⟨value, hfind⟩ := (h _ _ List.mem_cons_self).find item hitem
    rw [writeStep, Machine.writeStep]
    refine bind_locate hfind ?_
    cases value <;> rfl
  | str source =>
    obtain ⟨value, hfind⟩ := (h _ _ List.mem_cons_self).find item hitem
    rw [writeStep, Machine.writeStep]
    refine bind_locate hfind ?_
    cases value <;> rfl
  | call i source =>
    obtain ⟨hfinds, hcall⟩ := h _ _ List.mem_cons_self
    obtain ⟨value, hfind⟩ := hfinds item hitem
    rw [writeStep, Machine.writeStep]
    refine bind_locate hfind ?_
    rw [hcall i source rfl, report_bind]
    rfl
  | each list body separator terminator =>
    obtain ⟨value, hfind⟩ := (h _ _ List.mem_cons_self).find item hitem
    have hbody (element : Value) := writeBlock_eq true (some element) rfl body
      fun l use hmem => h l use (List.mem_cons_of_mem _ hmem)
    rw [writeStep, Machine.writeStep]
    refine bind_locate hfind ?_
    cases value with
    | list items => exact writeItems_eq hbody separator terminator items
    | _ => rfl

end

end Run

section Table

variable {s : Schema} {table : List Routine} {r : Routine} {shape : Shape} {name : String}
  {nullable : Bool} {count : Nat} {value : Value} {code : List WriteStep}
  {checkedCall : RoutineId → Value → Output Unit} {call : RoutineId → Value → Writing Unit}

/-- An accepted argument that is not null has the declared fields. -/
theorem record_of_accept (hshape : r.shape = .object name nullable)
    (hcount : r.fieldCount = some count) (haccept : r.accept value = .ok ())
    (hnull : value ≠ .null) : ∃ fields, value = .record name fields ∧ fields.length = count := by
  cases value with
  | null => exact absurd rfl hnull
  | record type fields =>
    simp only [Routine.accept, hshape, hcount] at haccept
    split at haccept
    · cases haccept
    next htype =>
      split at haccept
      · next hlength => exact ⟨fields, by rw [not_not.1 htype], hlength⟩
      · cases haccept
  | _ =>
    simp only [Routine.accept, hshape] at haccept
    cases haccept

theorem isNullable_of_accept (haccept : r.accept .null = .ok ()) : r.shape.isNullable = true := by
  simp only [Routine.accept] at haccept
  split at haccept
  · next hnullable => exact hnullable
  · cases haccept

theorem passes_of_accept (hwrites : r.WritesBy s table code)
    (hcount : r.fieldCount = Emitter.fieldCount? s r.shape)
    (haccept : r.accept value = .ok ()) (hnull : value = .null → r.shape.isComposite = false)
    (hcall : ∀ i shape, Table.At table i shape .serialize →
      ∀ value, checkedCall i value = report (call i value)) {l : Bool} {use : Use}
    (hmem : (l, use) ∈ WriteStep.uses false code) : Passes checkedCall call value l use := by
  constructor
  · intro item hitem
    cases hsource : use.source with
    | arg => exact ⟨value, rfl⟩
    | element =>
      rw [hwrites.element l use hmem hsource] at hitem
      obtain ⟨element, rfl⟩ := Option.isSome_iff_exists.1 hitem
      exact ⟨element, rfl⟩
    | field slot =>
      obtain ⟨count, hfieldCount, hslot⟩ := hwrites.field l use slot hmem hsource
      cases hshape : r.shape with
      | object name nullable =>
        have hvalue : value ≠ .null := by
          rintro rfl
          simp [hshape, Shape.isComposite] at hnull
        obtain ⟨fields, rfl, rfl⟩ := record_of_accept hshape hfieldCount haccept hvalue
        exact ⟨fields[slot], by simp [ValueSource.find, hslot]⟩
      | _ => simp [hcount, hshape, Emitter.fieldCount?] at hfieldCount
  · rintro i source rfl
    obtain ⟨child, -, hat⟩ := hwrites.call l i source hmem
    exact hcall i child hat

/-- The code of a routine passes the checks with every accepted argument. Null is left to the guard,
where nothing else is looked at. -/
theorem writeBlock_of_accept (hwrites : r.WritesBy s table code)
    (hcount : r.fieldCount = Emitter.fieldCount? s r.shape) (haccept : r.accept value = .ok ())
    (hcall : ∀ i shape, Table.At table i shape .serialize →
      ∀ value, checkedCall i value = report (call i value)) :
    writeBlock checkedCall value code none =
      report (Machine.writeBlock call value code none) := by
  by_cases hguarded : value = .null ∧ r.shape.isComposite = true
  · obtain ⟨rfl, hcomposite⟩ := hguarded
    obtain ⟨body, hcode, -⟩ := hwrites.guard
    rw [hcode, hcomposite, isNullable_of_accept haccept]
    rfl
  · have hnull : value = .null → r.shape.isComposite = false := by simpa using hguarded
    exact writeBlock_eq false none rfl code
      fun l use hmem => passes_of_accept hwrites hcount haccept hnull hcall hmem

/-- A faithful table is written through without running into a trap. -/
theorem writeWithin_eq (hfaithful : ∀ r ∈ table, r.Faithful s table) (more : List Routine)
    (levels : Nat) {i : RoutineId} (hat : Table.At table i shape .serialize) (value : Value) :
    writeWithin ⟨table ++ more⟩ levels i value =
      report (Machine.writeWithin ⟨table ++ more⟩ levels i value) := by
  induction levels using Nat.strongRecOn generalizing i shape value with
  | ind levels ih =>
    obtain ⟨r, hrun, hr, rfl, hdirection⟩ := routine_of_at hfaithful more hat
    unfold writeWithin Machine.writeWithin
    simp only [hrun]
    cases hfault : s.routineFault? .serialize r.shape with
    | some e =>
      rw [hr.stub e (hdirection ▸ hfault)]
      rfl
    | none =>
      obtain ⟨layout, hlayout, hbody⟩ := hr.writeCode hdirection hfault
      have hwrites := hlayout.writesBy hdirection hr.fieldCount
      rw [hbody]
      cases levels with
      | zero => rfl
      | succ levels =>
        simp only [report_bind, report_discard]
        cases haccept : r.accept value with
        | error e => rfl
        | ok =>
          have hcall (i : RoutineId) (shape : Shape) (hat : Table.At table i shape .serialize) :=
            ih levels (Nat.lt_succ_self levels) hat
          rw [writeBlock_of_accept hwrites hr.fieldCount haccept hcall]

end Table

end ShapeCodec.Checked
