import ShapeCodec.Proofs.Checked.Skipping
import ShapeCodec.Proofs.Code
/-! Reading with checks. A call has to find a routine in the table, and a value that is read a slot
in its record. A table that keeps to its schema passes both checks on every text, and reading comes
out as it does without them. -/
namespace ShapeCodec.Checked

section Plan

variable (text : List Char) (call : RoutineId → Step Value)

def readOperand (operand : Operand) : Step Value := do
  skipWhitespace text
  match operand with
  | .int => if ← tryWord text nullWord then pure (.int 0) else .int <$> readInt text
  | .str => if ← tryWord text nullWord then pure .null else .str <$> readString text
  | .call id => call id

def setSlot (slots : List Value) (slot : Nat) (value : Value) : Step (List Value) :=
  if slot < slots.length then pure (slots.set slot value) else throw (.trap (.slot slot))

def readMember (fields : List FieldPlan) (slots : List Value) : Step (List Value) := do
  let name ← readString text
  skipWhitespace text
  expect text ':'
  match fields.find? fun f => f.name = name with
  | some f => readOperand text call f.operand >>= setSlot slots f.slot
  | none =>
    skipValue text
    pure slots

def readMembers (fields : List FieldPlan) : Nat → List Value → Step (List Value)
  | 0, _ => fail (.contentOr '\x7d')
  | bound + 1, slots => do
    skipWhitespace text
    if ← isExhausted text then fail (.contentOr '\x7d')
    else if ← tryChar text '\x7d' then pure slots
    else
      let slots ← readMember text call fields slots
      skipWhitespace text
      discard (tryChar text ',')
      readMembers fields bound slots

def readItems (element : Operand) : Nat → Step (List Value)
  | 0 => fail (.contentOr ']')
  | bound + 1 => do
    skipWhitespace text
    if ← isExhausted text then fail (.contentOr ']')
    else if ← tryChar text ']' then pure []
    else
      let item ← readOperand text call element
      skipWhitespace text
      discard (tryChar text ',')
      (item :: ·) <$> readItems element bound

def runPlan (plan : ReadPlan) : Step Value := do
  skipWhitespace text
  match plan with
  | .scalar operand => readOperand text call operand
  | .object type nullable fields defaults =>
    if ← tryWord text nullWord then pure (if nullable then .null else .record type defaults)
    else
      expect text '\x7b'
      let more ← rest text
      .record type <$> readMembers text call fields more.length defaults
  | .list nullable element =>
    if ← tryWord text nullWord then pure (if nullable then .null else .list [])
    else
      expect text '['
      let more ← rest text
      .list <$> readItems text call element more.length

end Plan

def readInert (text : List Char) : Step Value := do
  skipValue text
  pure .null

def readWithin (text : List Char) (m : Machine) : Nat → RoutineId → Step Value
  | levels, id =>
    match m.routine? id with
    | none => throw (.trap (.routine id))
    | some r =>
      match r.body with
      | .stub _ => readInert text
      | .write _ => throw (.error (.noEntry r.shape .deserialize))
      | .read plan =>
        match levels with
        | 0 => do
          skipWhitespace text
          fail .depthLimit
        | levels + 1 => runPlan text (readWithin text m levels) plan

/-- The calls of a plan go where they may, and its slots are in the record. -/
inductive Keeps (callable : RoutineId → Prop) : ReadPlan → Prop
  | scalar {operand} : (∀ id, operand = .call id → callable id) → Keeps callable (.scalar operand)
  | object {type nullable fields defaults} :
      (∀ f ∈ fields, ∀ id, f.operand = .call id → callable id) →
      (∀ f ∈ fields, f.slot < defaults.length) →
      Keeps callable (.object type nullable fields defaults)
  | list {nullable element} : (∀ id, element = .call id → callable id) →
      Keeps callable (.list nullable element)

section Run

variable {text : List Char} {checkedCall : RoutineId → Step Value}
  {call : RoutineId → Reading Value} {operand : Operand} {fields : List FieldPlan}
  {slots : List Value} {callable : RoutineId → Prop}

theorem mirrors_readOperand
    (hcall : ∀ i, operand = .call i → Mirrors text id (checkedCall i) (call i)) :
    Mirrors text id (readOperand text checkedCall operand) (Machine.readOperand call operand) := by
  apply mirrors_skipWhitespace.lift.bind
  intro _
  cases operand with
  | int =>
    apply (mirrors_tryWord nullWord).lift.bind
    intro _
    exact .ite (mirrors_pure _) (mirrors_readInt.lift.map _)
  | str =>
    apply (mirrors_tryWord nullWord).lift.bind
    intro _
    exact .ite (mirrors_pure _) (mirrors_readString.lift.map _)
  | call i => exact hcall i rfl

theorem mirrors_setSlot {slot : Nat} (h : slot < slots.length) {checked : Step Value}
    {x : Reading Value} (hx : Mirrors text id checked x) :
    Mirrors text id (checked >>= setSlot slots slot) (slots.set slot <$> x) := by
  rw [map_eq_pure_bind]
  apply hx.bind
  intro value
  rw [setSlot, if_pos h]
  exact mirrors_pure _

/-- The checks of the members of an object with these slots are passed. -/
structure Members (text : List Char) (checkedCall : RoutineId → Step Value)
    (call : RoutineId → Reading Value) (fields : List FieldPlan) (slots : List Value) : Prop where
  call : ∀ f ∈ fields, ∀ i, f.operand = .call i → Mirrors text id (checkedCall i) (call i)
  slot : ∀ f ∈ fields, f.slot < slots.length

theorem mirrors_readMember (h : Members text checkedCall call fields slots) :
    Mirrors text id (readMember text checkedCall fields slots)
      (Machine.readMember call fields slots) := by
  apply mirrors_readString.lift.bind
  intro name
  apply mirrors_skipWhitespace.lift.bind
  intro _
  apply (mirrors_expect (by decide)).lift.bind
  intro _
  cases hfind : fields.find? fun f => f.name = name with
  | none =>
    apply mirrors_skipValue.lift.bind
    intro _
    exact mirrors_pure slots
  | some f =>
    have hf := List.mem_of_find?_eq_some hfind
    exact mirrors_setSlot (h.slot f hf) (mirrors_readOperand (h.call f hf))

/-- A member changes what is in the slots, not their number. -/
theorem length_of_readMember {c c' : Cursor} {slots' : List Value}
    (h : Machine.readMember call fields slots c = .ok slots' c') :
    slots'.length = slots.length := by
  obtain ⟨name, _, -, h⟩ := Running.bind_eq_ok_iff.1 h
  obtain ⟨_, _, -, h⟩ := Running.bind_eq_ok_iff.1 h
  obtain ⟨_, _, -, h⟩ := Running.bind_eq_ok_iff.1 h
  cases hfind : fields.find? fun f => f.name = name with
  | none =>
    simp only [hfind] at h
    obtain ⟨_, _, -, h⟩ := Running.bind_eq_ok_iff.1 h
    cases h
    rfl
  | some f =>
    simp only [hfind] at h
    obtain ⟨value, -, rfl⟩ := Running.map_eq_ok_iff.1 h
    exact List.length_set

theorem mirrors_exhausted {α : Type} {checked checked' : Step α} {x x' : Reading α}
    (h : Mirrors text id checked x) (h' : Mirrors text id checked' x') :
    Mirrors text id (do if ← isExhausted text then checked else checked')
      (do if (← (get : Reading Cursor)).isExhausted then x else x') := by
  intro c hc
  rw [Running.bind_of_ok (isExhausted_eq hc), Running.bind_of_ok (Running.get_apply c)]
  exact h.ite h' c hc

theorem mirrors_readMembers (h : Members text checkedCall call fields slots) (bound : Nat) :
    Mirrors text id (readMembers text checkedCall fields bound slots)
      (Machine.readMembers call fields bound slots) := by
  induction bound generalizing slots with
  | zero => exact (mirrors_fail _).lift
  | succ bound ih =>
    apply mirrors_skipWhitespace.lift.bind
    intro _
    apply mirrors_exhausted (mirrors_fail _).lift
    apply (mirrors_tryChar (by decide)).lift.bind
    intro _
    apply Mirrors.ite (mirrors_pure slots)
    intro c hc
    apply (mirrors_readMember h c hc).bind
    intro slots' c' hrun
    have hnext : Members text checkedCall call fields slots' := by
      refine ⟨h.call, fun f hf => ?_⟩
      rw [length_of_readMember hrun]
      exact h.slot f hf
    refine Mirrors.bind mirrors_skipWhitespace.lift (fun _ => ?_) c'
    apply (mirrors_tryChar (by decide)).lift.discard.bind
    intro _
    exact ih hnext

theorem mirrors_readItems
    (hcall : ∀ i, operand = .call i → Mirrors text id (checkedCall i) (call i)) (bound : Nat) :
    Mirrors text id (readItems text checkedCall operand bound)
      (Machine.readItems call operand bound) := by
  induction bound with
  | zero => exact (mirrors_fail _).lift
  | succ bound ih =>
    apply mirrors_skipWhitespace.lift.bind
    intro _
    apply mirrors_exhausted (mirrors_fail _).lift
    apply (mirrors_tryChar (by decide)).lift.bind
    intro _
    apply Mirrors.ite (mirrors_pure [])
    apply (mirrors_readOperand hcall).bind
    intro item
    apply mirrors_skipWhitespace.lift.bind
    intro _
    apply (mirrors_tryChar (by decide)).lift.discard.bind
    intro _
    exact ih.map _

/-- The text from here on is the same on both sides. -/
theorem mirrors_rest {α : Type} {checked : List Char → Step α} {x : Cursor → Reading α}
    (h : ∀ c, c.In text → Mirrors text id (checked c.rest) (x c)) :
    Mirrors text id (rest text >>= checked) (get >>= x) := by
  intro c hc
  rw [Running.bind_of_ok (rest_eq hc), Running.bind_of_ok (Running.get_apply c)]
  exact h c hc c hc

theorem mirrors_runPlan {plan : ReadPlan} (hplan : Keeps callable plan)
    (hcall : ∀ i, callable i → Mirrors text id (checkedCall i) (call i)) :
    Mirrors text id (runPlan text checkedCall plan) (Machine.runPlan call plan) := by
  apply mirrors_skipWhitespace.lift.bind
  intro _
  cases hplan with
  | scalar hoperand => exact mirrors_readOperand fun i hi => hcall i (hoperand i hi)
  | object hoperands hslots =>
    apply (mirrors_tryWord nullWord).lift.bind
    intro _
    apply Mirrors.ite (mirrors_pure _)
    apply (mirrors_expect (by decide)).lift.bind
    intro _
    apply mirrors_rest
    intro c hc
    have hmembers := mirrors_readMembers
      ⟨fun f hf i hi => hcall i (hoperands f hf i hi), hslots⟩ c.rest.length
    exact hmembers.map _
  | list helement =>
    apply (mirrors_tryWord nullWord).lift.bind
    intro _
    apply Mirrors.ite (mirrors_pure _)
    apply (mirrors_expect (by decide)).lift.bind
    intro _
    apply mirrors_rest
    intro c hc
    exact (mirrors_readItems (fun i hi => hcall i (helement i hi)) c.rest.length).map _

theorem mirrors_readInert : Mirrors text id (readInert text) Machine.readInert := by
  apply mirrors_skipValue.lift.bind
  intro _
  exact mirrors_pure Value.null

/-- Where plans call only what may be called, no run meets a trap that begins with such a call. -/
theorem mirrors_readWithin_of_keeps {m : Machine} (hkeeps : ∀ i, callable i →
      ∃ r, m.routine? i = some r ∧ ∀ plan, r.body = .read plan → Keeps callable plan)
    (levels : Nat) {i : RoutineId} (hi : callable i) :
    Mirrors text id (readWithin text m levels i) (m.readWithin levels i) := by
  induction levels using Nat.strongRecOn generalizing i with
  | ind levels ih =>
    obtain ⟨r, hr, hplan⟩ := hkeeps i hi
    unfold readWithin Machine.readWithin
    simp only [hr]
    cases hbody : r.body with
    | stub => exact mirrors_readInert
    | write => exact fun c hc => .error hc (Nat.le_refl _) nofun
    | read plan =>
      cases levels with
      | zero =>
        apply mirrors_skipWhitespace.lift.bind
        intro _
        exact (mirrors_fail .depthLimit).lift
      | succ levels =>
        apply mirrors_runPlan (hplan plan hbody)
        exact fun i hi => ih levels (Nat.lt_succ_self levels) hi

end Run

section Table

variable {s : Schema} {table : List Routine} {r : Routine} {plan : ReadPlan} {shape : Shape}

/-- A plan that keeps to its shape calls into the table only. -/
theorem keeps_of_readsBy (h : r.ReadsBy s table plan) :
    Keeps (fun i => ∃ shape, Table.At table i shape .deserialize) plan := by
  cases h with
  | scalar _ _ hcall => exact .scalar fun i hi => absurd hi (hcall i)
  | list _ _ htargets => exact .list fun i hi => ⟨_, htargets i hi⟩
  | @object name nullable decl fields defaults _ _ _ _ hfields hslots hdefaults =>
    refine .object (fun f hf i hi => ?_) fun f hf => ?_
    · obtain ⟨slot, hslot⟩ := List.mem_iff_getElem?.1 hf
      obtain ⟨p, -, hp⟩ := getElem?_of_forall₂ hfields.flip hslot
      exact ⟨_, hp.2 i hi⟩
    · have hslot := List.mem_map_of_mem (f := FieldPlan.slot) hf
      rw [hslots, List.mem_range] at hslot
      rwa [hdefaults]

/-- A faithful table is read through without running into a trap. -/
theorem mirrors_readWithin {text : List Char} (hfaithful : ∀ r ∈ table, r.Faithful s table)
    (more : List Routine) (levels : Nat) {i : RoutineId}
    (hat : Table.At table i shape .deserialize) :
    Mirrors text id (readWithin text ⟨table ++ more⟩ levels i)
      (Machine.readWithin ⟨table ++ more⟩ levels i) := by
  have hkeeps (i : RoutineId) (hi : ∃ shape, Table.At table i shape .deserialize) :
      ∃ r, (⟨table ++ more⟩ : Machine).routine? i = some r ∧ ∀ plan, r.body = .read plan →
        Keeps (fun i => ∃ shape, Table.At table i shape .deserialize) plan := by
    obtain ⟨shape, hat⟩ := hi
    obtain ⟨r, hrun, hr, rfl, hdirection⟩ := routine_of_at hfaithful more hat
    refine ⟨r, hrun, fun plan hbody => ?_⟩
    cases hfault : s.routineFault? .deserialize r.shape with
    | some e =>
      rw [hr.stub e (hdirection ▸ hfault)] at hbody
      cases hbody
    | none =>
      obtain ⟨layout, plan', hlayout, hplan, hbody'⟩ := hr.readCode hdirection hfault
      cases hbody.symm.trans hbody'
      exact keeps_of_readsBy (hlayout.readsBy hdirection hr.fieldCount hplan)
  exact mirrors_readWithin_of_keeps hkeeps levels ⟨shape, hat⟩

end Table

end ShapeCodec.Checked
