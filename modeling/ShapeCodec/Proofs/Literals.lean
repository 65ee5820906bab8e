import ShapeCodec.Proofs.Running
import ShapeCodec.Routine.Literals
/-! Running blocks of write instructions: one block after the other, and blocks whose literals have
been merged. Merging changes neither the outcome of a block nor the text it leaves behind, an
unfinished one before an error included. It can be done to a whole table at once: calls reach merged
blocks only, at every level of nesting, and write what they wrote before. -/
namespace ShapeCodec

/-- The routine with the literals of its write code merged. -/
def Routine.mergeLiterals (r : Routine) : Routine :=
  match r.body with
  | .write code => { r with body := .write (WriteStep.mergeLiterals code) }
  | _ => r

namespace Machine

section Block

variable (call : RoutineId → Value → Writing Unit) (argument : Value)

theorem put_apply (a text : String) : put a text = .ok () (text ++ a) := rfl

theorem put_append (a b : String) : put (a ++ b) = (do put a; put b) := by
  funext text
  rw [Running.bind_of_ok (put_apply a text), put_apply, put_apply, String.append_assoc]

theorem put_empty : put "" = pure () := by
  funext text
  rw [put_apply, String.append_empty, Running.pure_apply]

theorem writeBlock_append (a b : List WriteStep) (item : Option Value) :
    writeBlock call argument (a ++ b) item = (do
      match ← writeBlock call argument a item with
      | .leave => pure .leave
      | .next => writeBlock call argument b item) := by
  induction a with
  | nil => simp [writeBlock]
  | cons instr rest ih =>
    simp only [List.cons_append, writeBlock, ih, bind_assoc]
    congr 1
    funext flow
    cases flow <;> simp

theorem writeBlock_prependLiteral (text : String) (code : List WriteStep) (item : Option Value) :
    writeBlock call argument (WriteStep.prependLiteral text code) item = (do
      put text
      writeBlock call argument code item) := by
  unfold WriteStep.prependLiteral
  split
  · next hempty =>
    rw [String.isEmpty_iff.1 hempty, put_empty, pure_bind]
  · split
    · simp [writeBlock, writeStep, put_append]
    · simp [writeBlock, writeStep]

mutual

theorem writeStep_mergeInside (instr : WriteStep) (item : Option Value) :
    writeStep call argument instr.mergeInside item = writeStep call argument instr item := by
  cases instr with
  | each list body separator terminator =>
    simp only [WriteStep.mergeInside, writeStep, writeBlock_mergeLiterals body]
  | _ => rfl

/-- Merging the literals of a block does not change what it does. -/
theorem writeBlock_mergeLiterals (code : List WriteStep) (item : Option Value) :
    writeBlock call argument (WriteStep.mergeLiterals code) item =
      writeBlock call argument code item := by
  cases code with
  | nil => rfl
  | cons instr rest =>
    have hrest := writeBlock_mergeLiterals rest item
    have hinstr := writeStep_mergeInside instr item
    cases instr with
    | literal text =>
      rw [WriteStep.mergeLiterals, writeBlock_prependLiteral, hrest]
      simp [writeBlock, writeStep]
    | _ => simp only [WriteStep.mergeLiterals, writeBlock, hinstr, hrest]

end

end Block

/-- The table in which every write routine has its literals merged. -/
def mergeLiterals (m : Machine) : Machine :=
  ⟨m.routines.map Routine.mergeLiterals⟩

theorem routine?_mergeLiterals (m : Machine) (id : RoutineId) :
    m.mergeLiterals.routine? id = (m.routine? id).map Routine.mergeLiterals :=
  List.getElem?_map ..

/-- Calls into the merged table write what the calls into the table itself write. -/
theorem writeWithin_mergeLiterals (m : Machine) (levels : Nat) :
    m.mergeLiterals.writeWithin levels = m.writeWithin levels := by
  induction levels with
  | zero =>
    funext id value
    unfold writeWithin
    rw [routine?_mergeLiterals]
    cases m.routine? id with
    | none => rfl
    | some r => rcases r with ⟨_, _, _, _, code | plan | cause⟩ <;> rfl
  | succ levels ih =>
    funext id value
    unfold writeWithin
    rw [routine?_mergeLiterals]
    cases m.routine? id with
    | none => rfl
    | some r =>
      rcases r with ⟨_, _, _, _, code | plan | cause⟩
      · simp only [Option.map_some, Routine.mergeLiterals, ih, writeBlock_mergeLiterals]
        rfl
      · rfl
      · rfl

/-- Merging literals preserves execution. On any table, at any depth and after any text, a merged
block ends like the block itself and leaves the same text, and a table whose write routines are all
merged writes every value as before. -/
theorem mergeLiterals_preserves (m : Machine) :
    (∀ (levels : Nat) (argument : Value) (code : List WriteStep) (item : Option Value)
      (text : String),
      writeBlock (m.writeWithin levels) argument (WriteStep.mergeLiterals code) item text =
        writeBlock (m.writeWithin levels) argument code item text) ∧
      ∀ (id : RoutineId) (value : Value) (text : String),
        m.mergeLiterals.write id value text = m.write id value text := by
  constructor
  · intro levels argument code item text
    rw [writeBlock_mergeLiterals]
  · intro id value text
    rw [write, write, writeWithin_mergeLiterals]

end Machine

end ShapeCodec
