import ShapeCodec.Proofs.Advance
import ShapeCodec.Proofs.Checked.Read
/-! Reading step by step. The routines that have been called and are not done stand on a stack, and
the loops go on for as long as they find entries: neither the rounds of a loop nor the steps of a
run are counted anywhere. A call outside the table and a slot outside its record cut a run short.
In a table whose calls and slots are in range there are none, and every run comes to the end that
`read` tells: the levels and the bounds of its loops are never used up where a run would go on. -/
namespace ShapeCodec.Machine

/-- A routine in the middle of its plan, waiting for the value of an operand. -/
inductive Frame where
  | scalar
  /-- The value goes to a slot of the record. -/
  | member (type : String) (fields : List FieldPlan) (slots : List Value) (slot : Nat)
  /-- The value goes behind the items that there are. -/
  | item (element : Operand) (items : List Value)

/-- What is to be done next. -/
inductive Task where
  | call (id : RoutineId)
  | operand (operand : Operand)
  /-- The next round of an object, with the slots as they are. -/
  | members (type : String) (fields : List FieldPlan) (slots : List Value)
  /-- The next round of a list, with the items so far. -/
  | items (element : Operand) (items : List Value)
  /-- A value for the innermost of the routines that wait. -/
  | answer (v : Value)

/-- What a step comes to if the text does not make it fail. -/
inductive Next where
  | go (task : Task) (frames : List Frame)
  | done (v : Value)
  | trap (trap : Checked.Trap)

section Perform

variable (frames : List Frame)

/-- Behind an entry and its optional comma the loop goes on. -/
def goOn (task : Task) : Reading Next := do
  Scan.skipWhitespace
  discard (Scan.tryChar ',')
  pure (.go task frames)

/-- A round ends the loop at its bracket, or begins with an entry. -/
def performRound (close : Char) (v : Value) (entry : Reading Next) : Reading Next := do
  Scan.skipWhitespace
  if (← get).isExhausted then Scan.fail (.contentOr close)
  else if ← Scan.tryChar close then pure (.go (.answer v) frames)
  else entry

def performMember (type : String) (fields : List FieldPlan) (slots : List Value) :
    Reading Next := do
  let name ← Scan.readString
  Scan.skipWhitespace
  Scan.expect ':'
  match fields.find? fun f => f.name = name with
  | some f => pure (.go (.operand f.operand) (.member type fields slots f.slot :: frames))
  | none =>
    Scan.skipValue
    goOn frames (.members type fields slots)

def performOperand (operand : Operand) : Reading Next := do
  Scan.skipWhitespace
  match operand with
  | .int =>
    if ← Scan.tryNull then pure (.go (.answer (.int 0)) frames)
    else (fun n => .go (.answer (.int n)) frames) <$> Scan.readInt
  | .str =>
    if ← Scan.tryNull then pure (.go (.answer .null) frames)
    else (fun text => .go (.answer (.str text)) frames) <$> Scan.readString
  | .call id => pure (.go (.call id) frames)

def performPlan (plan : ReadPlan) : Reading Next := do
  Scan.skipWhitespace
  match plan with
  | .scalar operand => pure (.go (.operand operand) (.scalar :: frames))
  | .object type nullable fields defaults =>
    if ← Scan.tryNull then
      pure (.go (.answer (if nullable then .null else .record type defaults)) frames)
    else
      Scan.expect '\x7b'
      pure (.go (.members type fields defaults) frames)
  | .list nullable element =>
    if ← Scan.tryNull then pure (.go (.answer (if nullable then .null else .list [])) frames)
    else
      Scan.expect '['
      pure (.go (.items element []) frames)

/-- A plan is begun only if there are not too many routines in the middle of theirs. -/
def performCall (m : Machine) (id : RoutineId) : Reading Next :=
  match m.routine? id with
  | none => pure (.trap (.routine id))
  | some r =>
    match r.body with
    | .stub _ => do
      Scan.skipValue
      pure (.go (.answer .null) frames)
    | .write _ => throw (.noEntry r.shape .deserialize)
    | .read plan =>
      if frames.length < maxDepth then performPlan frames plan
      else do
        Scan.skipWhitespace
        Scan.fail .depthLimit

end Perform

/-- Hands a value to the routine that waits for it. -/
def performAnswer (v : Value) : List Frame → Reading Next
  | [] => pure (.done v)
  | .scalar :: frames => pure (.go (.answer v) frames)
  | .member type fields slots slot :: frames =>
    if slot < slots.length then goOn frames (.members type fields (slots.set slot v))
    else pure (.trap (.slot slot))
  | .item element items :: frames => goOn frames (.items element (items ++ [v]))

/-- One step. -/
def perform (m : Machine) (frames : List Frame) : Task → Reading Next
  | .call id => performCall frames m id
  | .operand operand => performOperand frames operand
  | .members type fields slots =>
    performRound frames '\x7d' (.record type slots) (performMember frames type fields slots)
  | .items element items =>
    performRound frames ']' (.list items)
      (pure (.go (.operand element) (.item element items :: frames)))
  | .answer v => performAnswer v frames

/-- Where a run stands between two steps. -/
structure State where
  task : Task
  frames : List Frame
  cursor : Cursor

/-- So many steps lead from one state to another. -/
inductive Runs (m : Machine) : Nat → State → State → Prop
  | here {s} : Runs m 0 s s
  | step {n frames task c frames' task' c' s} :
      m.perform frames task c = .ok (.go task' frames') c' → Runs m n ⟨task', frames', c'⟩ s →
      Runs m (n + 1) ⟨task, frames, c⟩ s

/-- The calls and slots of the table are in range. -/
def InRange (m : Machine) : Prop :=
  ∀ r ∈ m.routines, ∀ plan, r.body = .read plan →
    Checked.Keeps (fun id => id.index < m.routines.length) plan

section Run

variable {m : Machine} {s s' s'' : State} {frames frames' : List Frame} {task task' : Task}
  {c c' : Cursor} {n k : Nat}

theorem Runs.trans (h : Runs m n s s') (h' : Runs m k s' s'') : Runs m (n + k) s s'' := by
  induction h with
  | here => rwa [Nat.zero_add]
  | step hstep _ ih =>
    rw [Nat.add_right_comm]
    exact .step hstep (ih h')

/-- A run from the state hands the result to the frames, or ends with its error. -/
def Delivers (m : Machine) (s : State) (frames : List Frame) :
    EStateM.Result CodecError Cursor Value → Prop
  | .ok v c => ∃ n, Runs m n s ⟨.answer v, frames, c⟩
  | .error e c => ∃ n s', Runs m n s s' ∧ m.perform s'.frames s'.task s'.cursor = .error e c

/-- The outcome of a step leads to the result. -/
def LeadsTo (m : Machine) (frames : List Frame) :
    EStateM.Result CodecError Cursor Next → EStateM.Result CodecError Cursor Value → Prop
  | .ok (.go task frames') c, result => Delivers m ⟨task, frames', c⟩ frames result
  | .ok _ _, _ => False
  | .error e c, result => result = .error e c

variable {α β : Type} {g : Value → Reading Value}
  {result : EStateM.Result CodecError Cursor Value}

theorem delivers_answer (v : Value) (frames : List Frame) (c : Cursor) :
    Delivers m ⟨.answer v, frames, c⟩ frames (.ok v c) :=
  ⟨0, .here⟩

theorem Runs.delivers (h : Runs m n s s') (h' : Delivers m s' frames result) :
    Delivers m s frames result := by
  cases result with
  | ok v c =>
    obtain ⟨k, hrun⟩ := h'
    exact ⟨n + k, h.trans hrun⟩
  | error e c =>
    obtain ⟨k, last, hrun, herror⟩ := h'
    exact ⟨n + k, last, h.trans hrun, herror⟩

theorem LeadsTo.delivers (h : LeadsTo m frames' (m.perform frames task c) result) :
    Delivers m ⟨task, frames, c⟩ frames' result := by
  cases hstep : m.perform frames task c with
  | ok next c' =>
    rw [hstep] at h
    cases next with
    | go task' frames'' => exact (Runs.step hstep .here).delivers h
    | done v => exact h.elim
    | trap t => exact h.elim
  | error e c' =>
    rw [hstep] at h
    obtain rfl : result = .error e c' := h
    exact ⟨0, _, .here, hstep⟩

/-- What is done with a value comes after the run that delivers it. -/
theorem Delivers.bind {frame : Frame} {x : Reading Value}
    (h : Delivers m s (frame :: frames) (x c))
    (hnext : ∀ v c', x c = .ok v c' →
      Delivers m ⟨.answer v, frame :: frames, c'⟩ frames (g v c')) :
    Delivers m s frames ((x >>= g) c) := by
  cases hx : x c with
  | ok v c' =>
    rw [hx] at h
    obtain ⟨n, hrun⟩ := h
    rw [Running.bind_of_ok hx]
    exact hrun.delivers (hnext v c' hx)
  | error e c' =>
    rw [hx] at h
    rw [Running.bind_of_error hx]
    exact h

theorem leadsTo_bind {x : Reading α} {f : α → Reading Next} {g : α → Reading Value}
    (h : ∀ a c', x c = .ok a c' → LeadsTo m frames (f a c') (g a c')) :
    LeadsTo m frames ((x >>= f) c) ((x >>= g) c) := by
  cases hx : x c with
  | ok a c' =>
    rw [Running.bind_of_ok hx, Running.bind_of_ok hx]
    exact h a c' hx
  | error e c' =>
    rw [Running.bind_of_error hx, Running.bind_of_error hx]
    rfl

theorem leadsTo_map (x : Reading α) (g : α → Value) :
    LeadsTo m frames (((fun a => Next.go (.answer (g a)) frames) <$> x) c) ((g <$> x) c) := by
  rw [map_eq_pure_bind, map_eq_pure_bind]
  exact leadsTo_bind fun a c' _ => delivers_answer (g a) frames c'

theorem leadsTo_orWord {word : List Char} {v : Value} {other : Reading Next}
    {other' : Reading Value} (h : LeadsTo m frames (other c) (other' c)) :
    LeadsTo m frames
      ((do if ← Scan.tryWord word then pure (.go (.answer v) frames) else other : Reading Next) c)
      ((do if ← Scan.tryWord word then pure v else other' : Reading Value) c) := by
  refine leadsTo_bind fun found c' hfound => ?_
  rcases tryWord_eq_ok (eq_ok_of_lift hfound) with ⟨rfl, -⟩ | ⟨rfl, rfl, -⟩
  · exact delivers_answer v frames c'
  · exact h

theorem leadsTo_round {close : Char} {v : Value} {entry' : Reading Next} {entry : Reading β}
    {next : β → Reading Value}
    (h : ∀ c', c'.rest.length ≤ c.rest.length → LeadsTo m frames (entry' c')
      ((do
        let b ← entry
        Scan.skipWhitespace
        discard (Scan.tryChar ',')
        next b : Reading Value) c')) :
    LeadsTo m frames (performRound frames close v entry' c)
      (Direct.round close v entry next c) := by
  refine leadsTo_bind fun _ opened hopened => ?_
  obtain ⟨_, rfl, hleft⟩ := advances_skipWhitespace.left hopened
  refine leadsTo_bind fun _ _ hget => ?_
  cases hget
  split
  · rfl
  · exact leadsTo_orWord (h opened hleft)

theorem leadsTo_goOn {next : Reading Value}
    (h : ∀ c', c'.rest.length ≤ c.rest.length → Delivers m ⟨task, frames, c'⟩ frames (next c')) :
    LeadsTo m frames (goOn frames task c)
      ((do
        Scan.skipWhitespace
        discard (Scan.tryChar ',')
        next : Reading Value) c) := by
  refine leadsTo_bind fun _ blank hblank => ?_
  obtain ⟨_, rfl, hleft⟩ := advances_skipWhitespace.left hblank
  refine leadsTo_bind fun _ comma hcomma => ?_
  obtain ⟨_, rfl, hleft'⟩ := advances_comma.left hcomma
  exact h comma (Nat.le_trans hleft' hleft)

/-- Where the text is at its end, so is the loop. -/
theorem leadsTo_exhausted {close : Char} {v : Value} {entry : Reading Next}
    (h : c.rest = []) : LeadsTo m frames (performRound frames close v entry c)
      ((liftM (Scan.fail (.contentOr close)) : Reading Value) c) := by
  obtain ⟨offset, rest⟩ := c
  obtain rfl : rest = [] := h
  rfl

/-- With so many levels to go, a call of a routine in the table delivers what it reads. -/
def Serves (m : Machine) (levels : Nat) (frames : List Frame) : Prop :=
  ∀ id c, id.index < m.routines.length →
    Delivers m ⟨.call id, frames, c⟩ frames (m.readWithin levels id c)

section Plan

variable {levels bound : Nat} {operand : Operand} {fields : List FieldPlan} {slots : List Value}
  {type : String}

theorem delivers_operand (hcall : Serves m levels frames)
    (hoperand : ∀ id, operand = .call id → id.index < m.routines.length) (c : Cursor) :
    Delivers m ⟨.operand operand, frames, c⟩ frames
      (readOperand (m.readWithin levels) operand c) := by
  refine LeadsTo.delivers (leadsTo_bind fun _ c' _ => ?_)
  cases operand with
  | int => exact leadsTo_orWord (leadsTo_map _ Value.int)
  | str => exact leadsTo_orWord (leadsTo_map _ Value.str)
  | call id => exact hcall id c' (hoperand id rfl)

theorem map_round {γ : Type} (h : γ → Value) (close : Char) (finish : γ) (entry : Reading β)
    (next : β → Reading γ) : h <$> Direct.round close finish entry next =
      Direct.round close (h finish) entry fun b => h <$> next b := by
  simp only [Direct.round, map_bind, apply_ite (h <$> ·), map_pure]
  rfl

/-- An entry takes up input, so a round leaves less than there was, and a bound that was not too low
is not too low for the rounds behind it. -/
theorem delivers_members (hcall : ∀ frame, Serves m levels (frame :: frames))
    (hfields : ∀ f ∈ fields, ∀ id, f.operand = .call id → id.index < m.routines.length)
    (hslots : ∀ f ∈ fields, f.slot < slots.length) (hbound : c.rest.length ≤ bound) :
    Delivers m ⟨.members type fields slots, frames, c⟩ frames
      ((Value.record type <$> readMembers (m.readWithin levels) fields bound slots) c) := by
  induction bound generalizing slots c with
  | zero => exact LeadsTo.delivers (leadsTo_exhausted (List.length_eq_zero_iff.1 (by omega)))
  | succ bound ih =>
    have hround : Value.record type <$> readMembers (m.readWithin levels) fields (bound + 1) slots =
        Direct.round '\x7d' (.record type slots) (readMember (m.readWithin levels) fields slots)
          fun slots => Value.record type <$> readMembers (m.readWithin levels) fields bound slots :=
      map_round _ _ _ _ _
    rw [hround]
    refine LeadsTo.delivers (leadsTo_round fun c hc => ?_)
    rw [readMember]
    simp only [bind_assoc]
    refine leadsTo_bind fun name behind hname => ?_
    obtain ⟨_, rfl, hname⟩ := delimits_readString.lift.lexes.advances.left hname
    refine leadsTo_bind fun _ blank hblank => ?_
    obtain ⟨_, rfl, hblank⟩ := advances_skipWhitespace.left hblank
    refine leadsTo_bind fun _ colon hcolon => ?_
    obtain ⟨_, rfl, hcolon⟩ := (advances_expect ':').left hcolon
    cases hfind : fields.find? fun f => f.name = name with
    | none =>
      simp only [bind_assoc, pure_bind]
      refine leadsTo_bind fun _ value hvalue => ?_
      obtain ⟨_, rfl, hvalue⟩ := advances_skipValue.left hvalue
      exact leadsTo_goOn fun c' hc' => ih hslots (by omega)
    | some f =>
      have hf := List.mem_of_find?_eq_some hfind
      simp only [bind_map_left]
      have hrun :=
        delivers_operand (hcall (.member type fields slots f.slot)) (hfields f hf) colon
      refine hrun.bind fun v value hvalue => ?_
      obtain ⟨_, -, hvalue⟩ :=
        (advances_readOperand (m.advances_readWithin levels) f.operand).left hvalue
      refine LeadsTo.delivers ?_
      rw [perform, performAnswer, if_pos (hslots f hf)]
      refine leadsTo_goOn fun c' hc' => ih ?_ (by omega)
      simpa only [List.length_set] using hslots

theorem delivers_items (hcall : ∀ frame, Serves m levels (frame :: frames))
    (helement : ∀ id, operand = .call id → id.index < m.routines.length) (items : List Value)
    (hbound : c.rest.length ≤ bound) :
    Delivers m ⟨.items operand items, frames, c⟩ frames
      (((fun more => Value.list (items ++ more)) <$>
        readItems (m.readWithin levels) operand bound) c) := by
  induction bound generalizing items c with
  | zero => exact LeadsTo.delivers (leadsTo_exhausted (List.length_eq_zero_iff.1 (by omega)))
  | succ bound ih =>
    have hround : (fun more => Value.list (items ++ more)) <$>
          readItems (m.readWithin levels) operand (bound + 1) =
        Direct.round ']' (.list (items ++ [])) (readOperand (m.readWithin levels) operand)
          fun item => (fun more => Value.list (items ++ more)) <$> (item :: ·) <$>
            readItems (m.readWithin levels) operand bound :=
      map_round _ _ _ _ _
    rw [hround, List.append_nil]
    refine LeadsTo.delivers (leadsTo_round fun c hc => ?_)
    refine Delivers.bind (delivers_operand (hcall _) helement c) fun item behind hitem => ?_
    obtain ⟨_, hpos, hitem⟩ :=
      (advances_readOperand (m.advances_readWithin levels) operand).left hitem
    have hextent := item.extent_pos
    refine LeadsTo.delivers (leadsTo_goOn fun c' hc' => ?_)
    have hrest := ih (items ++ [item]) (c := c') (by omega)
    simpa only [Functor.map_map, List.append_assoc, List.singleton_append] using hrest

theorem delivers_plan {plan : ReadPlan} (hcall : ∀ frames', frames'.length = frames.length + 1 →
      Serves m levels frames')
    (hplan : Checked.Keeps (fun id => id.index < m.routines.length) plan) (c : Cursor) :
    LeadsTo m frames (performPlan frames plan c) (runPlan (m.readWithin levels) plan c) := by
  have hcall' (frame : Frame) : Serves m levels (frame :: frames) := hcall _ rfl
  refine leadsTo_bind fun _ c' _ => ?_
  cases hplan with
  | scalar hoperand =>
    have hthrough (v : Value) (last : Cursor) : Delivers m ⟨.answer v, .scalar :: frames, last⟩
        frames ((pure v : Reading Value) last) :=
      LeadsTo.delivers (delivers_answer v frames last)
    have hrun := delivers_operand (hcall' .scalar) hoperand c'
    have hbind := hrun.bind fun v last _ => hthrough v last
    rwa [bind_pure] at hbind
  | object hfields hslots =>
    refine leadsTo_orWord (leadsTo_bind fun _ start _ => ?_)
    exact delivers_members hcall' hfields hslots (Nat.le_refl _)
  | list helement =>
    refine leadsTo_orWord (leadsTo_bind fun _ start _ => ?_)
    exact delivers_items hcall' helement [] (Nat.le_refl _)

end Plan

/-- Whatever routine is called and whoever waits for it, the run comes to the end that is told for
the levels that are left. -/
theorem serves (hm : m.InRange) (levels : Nat) (frames : List Frame)
    (hlevels : levels + frames.length = maxDepth) : Serves m levels frames := by
  induction levels using Nat.strongRecOn generalizing frames with
  | ind levels ih =>
    intro id c hid
    obtain ⟨r, hr⟩ : ∃ r, m.routine? id = some r := ⟨_, List.getElem?_eq_getElem hid⟩
    refine LeadsTo.delivers ?_
    unfold readWithin
    simp only [perform, performCall, hr]
    cases hbody : r.body with
    | stub => exact leadsTo_bind fun _ c' _ => delivers_answer .null frames c'
    | write => rfl
    | read plan =>
      cases levels with
      | zero =>
        simp only [if_neg (show ¬frames.length < maxDepth by omega)]
        exact leadsTo_bind fun _ _ _ => rfl
      | succ levels =>
        simp only [if_pos (show frames.length < maxDepth by omega)]
        have hplan := hm r (List.mem_of_getElem? hr) plan hbody
        refine delivers_plan (fun frames' hframes' => ?_) hplan c
        exact ih levels (Nat.lt_succ_self levels) frames' (by omega)

end Run

end ShapeCodec.Machine
