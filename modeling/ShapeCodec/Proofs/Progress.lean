import ShapeCodec.Proofs.Stepping
/-! Reading makes progress and comes to an end. Commas are optional and scalar routines may call
each other without taking anything, so neither the loops nor the calls lead forwards by themselves.
But a step that takes no input brings the run closer to one that does: such calls get deeper, which
they can only up to the limit, and values go back to those that wait for them. So between two rounds
of a loop some input is taken, and the steps of a run are bounded by the text that is left. -/
namespace ShapeCodec

theorem Cursor.In.moves {text taken : List Char} {c c' : Cursor} (hc : c.In text)
    (h : Cursor.Moves taken c c') : c'.In text := by
  cases h with
  | past offset rest => exact hc.after taken rest rfl

namespace Machine

/-- What a step may lead to, and how many characters it takes at least. -/
inductive Transition (frames : List Frame) : Task → Nat → Next → Prop
  | answer {task v n} : 0 < n → Transition frames task n (.go (.answer v) frames)
  | scalar {id operand n} : frames.length < maxDepth →
      Transition frames (.call id) n (.go (.operand operand) (.scalar :: frames))
  | object {id type fields slots n} : frames.length < maxDepth → 0 < n →
      Transition frames (.call id) n (.go (.members type fields slots) frames)
  | list {id element n} : frames.length < maxDepth → 0 < n →
      Transition frames (.call id) n (.go (.items element []) frames)
  | call {operand id n} : Transition frames (.operand operand) n (.go (.call id) frames)
  | member {type fields slots operand slot n} :
      Transition frames (.members type fields slots) n
        (.go (.operand operand) (.member type fields slots slot :: frames))
  /-- A member without a property is over within its step. -/
  | unknown {type fields slots n} : 0 < n →
      Transition frames (.members type fields slots) n (.go (.members type fields slots) frames)
  | item {element items n} : Transition frames (.items element items) n
      (.go (.operand element) (.item element items :: frames))
  | through {v n outer} : frames = .scalar :: outer →
      Transition frames (.answer v) n (.go (.answer v) outer)
  | set {v type fields slots slot n outer} : frames = .member type fields slots slot :: outer →
      Transition frames (.answer v) n (.go (.members type fields (slots.set slot v)) outer)
  | append {v element items n outer} : frames = .item element items :: outer →
      Transition frames (.answer v) n (.go (.items element (items ++ [v])) outer)
  | done {v n} : frames = [] → Transition frames (.answer v) n (.done v)
  | trap {task t n} : Transition frames task n (.trap t)

section Step

variable {m : Machine} {frames : List Frame} {task : Task} {P : Nat → Next → Prop}

theorem advances_goOn (h : P 0 (.go task frames)) : Advances P (goOn frames task) :=
  advances_skipWhitespace.before fun _ => advances_comma.before fun _ => advances_pure h

theorem advances_performRound {close : Char} {v : Value} {entry : Reading Next}
    (hentry : Advances (Transition frames task) entry) :
    Advances (Transition frames task) (performRound frames close v entry) := by
  refine advances_skipWhitespace.before fun _ => advances_get fun _ => ?_
  exact Advances.ite (advances_fail _) (advances_orWord (.answer Nat.one_pos) hentry)

/-- The name of a member is not empty, and its quotes would be enough. -/
theorem advances_performMember (type : String) (fields : List FieldPlan) (slots : List Value) :
    Advances (Transition frames (.members type fields slots))
      (performMember frames type fields slots) := by
  refine delimits_readString.lift.lexes.advances.bind fun name n hn => ?_
  refine advances_skipWhitespace.before fun _ => (advances_expect ':').before fun _ => ?_
  cases fields.find? fun f => f.name = name with
  | some f => exact advances_pure .member
  | none => exact advances_skipValue.before fun _ => advances_goOn (.unknown (by omega))

theorem advances_performOperand (operand : Operand) :
    Advances (Transition frames (.operand operand)) (performOperand frames operand) := by
  refine advances_skipWhitespace.before fun _ => ?_
  cases operand with
  | int =>
    refine advances_orWord (.answer (by decide)) ?_
    exact (lexes_readInt.lift.advances.mono fun n _ hn => .answer (by omega)).map
  | str =>
    refine advances_orWord (.answer (by decide)) ?_
    exact (delimits_readString.lift.lexes.advances.mono fun n _ hn => .answer (by omega)).map
  | call id => exact advances_pure .call

theorem advances_performPlan {id : RoutineId} (hframes : frames.length < maxDepth)
    (plan : ReadPlan) : Advances (Transition frames (.call id)) (performPlan frames plan) := by
  refine advances_skipWhitespace.before fun _ => ?_
  cases plan with
  | scalar operand => exact advances_pure (.scalar hframes)
  | object type nullable fields defaults =>
    refine advances_orWord (.answer (by decide)) ((advances_expect '\x7b').bind fun _ n hn => ?_)
    exact advances_pure (.object hframes (by omega))
  | list nullable element =>
    refine advances_orWord (.answer (by decide)) ((advances_expect '[').bind fun _ n hn => ?_)
    exact advances_pure (.list hframes (by omega))

theorem advances_performCall (id : RoutineId) :
    Advances (Transition frames (.call id)) (performCall frames m id) := by
  unfold performCall
  split
  · exact advances_pure .trap
  · split
    · exact advances_skipValue.bind fun _ n hn => advances_pure (.answer (by omega))
    · exact advances_throw _
    · split
      · next hframes => exact advances_performPlan hframes _
      · exact advances_skipWhitespace.before fun _ => advances_fail _

theorem advances_performAnswer (v : Value) (frames : List Frame) :
    Advances (Transition frames (.answer v)) (performAnswer v frames) := by
  unfold performAnswer
  split
  · exact advances_pure (.done rfl)
  · exact advances_pure (.through rfl)
  · exact Advances.ite (advances_goOn (.set rfl)) (advances_pure .trap)
  · exact advances_goOn (.append rfl)

theorem advances_perform (m : Machine) (frames : List Frame) (task : Task) :
    Advances (Transition frames task) (m.perform frames task) := by
  cases task with
  | call id => exact advances_performCall id
  | operand operand => exact advances_performOperand operand
  | members type fields slots =>
    exact advances_performRound (advances_performMember type fields slots)
  | items element items => exact advances_performRound (advances_pure .item)
  | answer v => exact advances_performAnswer v frames

end Step

/-- The next round of a loop is to be done. -/
def Task.isLoop : Task → Bool
  | members .. => true
  | items .. => true
  | _ => false

/-- How many routines have begun a plan and are not done with it. -/
def begun (frames : List Frame) (task : Task) : Nat :=
  frames.length + if task.isLoop then 1 else 0

/-- Steps that take no input lower the phase, so there are only so many of them in a row: operands
and calls that wait for each other, or values that are handed back. -/
def phase (frames : List Frame) : Task → Nat
  | .call _ => 2 * (maxDepth - frames.length) + 1
  | .operand _ => 2 * (maxDepth - frames.length) + 2
  | .members .. | .items .. => 2 * maxDepth + 1
  | .answer _ => 2 * maxDepth + 2 + frames.length

/-- How many items each list has that is not complete. -/
def counts (frames : List Frame) (task : Task) : List Nat :=
  (match task with
    | .items _ items => [items.length]
    | _ => []) ++
  frames.flatMap fun
    | .item _ items => [items.length]
    | _ => []

/-- What has been taken for a list besides its items: a bracket, and a value on its way to it. -/
def Task.due : Task → Nat
  | answer _ => 2
  | _ => 1

section Measure

variable {frames frames' : List Frame} {task task' : Task} {n taken : Nat}

theorem Transition.begun_le (h : Transition frames task n (.go task' frames'))
    (hbegun : begun frames task ≤ maxDepth) : begun frames' task' ≤ maxDepth := by
  cases h <;> subst_vars <;>
    simp only [begun, Task.isLoop, List.length_cons, Bool.false_eq_true, if_false, if_true]
      at hbegun ⊢ <;>
    omega

theorem Transition.phase_lt (h : Transition frames task n (.go task' frames')) :
    0 < n ∨ phase frames' task' < phase frames task := by
  have hpos : 0 < maxDepth := by decide
  cases h <;> subst_vars <;> simp only [phase, List.length_cons] <;> omega

theorem phase_le (h : begun frames task ≤ maxDepth) : phase frames task ≤ 3 * maxDepth + 2 := by
  have hframes : frames.length ≤ maxDepth := Nat.le_trans (Nat.le_add_right _ _) h
  unfold phase
  split <;> omega

theorem Task.due_pos (task : Task) : 0 < task.due := by
  cases task <;> exact Nat.succ_pos _

/-- An item is paid for when its value is there, before it gets to its list. -/
theorem Transition.counts_le (h : Transition frames task n (.go task' frames'))
    (hcounts : ∀ k ∈ counts frames task, k + task.due ≤ taken) :
    ∀ k ∈ counts frames' task', k + task'.due ≤ taken + n := by
  intro k hk
  cases h with
  | answer hn =>
    have hold := hcounts k (List.mem_append_right _ hk)
    have hdue := task.due_pos
    change k + 2 ≤ taken + n
    omega
  | list _ hn =>
    change k + 1 ≤ taken + n
    rcases List.mem_cons.1 hk with rfl | hk
    · exact Nat.add_le_add (Nat.zero_le taken) hn
    · have hold : k + 1 ≤ taken := hcounts k hk
      omega
  | @append v element items _ outer hframes =>
    subst hframes
    change k + 1 ≤ taken + n
    rcases List.mem_cons.1 hk with rfl | hk
    · have hold : items.length + 2 ≤ taken := hcounts _ List.mem_cons_self
      rw [List.length_append, List.length_singleton]
      omega
    · have hold : k + 2 ≤ taken := hcounts k (List.mem_cons_of_mem _ hk)
      omega
  | set hframes =>
    subst hframes
    have hold : k + 2 ≤ taken := hcounts k hk
    change k + 1 ≤ taken + n
    omega
  | through hframes =>
    subst hframes
    exact Nat.le_add_right_of_le (hcounts k hk)
  -- the lists stay as they are, and nothing more is due to them
  | _ => exact Nat.le_add_right_of_le (hcounts k hk)

end Measure

/-- More than the steps there can be from here. -/
def State.rank (s : State) : Nat :=
  (3 * maxDepth + 3) * Text.utf8Length s.cursor.rest + phase s.frames s.task

/-- What holds at every step of a run that began at `start`. -/
structure Sound (text : List Char) (start : Cursor) (s : State) : Prop where
  inside : s.cursor.In text
  offset : start.offset ≤ s.cursor.offset
  begun : begun s.frames s.task ≤ maxDepth
  counts : ∀ k ∈ counts s.frames s.task, k + s.task.due ≤ s.cursor.offset - start.offset

section Run

variable {m : Machine} {s s' : State} {frames frames' : List Frame} {task task' : Task}
  {c c' start : Cursor} {n : Nat} {text : List Char}

theorem perform_moves (h : m.perform frames task c = .ok (.go task' frames') c') :
    ∃ taken k, Cursor.Moves taken c c' ∧ k ≤ Text.utf8Length taken ∧
      Transition frames task k (.go task' frames') := by
  obtain ⟨taken, hmoves, k, hk, htransition⟩ := m.advances_perform frames task c _ c' h
  exact ⟨taken, k, hmoves, Nat.le_trans hk (Text.length_le_utf8Length taken), htransition⟩

theorem rank_lt (h : m.perform frames task c = .ok (.go task' frames') c')
    (hbegun : begun frames' task' ≤ maxDepth) :
    (⟨task', frames', c'⟩ : State).rank < (⟨task, frames, c⟩ : State).rank := by
  obtain ⟨taken, k, hmoves, hk, htransition⟩ := perform_moves h
  have hphase := phase_le hbegun
  have hleft : Text.utf8Length c.rest = Text.utf8Length taken + Text.utf8Length c'.rest := by
    rw [hmoves.split.1, Text.utf8Length_append]
  simp only [State.rank, hleft, Nat.mul_add]
  rcases htransition.phase_lt with hpos | hless
  · -- one byte is worth more than all phases
    have hbyte : 3 * maxDepth + 3 ≤ (3 * maxDepth + 3) * Text.utf8Length taken :=
      Nat.le_mul_of_pos_right _ (by omega)
    omega
  · omega

theorem Sound.step (hs : Sound text start ⟨task, frames, c⟩)
    (h : m.perform frames task c = .ok (.go task' frames') c') :
    Sound text start ⟨task', frames', c'⟩ := by
  obtain ⟨taken, k, hmoves, hk, htransition⟩ := perform_moves h
  have hstart : start.offset ≤ c.offset := hs.offset
  have hoffset := hmoves.split.2
  refine ⟨hs.inside.moves hmoves, ?_, htransition.begun_le hs.begun, fun count hcount => ?_⟩
  · change start.offset ≤ c'.offset
    omega
  · have hpaid := htransition.counts_le hs.counts count hcount
    change count + task'.due ≤ c.offset - start.offset + k at hpaid
    change count + task'.due ≤ c'.offset - start.offset
    omega

theorem Sound.run (hs : Sound text start s) (h : Runs m n s s') :
    Sound text start s' ∧ n + s'.rank ≤ s.rank := by
  induction h with
  | here => exact ⟨hs, Nat.le_of_eq (Nat.zero_add _)⟩
  | step hstep _ ih =>
    have hnext := hs.step hstep
    obtain ⟨hlast, hrank⟩ := ih hnext
    have hless := rank_lt hstep hnext.begun
    exact ⟨hlast, by omega⟩

theorem sound_call (i : RoutineId) (hc : c.In text) : Sound text c ⟨.call i, [], c⟩ :=
  ⟨hc, Nat.le_refl _, Nat.zero_le _, nofun⟩

/-- A run goes forwards, and while it takes no input each of its steps lowers the phase. -/
theorem Runs.phase_le (h : Runs m n s s') : s.cursor.offset ≤ s'.cursor.offset ∧
    (s.cursor.offset = s'.cursor.offset →
      n + phase s'.frames s'.task ≤ phase s.frames s.task) := by
  induction h with
  | here => exact ⟨Nat.le_refl _, fun _ => Nat.le_of_eq (Nat.zero_add _)⟩
  | @step n frames task c frames' task' c' s hstep _ ih =>
    obtain ⟨taken, k, hmoves, hk, htransition⟩ := perform_moves hstep
    have hoffset := hmoves.split.2
    obtain ⟨hle, hphase⟩ := ih
    change c'.offset ≤ s.cursor.offset at hle
    change c.offset ≤ s.cursor.offset ∧ (c.offset = s.cursor.offset →
      n + 1 + phase s.frames s.task ≤ phase frames task)
    refine ⟨by omega, fun hsame => ?_⟩
    have hrest := hphase (show c'.offset = s.cursor.offset by omega)
    change n + phase s.frames s.task ≤ phase frames' task' at hrest
    rcases htransition.phase_lt with hpos | hless
    · omega
    · omega

theorem phase_of_isLoop (h : task.isLoop = true) : phase frames task = 2 * maxDepth + 1 := by
  cases task <;> simp [phase, Task.isLoop] at h ⊢

/-- From one round to another, or to the value of a loop, some input is taken. -/
theorem Runs.offset_lt (h : Runs m (n + 1) s s') (hloop : s.task.isLoop = true)
    (hlast : s'.task.isLoop = true ∨ ∃ v, s'.task = .answer v) :
    s.cursor.offset < s'.cursor.offset := by
  obtain ⟨hle, hphase⟩ := h.phase_le
  refine Nat.lt_of_le_of_ne hle fun hsame => ?_
  have hless := hphase hsame
  rw [phase_of_isLoop hloop] at hless
  rcases hlast with hloop' | ⟨v, hv⟩
  · rw [phase_of_isLoop hloop'] at hless
    omega
  · rw [hv, phase] at hless
    omega

end Run

/-- A value that is read leads forwards and not out of the text, and over more bytes than there are
items if it is a list. -/
def LeadsOn (x : Reading Value) : Prop :=
  ∀ text c v c', c.In text → x c = .ok v c' → c'.In text ∧ c.offset < c'.offset ∧
    ∀ items, v = .list items → c.offset + items.length < c'.offset

/-- Reading through a table makes progress and comes to an end. -/
structure Progresses (m : Machine) : Prop where
  /-- A routine that reads or skips a value leads on, with all levels to go as for `read` or with
  fewer. -/
  read : ∀ levels i, LeadsOn (m.readWithin levels i)
  operand : ∀ levels operand, LeadsOn (readOperand (m.readWithin levels) operand)
  skip : ∀ text c c', c.In text → Scan.skipValue c = .ok () c' →
    c'.In text ∧ c.offset < c'.offset
  /-- A round of a loop takes something, be it the last one or the next begins, within this loop or
  in one inside it. -/
  round : ∀ n s s', Runs m (n + 1) s s' → s.task.isLoop = true →
    (s'.task.isLoop = true ∨ ∃ v, s'.task = .answer v) → s.cursor.offset < s'.cursor.offset
  /-- A run stays in the text. -/
  inside : ∀ text c i n s, c.In text → Runs m n ⟨.call i, [], c⟩ s →
    s.cursor.In text ∧ c.offset ≤ s.cursor.offset
  /-- No list, however deep inside others, has more items than bytes have been taken. -/
  items : ∀ text c i n s, c.In text → Runs m n ⟨.call i, [], c⟩ s →
    ∀ k ∈ counts s.frames s.task, k < s.cursor.offset - c.offset
  /-- No more routines are in the middle of their plans than there may be levels. -/
  depth : ∀ text c i n s, c.In text → Runs m n ⟨.call i, [], c⟩ s →
    begun s.frames s.task ≤ maxDepth
  /-- There is no run without end. -/
  bounded : ∀ text c i n s, c.In text → Runs m n ⟨.call i, [], c⟩ s →
    n ≤ (3 * maxDepth + 3) * Text.utf8Length c.rest + 2 * maxDepth + 1
  /-- A run ends as `read` does, be it with a value or an error, and not in a trap. -/
  ends : ∀ c i, i.index < m.routines.length → ∃ n s, Runs m n ⟨.call i, [], c⟩ s ∧
    m.perform s.frames s.task s.cursor = (Next.done <$> m.read i) c
  /-- On bytes, too, no trap is met. -/
  checked : ∀ text levels i, i.index < m.routines.length → Checked.Mirrors text id
    (Checked.readWithin text m levels i) (m.readWithin levels i)

section Table

variable {m : Machine} {i : RoutineId}

theorem leadsOn_of_advances {x : Reading Value} (hx : Advances (fun n v => v.extent ≤ n) x) :
    LeadsOn x := by
  intro text c v c' hc h
  obtain ⟨taken, hmoves, -⟩ := hx c v c' h
  obtain ⟨n, hextent, hoffset⟩ := hx.offset h
  have hpos := v.extent_pos
  refine ⟨hc.moves hmoves, by omega, ?_⟩
  rintro items rfl
  rw [Value.extent] at hextent
  omega

theorem InRange.ends (hm : m.InRange) (hi : i.index < m.routines.length) (c : Cursor) :
    ∃ n s, Runs m n ⟨.call i, [], c⟩ s ∧
      m.perform s.frames s.task s.cursor = (Next.done <$> m.read i) c := by
  have hserves := serves hm maxDepth [] rfl i c hi
  rw [Running.map_apply, read]
  cases hread : m.readWithin maxDepth i c with
  | ok v c' =>
    rw [hread] at hserves
    obtain ⟨n, hrun⟩ := hserves
    exact ⟨n, _, hrun, rfl⟩
  | error e c' =>
    rw [hread] at hserves
    exact hserves

theorem InRange.mirrors (hm : m.InRange) (text : List Char) (levels : Nat)
    (hi : i.index < m.routines.length) : Checked.Mirrors text id
      (Checked.readWithin text m levels i) (m.readWithin levels i) := by
  have hkeeps (i : RoutineId) (hi : i.index < m.routines.length) :
      ∃ r, m.routine? i = some r ∧ ∀ plan, r.body = .read plan →
        Checked.Keeps (fun i => i.index < m.routines.length) plan := by
    obtain ⟨r, hr⟩ : ∃ r, m.routine? i = some r := ⟨_, List.getElem?_eq_getElem hi⟩
    exact ⟨r, hr, hm r (List.mem_of_getElem? hr)⟩
  exact Checked.mirrors_readWithin_of_keeps hkeeps levels hi

/-- Reading through any table with its calls and slots in range makes progress and comes to an
end. -/
theorem progresses_of_inRange (hm : m.InRange) : m.Progresses := by
  constructor
  · exact fun levels i => leadsOn_of_advances (m.advances_readWithin levels i)
  · exact fun levels operand =>
      leadsOn_of_advances (advances_readOperand (m.advances_readWithin levels) operand)
  · intro text c c' hc h
    obtain ⟨taken, hmoves, -⟩ := lexes_skipValue.advances c () c' h
    obtain ⟨_, rfl, hoffset⟩ := lexes_skipValue.advances.offset h
    exact ⟨hc.moves hmoves, hoffset⟩
  · exact fun n s s' hrun hloop hlast => hrun.offset_lt hloop hlast
  · intro text c i n s hc hrun
    obtain ⟨hsound, -⟩ := (sound_call i hc).run hrun
    exact ⟨hsound.inside, hsound.offset⟩
  · intro text c i n s hc hrun k hk
    obtain ⟨hsound, -⟩ := (sound_call i hc).run hrun
    have hpaid := hsound.counts k hk
    have hdue := s.task.due_pos
    omega
  · intro text c i n s hc hrun
    exact ((sound_call i hc).run hrun).1.begun
  · intro text c i n s hc hrun
    obtain ⟨-, hrank⟩ := (sound_call i hc).run hrun
    simp only [State.rank, phase, List.length_nil, Nat.sub_zero] at hrank
    omega
  · exact fun c i hi => hm.ends hi c
  · exact fun text levels i hi => hm.mirrors text levels hi

/-- A table that no emitter makes, with an object that calls itself, a list, scalars that call
themselves or each other, a routine that writes, and a stub. -/
def tangled : Machine where
  routines :=
    let read (index : Nat) (plan : ReadPlan) : Routine :=
      ⟨⟨index⟩, .object "Knot" true, .deserialize, none, .read plan⟩
    [read 0 (.object "Knot" true
        [⟨"knot", 0, .call ⟨0⟩⟩, ⟨"list", 1, .call ⟨1⟩⟩, ⟨"self", 2, .call ⟨2⟩⟩,
          ⟨"pair", 2, .call ⟨3⟩⟩, ⟨"text", 2, .call ⟨5⟩⟩, ⟨"stub", 2, .call ⟨6⟩⟩]
        [.null, .list [], .int 0]),
      read 1 (.list false (.call ⟨0⟩)),
      read 2 (.scalar (.call ⟨2⟩)),
      read 3 (.scalar (.call ⟨4⟩)),
      read 4 (.scalar (.call ⟨3⟩)),
      ⟨⟨5⟩, .string, .serialize, none, .write [.str .arg]⟩,
      ⟨⟨6⟩, .object "Loose" false, .deserialize, none, .stub .unused⟩]

theorem progresses_of_inRange_tangled : tangled.InRange ∧ tangled.Progresses := by
  have hm : tangled.InRange := by
    intro r hr plan hbody
    simp only [tangled, List.mem_cons, List.not_mem_nil, or_false] at hr
    rcases hr with rfl | rfl | rfl | rfl | rfl | rfl | rfl <;> cases hbody
    · refine .object ?_ (by decide)
      simp [tangled]
    · exact .list fun id hid => by cases hid; decide
    · exact .scalar fun id hid => by cases hid; decide
    · exact .scalar fun id hid => by cases hid; decide
    · exact .scalar fun id hid => by cases hid; decide
  exact ⟨hm, progresses_of_inRange hm⟩

/-- Two scalars that call each other take a blank and are stopped by the limit. -/
example :
    (match tangled.read ⟨3⟩ (.ofText " 1") with
      | .error (.parse e) c => some (e, c)
      | _ => none) = some (⟨1, .depthLimit⟩, ⟨1, ['1']⟩) := by decide +kernel

end Table

end Machine

end ShapeCodec
