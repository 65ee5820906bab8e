import ShapeCodec.Proofs.Calls
import ShapeCodec.Proofs.Descent
import ShapeCodec.Proofs.EntryPoint
import ShapeCodec.Proofs.Naming
import ShapeCodec.Proofs.Requests
/-! The limit of the nesting, as brackets in the text. Reading is stopped where a further object or
list is to be read with as many brackets open as there may be levels, and nowhere else; what is
skipped does not count. -/
namespace ShapeCodec

section Table

open Machine (Reaches Comes failing)

variable {s : Schema} {table more : List Routine} {call : RoutineId → Reading Value}
  {read : Shape → Reading Value} {shape : Shape} {layout : Layout} {plan : ReadPlan}
  {id next : RoutineId} {c spot : Cursor} {levels levels' : Nat}

/-- Only routines in the table are called. -/
theorem at_of_reaches (hlayout : Layout.For s table .deserialize shape layout)
    (hplan : layout.readPlan s = .ok plan) (hcall : Direct.Reads table call read)
    (h : Reaches call plan c next spot) : ∃ below, Table.At table next below .deserialize := by
  by_contra hnot
  have hreads (e : CodecError) : Direct.Reads table (failing call next spot e c) read := by
    intro id shape hat
    rw [← hcall id shape hat]
    funext start
    rw [failing, if_neg]
    rintro ⟨rfl, -⟩
    exact hnot ⟨shape, hat⟩
  -- what is read does not depend on the error, and yet it is the error
  have hfirst := h (.depthLimit 0) c
  have hsecond := h (.depthLimit 1) c
  rw [Direct.runPlan_eq (hreads _) hlayout hplan] at hfirst hsecond
  cases hfirst.symm.trans hsecond

theorem at_of_comes (hfaithful : ∀ r ∈ table, r.Faithful s table)
    (h : Comes ⟨table ++ more⟩ levels id c levels' next spot)
    (hat : Table.At table id shape .deserialize) :
    ∃ below, Table.At table next below .deserialize := by
  induction h generalizing shape with
  | here => exact ⟨shape, hat⟩
  | call hr hbody hreaches _ ih =>
    obtain ⟨r, hr', hrfaithful, rfl, hdirection⟩ := routine_of_at hfaithful more hat
    obtain rfl := Option.some.inj (hr.symm.trans hr')
    cases hfault : s.routineFault? .deserialize _ with
    | some e =>
      rw [hrfaithful.stub e (hdirection ▸ hfault)] at hbody
      cases hbody
    | none =>
      obtain ⟨layout, plan, hlayout, hplan, hbody'⟩ := hrfaithful.readCode hdirection hfault
      cases hbody.symm.trans hbody'
      obtain ⟨below, hbelow⟩ := at_of_reaches hlayout hplan
        (Direct.readWithin_eq hfaithful more _) hreaches
      exact ih hbelow

end Table

/-- The limit of the nesting is where it is said to be. -/
structure Codec.LimitsDepth (c : Codec) (s : Schema) (shape : Shape) : Prop where
  /-- Where reading is stopped, as many brackets are open as there may be levels, and no blank
  follows. -/
  stopped : ∀ text offset, c.deserialize shape text = .error (.parse ⟨offset, .depthLimit⟩) →
    ∃ before after, text.toList = before ++ after ∧ Text.utf8Length before = offset ∧
      Text.opened before = Text.closed before + maxDepth ∧
      ∀ d ∈ after.head?, Text.isSpace d = false
  /-- It is stopped where a run calls a routine with all levels used up. -/
  comes : ∀ entry id text offset, c.entryPoint shape .deserialize = .ok (entry, id) →
    c.deserialize shape text = .error (.parse ⟨offset, .depthLimit⟩) →
    ∃ next spot, c.machine.Comes maxDepth id (.ofText text) 0 next spot ∧ spot.offset = offset
  /-- Wherever a run calls a routine, it has used up a level for each open bracket. With as many
  brackets open as there may be, it is stopped there, whatever comes next. -/
  reached : ∀ entry id text levels next spot,
    c.entryPoint shape .deserialize = .ok (entry, id) →
    c.machine.Comes maxDepth id (.ofText text) levels next spot →
    ∃ before, text.toList = before ++ spot.rest ∧ Text.utf8Length before = spot.offset ∧
      Text.opened before + levels = Text.closed before + maxDepth ∧
      (Text.opened before = Text.closed before + maxDepth →
        c.deserialize shape text = .error (.parse ⟨spot.offset, .depthLimit⟩))
  /-- Wherever a run comes to, it calls routines for objects and lists, be they properties or
  elements. -/
  calls : ∀ entry id text levels next spot,
    c.entryPoint shape .deserialize = .ok (entry, id) →
    c.machine.Comes maxDepth id (.ofText text) levels next spot →
    ∃ r plan, c.routine? next = some r ∧ r.body = .read plan ∧
      ∀ source child, ChildAt s r.shape source child → child.isComposite = true →
        ∃ below, plan.Calls source below ∧ Table.At c.routines below child .deserialize
  /-- A text with fewer brackets open everywhere is never too deep. -/
  unlimited : ∀ text, (∀ before after, text.toList = before ++ after →
      Text.opened before < Text.closed before + maxDepth) →
    ∀ offset, c.deserialize shape text ≠ .error (.parse ⟨offset, .depthLimit⟩)
  /-- A member without a property takes no calls and is never too deep, whatever it holds. -/
  ignores : ∀ id r type nullable fields defaults, c.routine? id = some r →
    r.body = .read (.object type nullable fields defaults) →
    ∀ start name mid, Scan.readString start = .ok name mid → (∀ f ∈ fields, f.name ≠ name) →
    ∀ call slots,
      (∀ call', Machine.readMember call' fields slots start =
        Machine.readMember call fields slots start) ∧
      ∀ offset last, Machine.readMember call fields slots start ≠
        .error (.parse ⟨offset, .depthLimit⟩) last
  /-- A JSON value of such a member is stepped over however deep it is. -/
  skips : ∀ id r type nullable fields defaults, c.routine? id = some r →
    r.body = .read (.object type nullable fields defaults) →
    ∀ call slots key blanks lead value rest, '"' ∉ key →
      (∀ f ∈ fields, f.name ≠ String.ofList key) → Json.Blank blanks → Json.Blank lead →
      Json.ValueText value → Json.escapesQuote value = false →
      (Json.NumberText value → Json.Number.Stops rest) →
      Consumes (Machine.readMember call fields slots)
        ('"' :: (key ++ '"' :: (blanks ++ ':' :: (lead ++ value)))) rest slots

theorem Machine.readMember_skips {call : RoutineId → Reading Value} {fields : List FieldPlan}
    {slots : List Value} {key blanks lead value rest : List Char} (hkey : '"' ∉ key)
    (hfields : ∀ f ∈ fields, f.name ≠ String.ofList key) (hblanks : Json.Blank blanks)
    (hlead : Json.Blank lead) (hvalue : Json.ValueText value)
    (hescape : Json.escapesQuote value = false)
    (hstops : Json.NumberText value → Json.Number.Stops rest) :
    Consumes (Machine.readMember call fields slots)
      ('"' :: (key ++ '"' :: (blanks ++ ':' :: (lead ++ value)))) rest slots := by
  have htext : '"' :: (key ++ '"' :: (blanks ++ ':' :: (lead ++ value))) =
      ('"' :: key ++ ['"']) ++ (blanks ++ ([':'] ++ ((lead ++ value) ++ []))) := by
    simp
  have hskip : Consumes Scan.skipWhitespace blanks ([':'] ++ ((lead ++ value) ++ []) ++ rest) () :=
    Consumes.skipWhitespace hblanks (by simp [Text.isSpace])
  have hfind : (fields.find? fun f => f.name = String.ofList key) = none :=
    List.find?_eq_none.2 fun f hf => by simpa using hfields f hf
  rw [htext]
  refine (Consumes.readString hkey _).lift.seq ?_
  refine hskip.lift.seq ?_
  refine (Consumes.expect ':' _).lift.seq ?_
  rw [hfind]
  have hconsumes : Consumes Scan.skipValue (lead ++ value) ([] ++ rest) () :=
    skipValue_consumes hvalue hescape hlead hstops
  exact hconsumes.lift.seq (.nothing slots rest)

/-- A member without a property is skipped, and no routine is called for it. -/
theorem Machine.readMember_ignores {call : RoutineId → Reading Value} {fields : List FieldPlan}
    {slots : List Value} {start mid : Cursor} {name : String}
    (hname : Scan.readString start = .ok name mid) (hfields : ∀ f ∈ fields, f.name ≠ name) :
    Machine.readMember call fields slots start =
      (do Scan.skipWhitespace; Scan.expect ':'; Scan.skipValue; pure slots : Reading _) mid := by
  have hfind : (fields.find? fun f => f.name = name) = none :=
    List.find?_eq_none.2 fun f hf => by simpa using hfields f hf
  rw [readMember, Running.bind_of_ok (lift_of_ok hname), hfind]

theorem Machine.readMember_plain {call : RoutineId → Reading Value} {fields : List FieldPlan}
    {slots : List Value} {start mid last : Cursor} {name : String} {offset : Nat}
    (hname : Scan.readString start = .ok name mid) (hfields : ∀ f ∈ fields, f.name ≠ name) :
    Machine.readMember call fields slots start ≠ .error (.parse ⟨offset, .depthLimit⟩) last := by
  rw [readMember_ignores hname hfields]
  intro h
  rcases Running.bind_eq_error_iff.1 h with h | ⟨_, _, _, h⟩
  · obtain ⟨_, ⟨⟩, hown⟩ := plain_skipWhitespace.lift h
    exact hown rfl
  rcases Running.bind_eq_error_iff.1 h with h | ⟨_, _, _, h⟩
  · obtain ⟨_, ⟨⟩, hown⟩ := (plain_expect ':').lift h
    exact hown rfl
  rcases Running.bind_eq_error_iff.1 h with h | ⟨_, _, _, ⟨⟩⟩
  obtain ⟨_, ⟨⟩, hown⟩ := plain_skipValue.lift h
  exact hown rfl

/-- Lists in one another, down to an integer. -/
def Shape.nested : Nat → Shape
  | 0 => .int
  | levels + 1 => .list (nested levels) false

/-- A schema without types, to read such lists. -/
def Schema.lists (levels : Nat) : Schema where
  types := []
  calls := [⟨.deserialize, .nested levels⟩]
  valid := List.forall_mem_nil _
  nodup := List.nodup_nil

namespace Generation

variable {s : Schema} {options : Options} {shape : Shape} {entry : Entry} {id next : RoutineId}
  {text : String} {levels : Nat} {spot : Cursor}

theorem callsInside_ofSchema (s : Schema) (options : Options) :
    (ofSchema s options).codec.machine.CallsInside := by
  intro id r hr next hbody
  have hcode : r.isStub = false := by rw [Routine.isStub, hbody]
  obtain ⟨hcalled, -⟩ := called_of_not_stub (List.mem_of_getElem? hr) hcode
  have hreads := (Emitter.coded_of_faithful ((sound_called s).faithful r hcalled)).readsBy hbody
  cases hreads with
  | scalar _ _ hoperand => exact hoperand next rfl

/-- A run that comes to a routine has a bracket open for each level that is used up. -/
theorem counts_of_comes
    (hcomes : (ofSchema s options).codec.machine.Comes maxDepth id (.ofText text) levels next
      spot) :
    ∃ before, text.toList = before ++ spot.rest ∧ Text.utf8Length before = spot.offset ∧
      Text.opened before + levels = Text.closed before + maxDepth := by
  obtain ⟨⟨taken, hmoves, hbalanced⟩, -⟩ := hcomes.counts (callsInside_ofSchema s options)
  obtain ⟨hsplit, hoffset⟩ := hmoves.of_start
  have hcount : levels + Text.opened taken = maxDepth + Text.closed taken := hbalanced.count
  exact ⟨taken, hsplit, hoffset, by omega⟩

theorem atToken_of_comes
    (hcomes : (ofSchema s options).codec.machine.Comes maxDepth id (.ofText text) 0 next spot) :
    Machine.AtToken spot := by
  obtain ⟨-, hspot⟩ := hcomes.counts (callsInside_ofSchema s options)
  rcases hspot with ⟨hsame, -⟩ | ⟨-, htoken⟩
  · cases hsame
  · exact htoken

theorem comes_of_deserialize
    (h : (ofSchema s options).codec.entryPoint shape .deserialize = .ok (entry, id)) {offset : Nat}
    (herror : (ofSchema s options).codec.deserialize shape text =
      .error (.parse ⟨offset, .depthLimit⟩)) :
    ∃ next spot, (ofSchema s options).codec.machine.Comes maxDepth id (.ofText text) 0 next spot ∧
      spot.offset = offset := by
  obtain ⟨-, c, -, hrun⟩ := parse_of_deserialize h herror
  obtain ⟨next, spot, hcomes, rfl⟩ :=
    Machine.comes_of_limit (callsInside_ofSchema s options) hrun
  exact ⟨next, spot, hcomes, by rw [(atToken_of_comes hcomes).skipWhile]⟩

/-- Every routine that a run comes to reads. -/
theorem calls_of_comes (hcall : ⟨.deserialize, shape⟩ ∈ s.calls)
    (hwarnings : (ofSchema s options).warnings = [])
    (h : (ofSchema s options).codec.entryPoint shape .deserialize = .ok (entry, id))
    (hcomes : (ofSchema s options).codec.machine.Comes maxDepth id (.ofText text) levels next
      spot) :
    ∃ r plan, (ofSchema s options).codec.routine? next = some r ∧ r.body = .read plan ∧
      ∀ source child, ChildAt s r.shape source child → child.isComposite = true →
        ∃ below, plan.Calls source below ∧
          Table.At (ofSchema s options).codec.routines below child .deserialize := by
  cases href : s.checkReferences shape with
  | error err =>
    rw [entryPoint_of_error options href] at h
    cases h
  | ok =>
    obtain ⟨table, more, entry', id', htable, hfaithful, hquiet, hentry', -, hat⟩ :=
      entryPoint_of_call options hcall href
    cases h.symm.trans hentry'
    rw [Codec.machine, htable] at hcomes
    obtain ⟨below, hbelow⟩ := at_of_comes hfaithful hcomes hat
    obtain ⟨r, hr, hrfaithful, rfl, hdirection⟩ := routine_of_at hfaithful more hbelow
    have hfault := (buildable_of_at hfaithful (hquiet hwarnings) hbelow).fault
    obtain ⟨layout, plan, -, -, hbody⟩ := hrfaithful.readCode hdirection hfault
    have hr' : (ofSchema s options).codec.routine? next = some r := by
      rw [Codec.routine?, htable]
      exact hr
    refine ⟨r, plan, hr', hbody, fun source child hchild hcomposite => ?_⟩
    have hcode : r.isStub = false := by rw [Routine.isStub, hbody]
    obtain ⟨id, hcalls, hid⟩ := calls_child (List.mem_of_getElem? hr') hcode hchild hcomposite
    rw [hbody] at hcalls
    rw [hdirection] at hid
    cases hcalls with
    | read hcalls => exact ⟨id, hcalls, hid⟩

/-- A run that comes to a routine with no levels to go is stopped there. -/
theorem stopped_of_comes (hcall : ⟨.deserialize, shape⟩ ∈ s.calls)
    (hwarnings : (ofSchema s options).warnings = [])
    (h : (ofSchema s options).codec.entryPoint shape .deserialize = .ok (entry, id))
    (hcomes : (ofSchema s options).codec.machine.Comes maxDepth id (.ofText text) 0 next spot) :
    (ofSchema s options).codec.deserialize shape text =
      .error (.parse ⟨spot.offset, .depthLimit⟩) := by
  obtain ⟨r, plan, hr, hbody, -⟩ := calls_of_comes hcall hwarnings h hcomes
  have hnext := Machine.readWithin_zero (c := spot) (m := (ofSchema s options).codec.machine)
    hr hbody
  rw [(atToken_of_comes hcomes).skipWhile] at hnext
  have hrun := hcomes.fails hnext
  obtain ⟨before, hsplit, -, hcount⟩ := counts_of_comes hcomes
  have hopened : 0 < Text.opened before := by
    have hpos : 0 < maxDepth := by decide
    omega
  have hblank : Codec.isBlankText text = false := by
    rw [Codec.isBlankText, hsplit]
    exact Text.not_blank_of_opened hopened
  simp only [Codec.deserialize, h, bind, Except.bind, hblank, Bool.false_eq_true, if_false,
    Codec.runRead, Machine.read, hrun]

/-- Where reading is stopped by the limit, all levels are used up for open brackets. -/
theorem stopped_of_deserialize (hcall : ⟨.deserialize, shape⟩ ∈ s.calls) {offset : Nat}
    (herror : (ofSchema s options).codec.deserialize shape text =
      .error (.parse ⟨offset, .depthLimit⟩)) :
    ∃ before after, text.toList = before ++ after ∧ Text.utf8Length before = offset ∧
      Text.opened before = Text.closed before + maxDepth ∧
      ∀ d ∈ after.head?, Text.isSpace d = false := by
  cases href : s.checkReferences shape with
  | error err =>
    rw [deserialize_of_error options href] at herror
    cases herror
  | ok =>
    obtain ⟨table, more, entry, id, -, -, -, hentry, -, -⟩ :=
      entryPoint_of_call options hcall href
    obtain ⟨next, spot, hcomes, rfl⟩ := comes_of_deserialize hentry herror
    obtain ⟨before, hsplit, hoffset, hcount⟩ := counts_of_comes hcomes
    exact ⟨before, spot.rest, hsplit, hoffset, hcount, atToken_of_comes hcomes⟩

/-- The limit of the nesting is exact at every call site. -/
theorem limitsDepth_of_call (options : Options) (hcall : ⟨.deserialize, shape⟩ ∈ s.calls)
    (hwarnings : (ofSchema s options).warnings = []) :
    (ofSchema s options).codec.LimitsDepth s shape := by
  constructor
  · exact fun text offset herror => stopped_of_deserialize hcall herror
  · exact fun entry id text offset hentry herror => comes_of_deserialize hentry herror
  · intro entry id text levels next spot hentry hcomes
    obtain ⟨before, hsplit, hoffset, hcount⟩ := counts_of_comes hcomes
    refine ⟨before, hsplit, hoffset, hcount, fun hlimit => ?_⟩
    obtain rfl : levels = 0 := by omega
    exact stopped_of_comes hcall hwarnings hentry hcomes
  · exact fun entry id text levels next spot hentry hcomes =>
      calls_of_comes hcall hwarnings hentry hcomes
  · intro text hshallow offset herror
    obtain ⟨before, after, hsplit, -, hlimit, -⟩ := stopped_of_deserialize hcall herror
    have hless := hshallow before after hsplit
    omega
  · intro _ _ _ _ _ _ _ _ start name mid hname hfields call slots
    refine ⟨fun call' => ?_, fun offset last => Machine.readMember_plain hname hfields⟩
    rw [Machine.readMember_ignores hname hfields, Machine.readMember_ignores hname hfields]
  · intro _ _ _ _ _ _ _ _ _ _ _ _ _ _ _ hkey hfields hblanks hlead hvalue hescape hstops
    exact Machine.readMember_skips hkey hfields hblanks hlead hvalue hescape hstops

/-- The innermost list has as many around it as there may be, and is not read although it is
null. -/
theorem limitsDepth_lists :
    (ofSchema (.lists 129) ⟨false⟩).warnings = [] ∧
      (ofSchema (.lists 129) ⟨false⟩).codec.LimitsDepth (.lists 129) (.nested 129) ∧
      (ofSchema (.lists 129) ⟨false⟩).codec.deserialize (.nested 129)
        (String.ofList (List.replicate 128 '[' ++ [' ', 'n', 'u', 'l', 'l'])) =
          .error (.parse ⟨129, .depthLimit⟩) := by
  have hcall : ⟨.deserialize, .nested 129⟩ ∈ (Schema.lists 129).calls := by simp [Schema.lists]
  have hwarnings : (ofSchema (.lists 129) ⟨false⟩).warnings = [] := by decide +kernel
  refine ⟨hwarnings, limitsDepth_of_call ⟨false⟩ hcall hwarnings, ?_⟩
  rw [deserialize_of_call ⟨false⟩ hcall (by decide +kernel)]
  decide +kernel

end Generation

end ShapeCodec
