import ShapeCodec.Proofs.Code
import ShapeCodec.Proofs.Expression
import ShapeCodec.Proofs.Stubs
/-! Declared types by their names. An expression over the name of a declared type leads to the
routines of that type, at call sites and in properties, as long as the name is no keyword of the
expressions; nothing that is written down denotes a type whose name is one. -/
namespace ShapeCodec

namespace Shape

open Text (Blanks)

variable {name text : String} {shape : Shape} {body : List Char}

/-- The meaning of names where only one of them has any: it stands for its object. -/
def naming (name : String) (word : String) (nullable : Bool) : Option Shape :=
  if word = name then some (.object name nullable) else none

/-- The text is an expression over one name, which stands for the shape if the name stands for its
object. Blanks may stand around it. -/
inductive Names (name text : String) (shape : Shape) : Prop
  | mk {lead body trail} : text.toList = lead ++ body ++ trail → Blanks lead → Blanks trail →
      Expression (naming name) body shape → Names name text shape

theorem naming_eq_some {word : String} {nullable : Bool}
    (h : naming name word nullable = some shape) : word = name ∧ shape = .object name nullable := by
  unfold naming at h
  split at h
  · next hword => exact ⟨hword, (Option.some.inj h).symm⟩
  · cases h

theorem root_of_expression (h : Expression (naming name) body shape) :
    shape.rootName? = some name ∧ shape.unsupportedText? = none := by
  induction h with
  | name hword =>
    obtain ⟨-, rfl⟩ := naming_eq_some hword
    exact ⟨rfl, rfl⟩
  | list _ _ _ _ _ ih => exact ih

theorem Names.root (h : Names name text shape) : shape.rootName? = some name := by
  obtain ⟨-, -, -, hbody⟩ := h
  exact (root_of_expression hbody).1

theorem Names.ofText (h : Names name text shape) (hname : isIdentifier name = true)
    (hfree : name ∉ keywords) : Shape.ofText text = shape := by
  obtain ⟨htext, hlead, htrail, hbody⟩ := h
  have hmono : Expression ofName? _ shape := hbody.mono fun word nullable shape hword => by
    obtain ⟨rfl, rfl⟩ := naming_eq_some hword
    exact ofName?_of_notMem hname hfree nullable
  exact hmono.ofText hlead htrail htext

theorem Names.checkReferences {s : Schema} (h : Names name text shape)
    (hdeclared : s.isDeclared name = true) : s.checkReferences shape = .ok () := by
  obtain ⟨-, -, -, hbody⟩ := h
  obtain ⟨hroot, hsupported⟩ := root_of_expression hbody
  simp [Schema.checkReferences, hroot, hsupported, hdeclared]

/-- Whatever a text denotes has a root that may be declared and named. -/
theorem notMem_keywords_of_ofText (hroot : (Shape.ofText text).rootName? = some name) :
    isIdentifier name = true ∧ name ∉ keywords := by
  rw [Shape.ofText] at hroot
  cases hparse : Shape.ofChars? (Text.trim text.toList) with
  | none =>
    rw [hparse] at hroot
    cases hroot
  | some shape =>
    rw [hparse] at hroot
    exact notMem_keywords_of_ofChars? hparse hroot

end Shape

theorem isIdentifier_of_isDeclared {s : Schema} {name : String} (h : s.isDeclared name = true) :
    isIdentifier name = true := by
  obtain ⟨decl, hdecl, rfl⟩ := List.mem_map.1 ((s.isDeclared_iff name).1 h)
  exact (s.valid decl hdecl).name

/-- A shape that can be referenced is denoted by its text, unless its root is a keyword. -/
theorem ofText_text_iff {s : Schema} {shape : Shape} (href : s.checkReferences shape = .ok ()) :
    Shape.ofText shape.text = shape ↔
      ∀ name, shape.rootName? = some name → name ∉ Shape.keywords := by
  constructor
  · intro h name hroot
    rw [← h] at hroot
    exact (Shape.notMem_keywords_of_ofText hroot).2
  · intro hfree
    have hsupported : shape.unsupportedText? = none := by
      cases hunsupported : shape.unsupportedText? with
      | none => rfl
      | some text => simp [Schema.checkReferences, hunsupported] at href
    have hroot : ∀ name, shape.rootName? = some name →
        isIdentifier name = true ∧ name ∉ Shape.keywords := by
      intro name hname
      refine ⟨isIdentifier_of_isDeclared (s := s) ?_, hfree name hname⟩
      by_contra hundeclared
      simp [Schema.checkReferences, hsupported, hname, hundeclared] at href
    exact (Shape.expression_text hsupported hroot).ofText Text.blanks_nil Text.blanks_nil (by simp)

section Calls

/-- The plan leaves the value for a source to a routine. -/
inductive ReadPlan.Calls : ReadPlan → ValueSource → RoutineId → Prop
  | scalar {id} : Calls (.scalar (.call id)) .arg id
  | field {type nullable fields defaults name slot id} : ⟨name, slot, .call id⟩ ∈ fields →
      Calls (.object type nullable fields defaults) (.field slot) id
  | element {nullable id} : Calls (.list nullable (.call id)) .element id

/-- The code of a routine leaves the value at a source to a routine. -/
inductive RoutineCode.Calls : RoutineCode → ValueSource → RoutineId → Prop
  | write {code looping source id} : (looping, Use.call id source) ∈ WriteStep.uses false code →
      Calls (.write code) source id
  | read {plan source id} : plan.Calls source id → Calls (.read plan) source id

variable {s : Schema} {table : List Routine} {direction : Direction} {shape child : Shape}
  {layout : Layout} {source : ValueSource} {operand : Operand} {id : RoutineId}

/-- What stands for the child at a source. -/
def Layout.operand? : Layout → ValueSource → Option Operand
  | .object _ _ members, .field slot => members[slot]?.map Prod.snd
  | .list _ operand, .element => some operand
  | _, _ => none

/-- Every child of a shape has its place in the layout. -/
theorem Layout.For.operand?_of_childAt (h : Layout.For s table direction shape layout)
    (hchild : ChildAt s shape source child) :
    ∃ operand, layout.operand? source = some operand ∧
      Operand.For s table direction child operand := by
  cases hchild with
  | @field name nullable slot p hp =>
    cases h with
    | scalar hscalar => cases hscalar
    | object hdecl hlaid =>
      rw [Schema.properties_of_type? hdecl] at hp
      obtain ⟨member, hmember, -, hoperand⟩ := getElem?_of_forall₂ hlaid hp
      exact ⟨member.2, by rw [Layout.operand?, hmember, Option.map_some], hoperand⟩
  | element =>
    cases h with
    | scalar hscalar => cases hscalar
    | list hoperand => exact ⟨_, rfl, hoperand⟩

/-- The write code for a layout does its calls. -/
theorem Layout.use_of_operand? (h : layout.operand? source = some (.call id)) :
    ∃ looping, (looping, Use.call id source) ∈ layout.uses := by
  unfold Layout.operand? at h
  split at h
  · next members slot =>
    obtain ⟨member, hmember, hoperand⟩ := Option.map_eq_some_iff.1 h
    have hslot : (members.mapIdx fun slot member => (false, member.2.use (.field slot)))[slot]? =
        some (false, .call id (.field slot)) := by
      rw [List.getElem?_mapIdx, hmember, Option.map_some, hoperand]
      rfl
    exact ⟨false, List.mem_of_getElem? hslot⟩
  · cases h
    exact ⟨true, List.mem_cons_of_mem _ List.mem_cons_self⟩
  · cases h

/-- The read plan for a layout does its calls. -/
theorem Layout.plan_of_operand? {plan : ReadPlan} (hplan : layout.readPlan s = .ok plan)
    (h : layout.operand? source = some (.call id)) : plan.Calls source id := by
  unfold Layout.operand? at h
  split at h
  · next members slot =>
    obtain ⟨member, hmember, hoperand⟩ := Option.map_eq_some_iff.1 h
    simp only [readPlan, bind, Except.bind] at hplan
    split at hplan
    · cases hplan
    · split at hplan
      · cases hplan
        have hslot :
            (members.mapIdx fun slot member => FieldPlan.mk member.1 slot member.2)[slot]? =
              some ⟨member.1, slot, .call id⟩ := by
          rw [List.getElem?_mapIdx, hmember, Option.map_some, hoperand]
        exact .field (List.mem_of_getElem? hslot)
      · cases hplan
  · cases h
    cases hplan
    exact .element
  · cases h

/-- A routine calls a routine for every composite child. -/
theorem Routine.Faithful.calls {r : Routine} (h : r.Faithful s table)
    (hfault : s.routineFault? r.direction r.shape = none) (hchild : ChildAt s r.shape source child)
    (hcomposite : child.isComposite = true) :
    ∃ id, r.body.Calls source id ∧ Table.At table id child r.direction := by
  obtain ⟨layout, hlayout, hbody⟩ := h.code hfault
  obtain ⟨operand, hoperand, hfor⟩ := hlayout.operand?_of_childAt hchild
  cases hfor with
  | int | string => cases hcomposite
  | @call _ id _ _ hat =>
    refine ⟨id, ?_, hat⟩
    generalize r.direction = direction at hbody
    cases direction with
    | serialize =>
      obtain ⟨body, hcode, huses⟩ := layout.code_eq
      obtain ⟨looping, hmem⟩ := Layout.use_of_operand? hoperand
      have hcall : (looping, Use.call id source) ∈
          WriteStep.uses false (WriteStep.mergeLiterals (layout.writeTree .arg).flatten) := by
        rw [hcode, WriteStep.uses_append, huses]
        exact List.mem_append_right _ hmem
      rw [← Except.ok.inj hbody]
      exact .write hcall
    | deserialize =>
      cases hplan : layout.readPlan s with
      | error e => simp [Emitter.bodyOf, hplan, Except.map] at hbody
      | ok plan =>
        simp only [Emitter.bodyOf, hplan, Except.map, Except.ok.injEq] at hbody
        rw [← hbody]
        exact .read (Layout.plan_of_operand? hplan hoperand)

/-- A routine is for the object of a name, or calls routines for the elements of lists down to one
that is. -/
inductive Leads (table : List Routine) (name : String) (direction : Direction) : RoutineId → Prop
  | object {id nullable} : Table.At table id (.object name nullable) direction →
      Leads table name direction id
  | list {id r element nullable next} : table[id.index]? = some r →
      r.key = (.list element nullable, direction) → r.body.Calls .element next →
      Leads table name direction next → Leads table name direction id

end Calls

namespace Generation

variable {s : Schema} {options : Options} {direction : Direction} {shape child : Shape}
  {source : ValueSource} {id : RoutineId} {name : String} {r : Routine}

/-- What is no stub has been asked for, and has no fault. -/
theorem called_of_not_stub (hr : r ∈ (ofSchema s options).codec.routines)
    (hcode : r.isStub = false) :
    r ∈ (called s).emitter.routines ∧ s.routineFault? r.direction r.shape = none := by
  have hcalled : r ∈ (called s).emitter.routines := by
    rw [ofSchema_eq, List.mem_append] at hr
    refine hr.resolve_right fun hunused => ?_
    obtain ⟨_, -, _, _, rfl⟩ := mem_unusedRoutines hunused
    cases hcode
  refine ⟨hcalled, ?_⟩
  cases hfault : s.routineFault? r.direction r.shape with
  | none => rfl
  | some e =>
    rw [Routine.isStub, ((sound_called s).faithful r hcalled).stub e hfault] at hcode
    cases hcode

theorem calls_child (hr : r ∈ (ofSchema s options).codec.routines) (hcode : r.isStub = false)
    (hchild : ChildAt s r.shape source child) (hcomposite : child.isComposite = true) :
    ∃ id, r.body.Calls source id ∧
      Table.At (ofSchema s options).codec.routines id child r.direction := by
  obtain ⟨hcalled, hfault⟩ := called_of_not_stub hr hcode
  obtain ⟨id, hcalls, hat⟩ := ((sound_called s).faithful r hcalled).calls hfault hchild hcomposite
  rw [ofSchema_eq]
  exact ⟨id, hcalls, hat.append _⟩

/-- The routines of lists are never stubs. -/
theorem not_stub_of_list {element : Shape} {nullable : Bool}
    (hr : r ∈ (ofSchema s options).codec.routines) (hshape : r.shape = .list element nullable) :
    r.isStub = false := by
  have hcalled : r ∈ (called s).emitter.routines := by
    rw [ofSchema_eq, List.mem_append] at hr
    refine hr.resolve_right fun hunused => ?_
    obtain ⟨_, -, _, _, rfl⟩ := mem_unusedRoutines hunused
    cases hshape
  have hcode : r.HasCode := hasCode_of_not_faulty hcalled fun e hfaulty => by
    obtain ⟨_, _, hobject, -⟩ := hfaulty.object
    rw [hshape] at hobject
    cases hobject
  exact hcode.isStub_eq_false

theorem isComposite_of_rootName? (h : shape.rootName? = some name) : shape.isComposite = true := by
  cases shape with
  | object | list => rfl
  | _ => cases h

theorem leads_of_at (hat : Table.At (ofSchema s options).codec.routines id shape direction)
    (hroot : shape.rootName? = some name) :
    Leads (ofSchema s options).codec.routines name direction id := by
  induction shape generalizing id with
  | object other nullable =>
    cases hroot
    exact .object hat
  | list element nullable ih =>
    obtain ⟨r, hid, hshape, hdirection⟩ := Table.at_iff.1 hat
    have hr := List.mem_of_getElem? hid
    have hchild : ChildAt s r.shape .element element := hshape ▸ .element
    obtain ⟨next, hcalls, hnext⟩ :=
      calls_child hr (not_stub_of_list hr hshape) hchild (isComposite_of_rootName? hroot)
    rw [hdirection] at hnext
    exact .list hid (by rw [Routine.key, hshape, hdirection]) hcalls (ih hnext hroot)
  | _ => cases hroot

/-- A shape that a call site asks for has an entry point, which leads to its root. -/
theorem leads_of_call (hcall : ⟨direction, shape⟩ ∈ s.calls)
    (href : s.checkReferences shape = .ok ()) (hroot : shape.rootName? = some name) :
    ∃ entry id, (ofSchema s options).codec.entryPoint shape direction = .ok (entry, id) ∧
      Table.At (ofSchema s options).codec.routines id shape direction ∧
      Leads (ofSchema s options).codec.routines name direction id := by
  obtain ⟨table, more, entry, id, hroutines, -, -, hpoint, -, hat⟩ :=
    entryPoint_of_call options hcall href
  have hat' : Table.At (ofSchema s options).codec.routines id shape direction :=
    hroutines ▸ hat.append more
  exact ⟨entry, id, hpoint, hat', leads_of_at hat' hroot⟩

/-- Wherever the name of a type is written in a type expression, its routines are reached. -/
structure Reaches (s : Schema) (options : Options) (name : String) : Prop where
  /-- An expression over the name is parsed as the shape it stands for, which can be referenced. -/
  denotes : ∀ text shape, Shape.Names name text shape → Shape.ofText text = shape ∧
    shape.rootName? = some name ∧ s.checkReferences shape = .ok ()
  /-- A call site has an entry point. -/
  enters : ∀ text shape direction, Shape.Names name text shape →
    ⟨direction, Shape.ofText text⟩ ∈ s.calls →
    ∃ entry id, (ofSchema s options).codec.entryPoint shape direction = .ok (entry, id) ∧
      Table.At (ofSchema s options).codec.routines id shape direction ∧
      Leads (ofSchema s options).codec.routines name direction id
  /-- A property is left to a routine for its shape. -/
  calls : ∀ r ∈ (ofSchema s options).codec.routines, r.isStub = false →
    ∀ type nullable slot p text shape, r.shape = .object type nullable →
      (s.properties type)[slot]? = some p → Shape.Names name text shape →
      p.shape = Shape.ofText text →
      ∃ id, r.body.Calls (.field slot) id ∧
        Table.At (ofSchema s options).codec.routines id p.effectiveShape r.direction ∧
        Leads (ofSchema s options).codec.routines name r.direction id

theorem rootName?_effectiveShape (p : Property) :
    p.effectiveShape.rootName? = p.shape.rootName? := by
  unfold Property.effectiveShape
  split
  · next element nullable hshape => rw [hshape, Shape.rootName?, Shape.rootName?,
      Shape.rootName?_withNullable]
  · rw [Shape.rootName?_withNullable]

theorem reaches_of_notMem (options : Options) (hdeclared : s.isDeclared name = true)
    (hfree : name ∉ Shape.keywords) : Reaches s options name := by
  have hname := isIdentifier_of_isDeclared hdeclared
  refine ⟨?_, ?_, ?_⟩
  · intro text shape hnames
    exact ⟨hnames.ofText hname hfree, hnames.root, hnames.checkReferences hdeclared⟩
  · intro text shape direction hnames hcall
    rw [hnames.ofText hname hfree] at hcall
    exact leads_of_call hcall (hnames.checkReferences hdeclared) hnames.root
  · intro r hr hcode type nullable slot p text shape hshape hp hnames hwritten
    have hroot : p.effectiveShape.rootName? = some name := by
      rw [rootName?_effectiveShape, hwritten, hnames.ofText hname hfree, hnames.root]
    have hchild : ChildAt s r.shape (.field slot) p.effectiveShape := hshape ▸ .field hp
    obtain ⟨id, hcalls, hat⟩ := calls_child hr hcode hchild (isComposite_of_rootName? hroot)
    exact ⟨id, hcalls, hat, leads_of_at hat hroot⟩

/-- A declared type is reached by its name exactly if that is no keyword: otherwise no text at all
denotes the type or a list over it. Of the shapes that can be referenced, those are denoted by their
texts whose root is not such a type. -/
theorem reaches_exact (s : Schema) (options : Options) :
    (∀ name, s.isDeclared name = true →
      (name ∉ Shape.keywords → Reaches s options name) ∧
      (name ∈ Shape.keywords → ∀ text, (Shape.ofText text).rootName? ≠ some name)) ∧
    ∀ shape, s.checkReferences shape = .ok () → (Shape.ofText shape.text = shape ↔
      ∀ name, shape.rootName? = some name → name ∉ Shape.keywords) := by
  refine ⟨fun name hdeclared => ⟨reaches_of_notMem options hdeclared, ?_⟩,
    fun shape => ofText_text_iff⟩
  intro hkeyword text hroot
  exact (Shape.notMem_keywords_of_ofText hroot).2 hkeyword

/-- A declared type that a call site and a property of another type refer to by its name. -/
def ratio : Schema where
  types := [⟨"float", [⟨"Value", .int, true, true⟩]⟩,
    ⟨"Scale", [⟨"Factor", Shape.ofText "float", true, true⟩]⟩]
  calls := [⟨.serialize, Shape.ofText "float"⟩, ⟨.serialize, Shape.ofText "Scale"⟩]
  valid := by decide +kernel
  nodup := by decide +kernel

/-- The type is declared, and yet the call site has no entry, the other type has a stub, and the
text of the shape denotes something else. -/
theorem unreached_float : ratio.isDeclared "float" = true ∧
    ratio.checkReferences (Shape.ofText "float") = .error (.unsupported "float") ∧
    (ofSchema ratio ⟨false⟩).codec.entryPoint (Shape.ofText "float") .serialize =
      .error (.noEntry (.unsupported "float") .serialize) ∧
    (ofSchema ratio ⟨false⟩).codec.stubCount = 1 ∧
    ratio.checkReferences (.object "float" true) = .ok () ∧
    Shape.ofText (Shape.object "float" true).text ≠ .object "float" true := by
  decide +kernel

end Generation

end ShapeCodec
