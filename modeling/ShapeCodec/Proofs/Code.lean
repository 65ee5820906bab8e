import ShapeCodec.Proofs.Default
import ShapeCodec.Proofs.Table
/-! What the code of a routine looks like from outside: which values its instructions use, inside a
loop or not, and which routines they call. Literals use no value, so merging them leaves all of this
as it was in the tree. -/
namespace ShapeCodec

/-- What a write instruction does with a value. -/
inductive Use where
  | guard (source : ValueSource)
  | scalar (source : ValueSource)
  | call (id : RoutineId) (source : ValueSource)
  | loop (source : ValueSource)
  deriving DecidableEq

def Use.source : Use → ValueSource
  | guard source => source
  | scalar source => source
  | call _ source => source
  | loop source => source

/-- How a child is used that is found at `source`. -/
def Operand.use (source : ValueSource) : Operand → Use
  | int => .scalar source
  | str => .scalar source
  | call id => .call id source

theorem Operand.source_use (source : ValueSource) (operand : Operand) :
    (operand.use source).source = source := by
  cases operand <;> rfl

namespace WriteStep

mutual

/-- The uses of values in a block in order, each with whether it stands inside a loop. -/
def uses (looping : Bool) : List WriteStep → List (Bool × Use)
  | [] => []
  | instr :: rest => instr.usesInside looping ++ uses looping rest

def usesInside (looping : Bool) : WriteStep → List (Bool × Use)
  | literal _ => []
  | nullGuard source => [(looping, .guard source)]
  | int source => [(looping, .scalar source)]
  | str source => [(looping, .scalar source)]
  | call id source => [(looping, .call id source)]
  | each list body _ _ => (looping, .loop list) :: uses true body

end

variable {looping : Bool}

theorem uses_append (a b : List WriteStep) :
    uses looping (a ++ b) = uses looping a ++ uses looping b := by
  induction a with
  | nil => rfl
  | cons instr rest ih => rw [List.cons_append, uses, uses, ih, List.append_assoc]

theorem uses_prependLiteral (text : String) (code : List WriteStep) :
    uses looping (prependLiteral text code) = uses looping code := by
  unfold prependLiteral
  split
  · rfl
  · split <;> rfl

mutual

theorem usesInside_mergeInside (looping : Bool) (instr : WriteStep) :
    instr.mergeInside.usesInside looping = instr.usesInside looping := by
  cases instr with
  | each list body separator terminator =>
    rw [mergeInside, usesInside, usesInside, uses_mergeLiterals true body]
  | _ => rfl

/-- Merging literals does not touch the uses of values. -/
theorem uses_mergeLiterals (looping : Bool) (code : List WriteStep) :
    uses looping (mergeLiterals code) = uses looping code := by
  cases code with
  | nil => rfl
  | cons instr rest =>
    have hrest := uses_mergeLiterals looping rest
    have hinstr := usesInside_mergeInside looping instr
    cases instr with
    | literal text =>
      rw [mergeLiterals, uses_prependLiteral, hrest]
      rfl
    | _ => simp only [mergeLiterals, uses, hinstr, hrest]

end

theorem uses_child (source : ValueSource) (operand : Operand) :
    uses looping (Layout.childTree source operand).flatten =
      [(looping, operand.use source)] := by
  cases operand <;> rfl

theorem uses_members (looping : Bool) (members : List (String × Operand)) (offset : Nat) :
    uses looping (WriteTree.flattenMembers (members.mapIdx fun slot member =>
        (member.1, Layout.childTree (.field (offset + slot)) member.2))) =
      members.mapIdx fun slot member => (looping, member.2.use (.field (offset + slot))) := by
  induction members generalizing offset with
  | nil => rfl
  | cons member rest ih =>
    have hrest := ih (offset + 1)
    simp only [Nat.add_assoc, Nat.add_comm 1] at hrest
    simp only [List.mapIdx_cons, WriteTree.flattenMembers, List.cons_append, uses, usesInside,
      List.nil_append, uses_append, uses_child, hrest, Nat.add_zero]

end WriteStep

namespace Layout

/-- The uses of values in the code for a layout, apart from the guard. -/
def uses : Layout → List (Bool × Use)
  | scalar operand => [(false, operand.use .arg)]
  | object _ _ members => members.mapIdx fun slot member => (false, member.2.use (.field slot))
  | list _ operand => [(false, .loop .arg), (true, operand.use .element)]

/-- Whether the code begins with a guard against null. -/
def guarded : Layout → Bool
  | scalar _ => false
  | object _ nullable _ => nullable
  | list nullable _ => nullable

theorem mergeLiterals_guard (guarded : Bool) (code : List WriteStep) :
    WriteStep.mergeLiterals (WriteTree.guard .arg guarded ++ code) =
      WriteTree.guard .arg guarded ++ WriteStep.mergeLiterals code := by
  cases guarded <;> rfl

/-- The code for a layout is a guard, if the layout asks for one, and then its uses. -/
theorem code_eq (layout : Layout) : ∃ body,
    WriteStep.mergeLiterals (layout.writeTree .arg).flatten =
      WriteTree.guard .arg layout.guarded ++ body ∧
    WriteStep.uses false body = layout.uses := by
  cases layout with
  | scalar operand =>
    refine ⟨_, rfl, ?_⟩
    rw [WriteStep.uses_mergeLiterals]
    exact WriteStep.uses_child .arg operand
  | object type nullable members =>
    have hmembers := WriteStep.uses_members false members 0
    simp only [Nat.zero_add] at hmembers
    rw [writeTree, WriteTree.flatten, List.append_assoc, mergeLiterals_guard]
    refine ⟨_, rfl, ?_⟩
    rw [WriteStep.uses_mergeLiterals]
    simp [WriteStep.uses, WriteStep.usesInside, WriteStep.uses_append, hmembers, uses]
  | list nullable operand =>
    rw [writeTree, WriteTree.flatten, mergeLiterals_guard]
    refine ⟨_, rfl, ?_⟩
    rw [WriteStep.uses_mergeLiterals]
    simp [WriteStep.uses, WriteStep.usesInside, WriteStep.uses_child, uses]

end Layout

/-- The shape of the child that a routine for a shape finds at a source. -/
inductive ChildAt (s : Schema) : Shape → ValueSource → Shape → Prop
  | field {name nullable slot p} : (s.properties name)[slot]? = some p →
      ChildAt s (.object name nullable) (.field slot) p.effectiveShape
  | element {element nullable} : ChildAt s (.list element nullable) .element element

/-- If the operand is a call, it calls a routine for the child. -/
def Operand.Targets (table : List Routine) (direction : Direction) (child : Shape)
    (operand : Operand) : Prop :=
  ∀ id, operand = .call id → Table.At table id child direction

/-- What the code of a routine may do with a value, apart from the guard. -/
inductive Permits (s : Schema) (table : List Routine) : Shape → Bool → Use → Prop
  | scalar {shape} : shape.isComposite = false → Permits s table shape false (.scalar .arg)
  | field {name nullable slot p} {operand : Operand} : (s.properties name)[slot]? = some p →
      operand.Targets table .serialize p.effectiveShape →
      Permits s table (.object name nullable) false (operand.use (.field slot))
  | loop {element nullable} : Permits s table (.list element nullable) false (.loop .arg)
  | element {element nullable} {operand : Operand} : operand.Targets table .serialize element →
      Permits s table (.list element nullable) true (operand.use .element)

/-- The write code of a routine keeps to the shape: it is guarded against null exactly if the shape
is a nullable object or list, before everything else and nowhere else; fields are declared ones;
there are no loops but over the argument, none inside another, and their element is used nowhere
else; and every child is left to a routine of its own shape. -/
structure Routine.WritesBy (s : Schema) (table : List Routine) (r : Routine)
    (code : List WriteStep) : Prop where
  direction : r.direction = .serialize
  guard : ∃ body, code = WriteTree.guard .arg (r.shape.isComposite && r.shape.isNullable) ++ body ∧
    ∀ looping source, (looping, Use.guard source) ∉ WriteStep.uses false body
  field : ∀ looping use slot, (looping, use) ∈ WriteStep.uses false code →
    use.source = .field slot → ∃ count, r.fieldCount = some count ∧ slot < count
  loop : ∀ looping source, (looping, Use.loop source) ∈ WriteStep.uses false code →
    looping = false ∧ source = .arg
  element : ∀ looping use, (looping, use) ∈ WriteStep.uses false code →
    use.source = .element → looping = true
  call : ∀ looping id source, (looping, Use.call id source) ∈ WriteStep.uses false code →
    ∃ child, ChildAt s r.shape source child ∧ Table.At table id child .serialize

/-- The plan of a read routine keeps to the shape. A plan for an object has the declared properties
in order, each with its number as its slot, and a default for each. -/
inductive Routine.ReadsBy (s : Schema) (table : List Routine) (r : Routine) : ReadPlan → Prop
  | scalar {operand} : r.direction = .deserialize → r.shape.isComposite = false →
      (∀ id, operand ≠ .call id) → ReadsBy s table r (.scalar operand)
  | object {name nullable decl fields defaults} : r.direction = .deserialize →
      r.shape = .object name nullable → s.type? name = some decl →
      r.fieldCount = some decl.properties.length →
      List.Forall₂ (fun p f => f.name = p.name ∧
        f.operand.Targets table .deserialize p.effectiveShape) decl.properties fields →
      fields.map FieldPlan.slot = List.range decl.properties.length →
      defaults.length = decl.properties.length →
      ReadsBy s table r (.object name nullable fields defaults)
  | list {element nullable operand} : r.direction = .deserialize →
      r.shape = .list element nullable → operand.Targets table .deserialize element →
      ReadsBy s table r (.list nullable operand)

section For

variable {s : Schema} {table : List Routine} {direction : Direction} {shape : Shape}
  {operand : Operand} {layout : Layout} {r : Routine}

theorem Operand.For.targets (h : Operand.For s table direction shape operand) :
    operand.Targets table direction shape := by
  rintro id rfl
  cases h with
  | call hcomposite href hat => exact hat

theorem Operand.For.not_call (h : Operand.For s table direction shape operand)
    (hscalar : shape.isComposite = false) (id : RoutineId) : operand ≠ .call id := by
  rintro rfl
  cases h with
  | call hcomposite => simp [hscalar] at hcomposite

theorem Layout.For.permits (h : Layout.For s table .serialize shape layout) {looping : Bool}
    {use : Use} (hmem : (looping, use) ∈ layout.uses) : Permits s table shape looping use := by
  cases h with
  | @scalar _ operand hscalar hoperand =>
    obtain ⟨rfl, rfl⟩ : looping = false ∧ use = operand.use .arg := by simpa [uses] using hmem
    cases hoperand with
    | call hcomposite => simp [hscalar] at hcomposite
    | _ => exact .scalar hscalar
  | @object name nullable decl members hdecl hlaid =>
    obtain ⟨slot, hslot, heq⟩ := List.mem_mapIdx.1 hmem
    cases heq
    obtain ⟨p, hp, hfor⟩ := getElem?_of_forall₂ hlaid.flip (List.getElem?_eq_getElem hslot)
    rw [← Schema.properties_of_type? hdecl] at hp
    exact .field hp hfor.2.targets
  | @list element nullable operand hoperand =>
    simp only [uses, List.mem_cons, Prod.mk.injEq, List.not_mem_nil, or_false] at hmem
    rcases hmem with ⟨rfl, rfl⟩ | ⟨rfl, rfl⟩
    · exact .loop
    · exact .element hoperand.targets

namespace Permits

variable {looping : Bool} {use : Use} {source : ValueSource} {id : RoutineId} {slot : Nat}

theorem ne_guard (h : Permits s table shape looping use) : use ≠ .guard source := by
  rintro rfl
  generalize huse : Use.guard source = use at h
  cases h with
  | @field _ _ _ _ operand => cases operand <;> cases huse
  | @element _ _ operand => cases operand <;> cases huse
  | _ => cases huse

/-- Fields are declared ones. -/
theorem field_lt (h : Permits s table shape looping use) (hsource : use.source = .field slot) :
    ∃ name nullable, shape = .object name nullable ∧ slot < (s.properties name).length := by
  cases h with
  | @field name nullable _ p operand hp =>
    rw [Operand.source_use] at hsource
    cases hsource
    exact ⟨name, nullable, rfl, (List.getElem?_eq_some_iff.1 hp).1⟩
  | element =>
    rw [Operand.source_use] at hsource
    cases hsource
  | _ => cases hsource

/-- Loops run over the argument, outside other loops. -/
theorem of_loop (h : Permits s table shape looping (.loop source)) :
    looping = false ∧ source = .arg := by
  generalize huse : Use.loop source = use at h
  cases h with
  | scalar => cases huse
  | @field _ _ _ _ operand => cases operand <;> cases huse
  | loop =>
    cases huse
    exact ⟨rfl, rfl⟩
  | @element _ _ operand => cases operand <;> cases huse

/-- The element of a loop is used inside it only. -/
theorem looping_of_element (h : Permits s table shape looping use)
    (hsource : use.source = .element) : looping = true := by
  cases h with
  | element => rfl
  | field =>
    rw [Operand.source_use] at hsource
    cases hsource
  | _ => cases hsource

/-- Calls are for the child at the source. -/
theorem of_call (h : Permits s table shape looping (.call id source)) :
    ∃ child, ChildAt s shape source child ∧ Table.At table id child .serialize := by
  generalize huse : Use.call id source = use at h
  cases h with
  | @field _ _ _ p operand hp htargets =>
    cases operand with
    | call id =>
      cases huse
      exact ⟨_, .field hp, htargets _ rfl⟩
    | _ => cases huse
  | @element _ _ operand htargets =>
    cases operand with
    | call id =>
      cases huse
      exact ⟨_, .element, htargets _ rfl⟩
    | _ => cases huse
  | _ => cases huse

end Permits

theorem Layout.For.guarded (h : Layout.For s table direction shape layout) :
    layout.guarded = (shape.isComposite && shape.isNullable) := by
  cases h with
  | scalar hscalar => simp [Layout.guarded, hscalar]
  | _ => rfl

/-- The code for a layout keeps to the shape of the layout. -/
theorem Layout.For.writesBy (h : Layout.For s table .serialize r.shape layout)
    (hdirection : r.direction = .serialize)
    (hcount : r.fieldCount = Emitter.fieldCount? s r.shape) :
    r.WritesBy s table (WriteStep.mergeLiterals (layout.writeTree .arg).flatten) := by
  obtain ⟨body, hcode, hbody⟩ := layout.code_eq
  have huses {looping : Bool} {use : Use}
      (hmem : (looping, use) ∈ WriteStep.uses false (WriteTree.guard .arg layout.guarded ++ body)) :
      use = .guard .arg ∨ Permits s table r.shape looping use := by
    rw [WriteStep.uses_append, hbody, List.mem_append] at hmem
    refine hmem.imp (fun hguard => ?_) h.permits
    cases hguarded : layout.guarded with
    | true =>
      rw [hguarded] at hguard
      exact congrArg Prod.snd (List.mem_singleton.1 hguard)
    | false => simp [hguarded, WriteTree.guard, WriteStep.uses] at hguard
  rw [hcode]
  refine ⟨hdirection, ⟨body, by rw [h.guarded], ?_⟩, ?_, ?_, ?_, ?_⟩
  · intro looping source hmem
    rw [hbody] at hmem
    exact (h.permits hmem).ne_guard rfl
  · intro looping use slot hmem hsource
    rcases huses hmem with rfl | hpermits
    · cases hsource
    · obtain ⟨name, nullable, hshape, hslot⟩ := hpermits.field_lt hsource
      rw [hshape] at h
      cases h with
      | scalar hscalar => simp [Shape.isComposite] at hscalar
      | object hdecl =>
        rw [Schema.properties_of_type? hdecl] at hslot
        exact ⟨_, by simp [hcount, hshape, Emitter.fieldCount?, hdecl], hslot⟩
  · intro looping source hmem
    rcases huses hmem with heq | hpermits
    · cases heq
    · exact hpermits.of_loop
  · intro looping use hmem hsource
    rcases huses hmem with rfl | hpermits
    · cases hsource
    · exact hpermits.looping_of_element hsource
  · intro looping id source hmem
    rcases huses hmem with heq | hpermits
    · cases heq
    · exact hpermits.of_call

theorem plan_of_laid {properties : List Property} {members : List (String × Operand)}
    (h : List.Forall₂ (Property.Laid s table .deserialize) properties members) (offset : Nat) :
    List.Forall₂ (fun (p : Property) (f : FieldPlan) => f.name = p.name ∧
        f.operand.Targets table .deserialize p.effectiveShape) properties
      (members.mapIdx fun slot member => ⟨member.1, offset + slot, member.2⟩) := by
  induction h generalizing offset with
  | nil => exact .nil
  | cons hp _ ih =>
    rw [List.mapIdx_cons]
    refine .cons ⟨hp.1, hp.2.targets⟩ ?_
    simpa only [Nat.add_assoc, Nat.add_comm 1] using ih (offset + 1)

/-- The plan for a layout keeps to the shape of the layout. -/
theorem Layout.For.readsBy {plan : ReadPlan} (h : Layout.For s table .deserialize r.shape layout)
    (hdirection : r.direction = .deserialize)
    (hcount : r.fieldCount = Emitter.fieldCount? s r.shape) (hplan : layout.readPlan s = .ok plan) :
    r.ReadsBy s table plan := by
  generalize hshape : r.shape = shape at h
  cases h with
  | scalar hscalar hoperand =>
    cases hplan
    exact .scalar hdirection (hshape ▸ hscalar) (hoperand.not_call hscalar)
  | list hoperand =>
    cases hplan
    exact .list hdirection hshape hoperand.targets
  | @object name nullable decl members hdecl hlaid =>
    cases hdefault : s.defaultValue (.object name false) with
    | error e => simp [Layout.readPlan, hdefault, bind, Except.bind] at hplan
    | ok value =>
      obtain ⟨decl', fields, hdecl', rfl, hfields⟩ := Schema.defaultValue_object hdefault
      obtain rfl := Option.some.inj (hdecl.symm.trans hdecl')
      simp only [Layout.readPlan, hdefault, bind, Except.bind, Except.ok.injEq] at hplan
      subst hplan
      have hlaid' := plan_of_laid hlaid 0
      simp only [Nat.zero_add] at hlaid'
      refine .object hdirection hshape hdecl ?_ hlaid' ?_ hfields.length_eq.symm
      · simp [hcount, hshape, Emitter.fieldCount?, hdecl]
      · rw [hlaid.length_eq]
        exact List.ext_getElem (by simp) (by simp)

end For

end ShapeCodec
