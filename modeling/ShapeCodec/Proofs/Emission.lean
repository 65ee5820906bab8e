import Mathlib.Data.List.Nodup
import ShapeCodec.Proofs.Default
import ShapeCodec.Proofs.Running
import ShapeCodec.Proofs.Table
/-! What emission adds to a table. It only appends: the new routines are faithful to the schema once
the outermost request is done, each stub among them has its warning, and all of them are for shapes
of the closure. While a body is being built its position holds a pending stub, but calls to it are
right already, since they depend on keys alone. The levels of `emitWithin` never run out: each one
uses up a shape of the closure that had no routine. -/
namespace ShapeCodec

theorem Shape.element_mem_parts {shape element : Shape} {nullable : Bool}
    (h : Shape.list element nullable ∈ shape.parts) : element ∈ shape.parts := by
  induction shape with
  | list inner flag ih =>
    rw [Shape.parts, List.mem_cons] at h ⊢
    rcases h with h | h
    · cases h
      exact .inr element.self_mem_parts
    · exact .inr (ih h)
  | _ => simp [Shape.parts] at h

namespace Schema

variable {s : Schema} {root : Shape}

theorem self_mem_closure (s : Schema) (shape : Shape) : shape ∈ s.closure shape :=
  List.mem_append_left _ shape.self_mem_parts

theorem type?_eq_some {name : String} {decl : Declaration} (h : s.type? name = some decl) :
    decl ∈ s.types ∧ decl.name = name :=
  ⟨List.mem_of_find?_eq_some h, by simpa using List.find?_some h⟩

theorem element_mem_closure {element : Shape} {nullable : Bool}
    (h : Shape.list element nullable ∈ s.closure root) : element ∈ s.closure root := by
  simp only [closure, List.mem_append, List.mem_flatMap] at h ⊢
  rcases h with h | ⟨decl, hdecl, p, hp, h⟩
  · exact .inl (Shape.element_mem_parts h)
  · exact .inr ⟨decl, hdecl, p, hp, Shape.element_mem_parts h⟩

theorem effectiveShape_mem_closure {name : String} {decl : Declaration} {p : Property}
    (h : s.type? name = some decl) (hp : p ∈ decl.properties) :
    p.effectiveShape ∈ s.closure root := by
  simp only [closure, List.mem_append, List.mem_flatMap]
  exact .inr ⟨decl, (type?_eq_some h).1, p, hp, p.effectiveShape.self_mem_parts⟩

end Schema

namespace Emitter

variable {e e' e'' : Emitter} {root shape : Shape} {direction : Direction}

/-- Routines are numbered by position, and the cache has all of them and nothing else. -/
structure WellFormed (e : Emitter) : Prop where
  numbered : ∀ (i : Nat) (r : Routine), e.routines[i]? = some r → r.id = ⟨i⟩
  cached : ∀ shape direction id,
    e.find? shape direction = some id ↔ Table.At e.routines id shape direction

theorem wellFormed_ofSchema (s : Schema) : (ofSchema s).WellFormed :=
  ⟨by simp [ofSchema], by simp [ofSchema, find?, RoutineCache.empty, RoutineCache.get?,
    ShapeMap.get?, Table.At]⟩

theorem WellFormed.notMem_keys (h : e.WellFormed) (hfind : e.find? shape direction = none) :
    (shape, direction) ∉ e.routines.map Routine.key := by
  intro hmem
  obtain ⟨i, hi⟩ := List.mem_iff_getElem?.1 hmem
  simp [(h.cached shape direction ⟨i⟩).2 hi] at hfind

/-- The cache knows one position for each key, so no key occurs twice. -/
theorem WellFormed.nodup (h : e.WellFormed) : (e.routines.map Routine.key).Nodup := by
  rw [List.nodup_iff_getElem?_ne_getElem?]
  intro i j hij hj heq
  obtain ⟨⟨shape, direction⟩, hkey⟩ : ∃ key, (e.routines.map Routine.key)[j]? = some key :=
    ⟨_, List.getElem?_eq_getElem hj⟩
  have hfind := (h.cached shape direction ⟨i⟩).2 (heq.trans hkey)
  rw [(h.cached shape direction ⟨j⟩).2 hkey, Option.some.injEq, RoutineId.mk.injEq] at hfind
  omega

/-- The cache covers an object that has a routine. -/
theorem WellFormed.hasObject (h : e.WellFormed) {name : String} {nullable : Bool}
    (hmem : (.object name nullable, direction) ∈ e.routines.map Routine.key) :
    e.hasObject name = true := by
  obtain ⟨i, hi⟩ := List.mem_iff_getElem?.1 hmem
  obtain ⟨entry, hentry, -⟩ := Option.bind_eq_some_iff.1 ((h.cached _ direction ⟨i⟩).2 hi)
  obtain ⟨found, hfound, hshape⟩ := List.mem_map.1 (ShapeMap.mem_shapes_of_get? hentry)
  exact List.any_eq_true.2 ⟨found, hfound, by simp [hshape]⟩

theorem WellFormed.report (h : e.WellFormed) (d : Diagnostic) : (e.report d).WellFormed :=
  ⟨h.numbered, h.cached⟩

/-- `e'` comes from `e` by appending routines for a direction and the warnings about them. -/
structure Emits (root : Shape) (direction : Direction) (e e' : Emitter) (new : List Routine)
    (said : List Diagnostic) : Prop where
  schema : e'.schema = e.schema
  routines : e'.routines = e.routines ++ new
  diagnostics : e'.diagnostics = e.diagnostics ++ said
  faithful : ∀ r ∈ new, r.Faithful e.schema e'.routines
  warnings : said.Perm (new.filterMap Routine.warning?)
  scope : ∀ r ∈ new, r.direction = direction ∧ r.shape ∈ e.schema.closure root

def Grows (root : Shape) (direction : Direction) (e e' : Emitter) : Prop :=
  ∃ new said, Emits root direction e e' new said

theorem Grows.refl (root : Shape) (direction : Direction) (e : Emitter) :
    Grows root direction e e :=
  ⟨[], [], rfl, by simp, by simp, by simp, by simp, by simp⟩

theorem Grows.trans (h : Grows root direction e e') (h' : Grows root direction e' e'') :
    Grows root direction e e'' := by
  obtain ⟨new, said, h⟩ := h
  obtain ⟨new', said', h'⟩ := h'
  have hschema := h.schema
  refine ⟨new ++ new', said ++ said', h'.schema.trans hschema, ?_, ?_, ?_, ?_, ?_⟩
  · rw [h'.routines, h.routines, List.append_assoc]
  · rw [h'.diagnostics, h.diagnostics, List.append_assoc]
  · intro r hr
    rcases List.mem_append.1 hr with hr | hr
    · rw [h'.routines]
      exact (h.faithful r hr).append new'
    · exact hschema ▸ h'.faithful r hr
  · rw [List.filterMap_append]
    exact h.warnings.append h'.warnings
  · intro r hr
    rcases List.mem_append.1 hr with hr | hr
    · exact h.scope r hr
    · exact hschema ▸ h'.scope r hr

theorem Grows.schema (h : Grows root direction e e') : e'.schema = e.schema :=
  let ⟨_, _, h⟩ := h
  h.schema

theorem Grows.at (h : Grows root direction e e') {id : RoutineId} {other : Direction}
    (hat : Table.At e.routines id shape other) : Table.At e'.routines id shape other := by
  obtain ⟨new, said, h⟩ := h
  rw [h.routines]
  exact hat.append new

theorem Grows.keys_subset (h : Grows root direction e e') :
    e.routines.map Routine.key ⊆ e'.routines.map Routine.key := by
  obtain ⟨new, said, h⟩ := h
  rw [h.routines, List.map_append]
  exact List.subset_append_left _ _

section Levels

/-- How many shapes of the closure, repetitions counted, have no routine yet. -/
def missing (e : Emitter) (root : Shape) (direction : Direction) : Nat :=
  (e.schema.closure root).countP fun shape => (shape, direction) ∉ e.routines.map Routine.key

theorem missing_le (e : Emitter) (root : Shape) (direction : Direction) :
    e.missing root direction ≤ (e.schema.closure root).length :=
  List.countP_le_length

theorem missing_pos (hmem : shape ∈ e.schema.closure root)
    (hnew : (shape, direction) ∉ e.routines.map Routine.key) : 0 < e.missing root direction :=
  List.countP_pos_iff.2 ⟨shape, hmem, by simpa using hnew⟩

theorem missing_mono (hschema : e'.schema = e.schema)
    (hkeys : e.routines.map Routine.key ⊆ e'.routines.map Routine.key) :
    e'.missing root direction ≤ e.missing root direction := by
  rw [missing, missing, hschema]
  refine List.countP_mono_left fun shape _ h => ?_
  rw [decide_eq_true_eq] at h ⊢
  exact fun hmem => h (hkeys hmem)

theorem Grows.missing_le (h : Grows root direction e e') :
    e'.missing root direction ≤ e.missing root direction :=
  missing_mono h.schema h.keys_subset

theorem countP_lt_countP {α : Type} {p q : α → Bool} {l : List α} {a : α}
    (h : ∀ x ∈ l, p x = true → q x = true) (ha : a ∈ l) (hp : p a = false) (hq : q a = true) :
    l.countP p < l.countP q := by
  induction l with
  | nil => simp at ha
  | cons b rest ih =>
    have htail : rest.countP p ≤ rest.countP q :=
      List.countP_mono_left fun x hx => h x (List.mem_cons_of_mem b hx)
    rcases List.mem_cons.1 ha with rfl | ha
    · rw [List.countP_cons_of_neg (by simp [hp]), List.countP_cons_of_pos (by simp [hq])]
      omega
    · have hlt := ih (fun x hx => h x (List.mem_cons_of_mem b hx)) ha
      have hb := h b List.mem_cons_self
      simp only [List.countP_cons]
      cases hpb : p b with
      | true =>
        simp only [hb hpb, if_true]
        omega
      | false =>
        simp only [Bool.false_eq_true, if_false]
        omega

theorem missing_reserve_lt (cause : StubCause) (hmem : shape ∈ e.schema.closure root)
    (hnew : (shape, direction) ∉ e.routines.map Routine.key) :
    (e.reserve shape direction cause).missing root direction < e.missing root direction := by
  refine countP_lt_countP (fun other _ h => ?_) hmem ?_ (by simpa using hnew)
  · rw [decide_eq_true_eq] at h ⊢
    exact fun hmem => h (by simp [reserve, hmem])
  · simp [reserve, Routine.key]

end Levels

theorem WellFormed.reserve (h : e.WellFormed) (hfind : e.find? shape direction = none)
    (cause : StubCause) : (e.reserve shape direction cause).WellFormed := by
  constructor
  · intro i r hi
    rw [Emitter.reserve, List.getElem?_append] at hi
    split at hi
    · exact h.numbered i r hi
    · obtain ⟨hlt, rfl⟩ := List.getElem?_eq_some_iff.1 hi
      simp only [List.length_cons, List.length_nil] at hlt
      simp only [List.getElem_singleton, nextId, RoutineId.mk.injEq]
      omega
  · intro other turn id
    rw [find?, Emitter.reserve, RoutineCache.get?_insert, Table.at_concat_iff]
    split
    · next heq =>
      obtain ⟨rfl, rfl⟩ := heq
      have hnew : ¬ Table.At e.routines id shape direction := fun hat =>
        h.notMem_keys hfind (List.mem_of_getElem? hat)
      simp [hnew, Routine.key, nextId, eq_comm]
    · next hne =>
      have hkey : (shape, direction) ≠ (other, turn) := by simpa using hne
      rw [← find?, h.cached]
      simp [Routine.key, hkey]

/-- A stub is found or appended, without a word. -/
theorem stub_answers (h : e.WellFormed) (shape : Shape) (direction : Direction)
    (cause : StubCause) :
    (stub shape direction cause e).2.WellFormed ∧
      e.routines <+: (stub shape direction cause e).2.routines ∧
      (stub shape direction cause e).2.diagnostics = e.diagnostics ∧
      Table.At (stub shape direction cause e).2.routines (stub shape direction cause e).1 shape
        direction := by
  unfold stub
  cases hfind : e.find? shape direction with
  | some id => exact ⟨h, List.prefix_rfl, rfl, (h.cached shape direction id).1 hfind⟩
  | none =>
    exact ⟨h.reserve hfind cause, List.prefix_append _ _, rfl,
      Table.at_length e.routines ⟨e.nextId, shape, direction, _, _⟩⟩

section Build

variable {s : Schema} {resolve : Shape → StateM Emitter RoutineId} {P : Emitter → Prop}

/-- A resolver that keeps an invariant, only appends, and answers with right calls. -/
def Resolves (s : Schema) (P : Emitter → Prop) (root : Shape) (direction : Direction)
    (resolve : Shape → StateM Emitter RoutineId) : Prop :=
  ∀ e shape, P e → shape ∈ s.closure root →
    P (resolve shape e).2 ∧ Grows root direction e (resolve shape e).2 ∧
      Table.At (resolve shape e).2.routines (resolve shape e).1 shape direction

/-- What building a part of a layout comes to: a good part if there is no fault, and else that
fault. Either way the routines met before have been emitted. -/
def Builds {α : Type} (P : Emitter → Prop) (root : Shape) (direction : Direction) (e : Emitter)
    (fault : Option ShapeError) (good : List Routine → α → Prop) :
    EStateM.Result ShapeError Emitter α → Prop
  | .ok a e' => P e' ∧ Grows root direction e e' ∧ fault = none ∧ good e'.routines a
  | .error err e' => P e' ∧ Grows root direction e e' ∧ fault = some err

theorem Builds.map {α β : Type} {fault : Option ShapeError} {good : List Routine → α → Prop}
    {good' : List Routine → β → Prop} {x : EStateM ShapeError Emitter α} {g : α → β}
    (h : Builds P root direction e fault good (x e))
    (hgood : ∀ table a, good table a → good' table (g a)) :
    Builds P root direction e fault good' ((g <$> x) e) := by
  rw [Running.map_apply]
  cases hx : x e with
  | error err e' =>
    rw [hx] at h
    exact h
  | ok a e' =>
    rw [hx] at h
    exact ⟨h.1, h.2.1, h.2.2.1, hgood _ _ h.2.2.2⟩

theorem operand_of_error (hcomposite : shape.isComposite = true) {err : ShapeError}
    (href : s.checkReferences shape = .error err) :
    Layout.operand s resolve shape e = .error err e := by
  cases shape with
  | object name nullable => simp only [Layout.operand, href, Running.throw_apply]
  | list element nullable => simp only [Layout.operand, href, Running.throw_apply]
  | _ => simp [Shape.isComposite] at hcomposite

theorem operand_of_ok (hcomposite : shape.isComposite = true)
    (href : s.checkReferences shape = .ok ()) :
    Layout.operand s resolve shape e =
      .ok (.call (resolve shape e).1) (resolve shape e).2 := by
  obtain ⟨id, e', hresolve⟩ : ∃ id e', resolve shape e = (id, e') := ⟨_, _, rfl⟩
  cases shape with
  | object name nullable => simp only [Layout.operand, href, hresolve]
  | list element nullable => simp only [Layout.operand, href, hresolve]
  | _ => simp [Shape.isComposite] at hcomposite

theorem operand_builds (hresolve : Resolves s P root direction resolve) (hP : P e)
    (hmem : shape ∈ s.closure root) :
    Builds P root direction e (faultOf (s.checkReferences shape))
      (fun table operand => Operand.For s table direction shape operand)
      (Layout.operand s resolve shape e) := by
  have hcall (hcomposite : shape.isComposite = true) :
      Builds P root direction e (faultOf (s.checkReferences shape))
        (fun table operand => Operand.For s table direction shape operand)
        (Layout.operand s resolve shape e) := by
    cases href : s.checkReferences shape with
    | error err =>
      rw [operand_of_error hcomposite href]
      exact ⟨hP, .refl root direction e, rfl⟩
    | ok =>
      rw [operand_of_ok hcomposite href]
      obtain ⟨hP', hgrows, hat⟩ := hresolve e shape hP hmem
      exact ⟨hP', hgrows, rfl, .call hcomposite href hat⟩
  cases shape with
  | int => exact ⟨hP, .refl root direction e, rfl, .int⟩
  | string => exact ⟨hP, .refl root direction e, rfl, .string⟩
  | unsupported text => exact ⟨hP, .refl root direction e, rfl⟩
  | object name nullable => exact hcall rfl
  | list element nullable => exact hcall rfl

theorem members_builds (hresolve : Resolves s P root direction resolve) (hP : P e)
    {properties : List Property} (hmem : ∀ p ∈ properties, p.effectiveShape ∈ s.closure root) :
    Builds P root direction e
      (properties.findSome? fun p => faultOf (s.checkReferences p.effectiveShape))
      (fun table members => List.Forall₂ (Property.Laid s table direction) properties members)
      (Layout.members s resolve properties e) := by
  induction properties generalizing e with
  | nil => exact ⟨hP, .refl root direction e, rfl, .nil⟩
  | cons p rest ih =>
    have hchild := operand_builds hresolve hP (hmem p List.mem_cons_self)
    simp only [Layout.members, Running.bind_apply, List.findSome?_cons]
    cases hoperand : Layout.operand s resolve p.effectiveShape e with
    | error err e' =>
      rw [hoperand] at hchild
      obtain ⟨hP', hgrows, hfault⟩ := hchild
      exact ⟨hP', hgrows, by simp [hfault]⟩
    | ok operand e' =>
      rw [hoperand] at hchild
      obtain ⟨hP', hgrows, hfault, hfor⟩ := hchild
      have hrest := ih hP' fun q hq => hmem q (List.mem_cons_of_mem p hq)
      simp only [hfault]
      cases hmembers : Layout.members s resolve rest e' with
      | error err e'' =>
        rw [hmembers] at hrest
        exact ⟨hrest.1, hgrows.trans hrest.2.1, hrest.2.2⟩
      | ok members e'' =>
        rw [hmembers] at hrest
        obtain ⟨hP'', hgrows', hfaults, hlaid⟩ := hrest
        exact ⟨hP'', hgrows.trans hgrows', hfaults,
          .cons ⟨rfl, hfor.congr fun _ _ => hgrows'.at⟩ hlaid⟩

theorem build_builds (hresolve : Resolves s P root direction resolve) (hP : P e)
    (hmem : shape ∈ s.closure root) :
    Builds P root direction e (s.layoutFault? shape)
      (fun table layout => Layout.For s table direction shape layout)
      (Layout.build s resolve shape e) := by
  cases shape with
  | int => exact (operand_builds hresolve hP hmem).map fun _ _ => .scalar rfl
  | string => exact (operand_builds hresolve hP hmem).map fun _ _ => .scalar rfl
  | unsupported text => exact (operand_builds hresolve hP hmem).map fun _ _ => .scalar rfl
  | list element nullable =>
    exact (operand_builds hresolve hP (Schema.element_mem_closure hmem)).map fun _ _ => .list
  | object name nullable =>
    simp only [Layout.build, Schema.layoutFault?]
    cases hdecl : s.type? name with
    | none => exact ⟨hP, .refl root direction e, rfl⟩
    | some decl =>
      have hclosure : ∀ p ∈ decl.properties, p.effectiveShape ∈ s.closure root :=
        fun p hp => Schema.effectiveShape_mem_closure hdecl hp
      exact (members_builds hresolve hP hclosure).map fun _ _ => .object hdecl

end Build

section Settle

variable {s : Schema}

theorem modify_length_append (before : List Routine) (r : Routine) (after : List Routine)
    (f : Routine → Routine) :
    (before ++ r :: after).modify before.length f = before ++ f r :: after := by
  induction before with
  | nil => rfl
  | cons b before ih => simpa using ih

theorem keys_define (e : Emitter) (id : RoutineId) (body : RoutineCode) :
    (e.define id body).routines.map Routine.key = e.routines.map Routine.key := by
  apply List.ext_getElem?
  intro i
  simp only [define, List.getElem?_map, List.getElem?_modify]
  cases e.routines[i]? with
  | none => rfl
  | some r =>
    simp only [Option.map_eq_map, Option.map_some]
    split <;> rfl

theorem WellFormed.define (h : e.WellFormed) (id : RoutineId) (body : RoutineCode) :
    (e.define id body).WellFormed := by
  constructor
  · intro i r hi
    simp only [Emitter.define, List.getElem?_modify] at hi
    obtain ⟨old, hold, rfl⟩ := Option.map_eq_some_iff.1 hi
    have hnumber := h.numbered i old hold
    split <;> exact hnumber
  · intro shape direction other
    rw [Table.At, keys_define]
    exact h.cached shape direction other

/-- The body for a layout exists unless the shape has a fault in that direction. -/
theorem faultOf_bodyOf {table : List Routine} {layout : Layout}
    (hlayout : Layout.For s table direction shape layout) (hfault : s.layoutFault? shape = none) :
    faultOf (bodyOf s layout direction) = s.routineFault? direction shape := by
  cases direction with
  | serialize => simp [bodyOf, Schema.routineFault?, hfault]
  | deserialize =>
    cases hlayout with
    | scalar hscalar h =>
      cases h with
      | int => rfl
      | string => rfl
      | call hcomposite => simp [hscalar] at hcomposite
    | list h => simp [bodyOf, Schema.routineFault?, hfault, Layout.readPlan, Except.map]
    | @object name nullable decl members hdecl h =>
      simp only [bodyOf, Schema.routineFault?, hfault, Layout.readPlan]
      cases hdefault : s.defaultValue (.object name false) with
      | error err => rfl
      | ok v =>
        obtain ⟨_, fields, -, rfl, -⟩ := Schema.defaultValue_object hdefault
        rfl

/-- What the body of a new routine should be: the code for a layout, or the fault. -/
def Prescribed (s : Schema) (table : List Routine) (shape : Shape) (direction : Direction) :
    Except ShapeError RoutineCode → Prop
  | .ok body => s.routineFault? direction shape = none ∧ ∃ layout,
      Layout.For s table direction shape layout ∧ bodyOf s layout direction = .ok body
  | .error err => s.routineFault? direction shape = some err

theorem prescribed_bodyOf {table : List Routine} {layout : Layout}
    (hlayout : Layout.For s table direction shape layout) (hfault : s.layoutFault? shape = none) :
    Prescribed s table shape direction (bodyOf s layout direction) := by
  have hbody := faultOf_bodyOf hlayout hfault
  cases h : bodyOf s layout direction with
  | error err => exact (h ▸ hbody).symm
  | ok body => exact ⟨(h ▸ hbody).symm, layout, hlayout, h⟩

theorem prescribed_error {table : List Routine} {err : ShapeError}
    (hfault : s.layoutFault? shape = some err) :
    Prescribed s table shape direction (.error err) := by
  simp [Prescribed, Schema.routineFault?, hfault]

/-- The code that a routine ends up with. -/
def settled : Except ShapeError RoutineCode → RoutineCode
  | .ok body => body
  | .error err => .stub (.unbuildable err)

/-- What is said when a routine gets its code. -/
def remarks (shape : Shape) (direction : Direction) :
    Except ShapeError RoutineCode → List Diagnostic
  | .ok _ => []
  | .error err => [⟨.warning, .routine direction shape, err⟩]

theorem settle_eq (e : Emitter) (id : RoutineId) (shape : Shape) (direction : Direction)
    (body : Except ShapeError RoutineCode) : e.settle id shape direction body =
      { (e.define id (settled body)) with
        diagnostics := e.diagnostics ++ remarks shape direction body } := by
  cases body with
  | ok body => simp [settle, settled, remarks, define]
  | error err => rfl

theorem Prescribed.faithful {table : List Routine} {body : Except ShapeError RoutineCode}
    (h : Prescribed s table shape direction body) (id : RoutineId) :
    Routine.Faithful s table ⟨id, shape, direction, fieldCount? s shape, settled body⟩ := by
  cases body with
  | ok body =>
    obtain ⟨hfault, hcode⟩ := h
    exact ⟨rfl, by simp [hfault], fun _ => hcode⟩
  | error err =>
    have hfault : s.routineFault? direction shape = some err := h
    refine ⟨rfl, fun err' h' => ?_, by simp [hfault]⟩
    obtain rfl : err = err' := Option.some.inj (hfault.symm.trans h')
    rfl

theorem Prescribed.remarks {table : List Routine} {body : Except ShapeError RoutineCode}
    (h : Prescribed s table shape direction body) (id : RoutineId) :
    remarks shape direction body = (Routine.warning?
      ⟨id, shape, direction, fieldCount? s shape, settled body⟩).toList := by
  cases body with
  | ok body =>
    have hnone := (h.faithful id).warning?_eq_none_iff.2 h.1
    rw [hnone]
    rfl
  | error err => rfl

/-- Filling in the body of a reserved routine completes the growth since before its reservation. -/
theorem Grows.settle {body : Except ShapeError RoutineCode}
    (h : Grows root direction (e.reserve shape direction .pending) e')
    (hmem : shape ∈ e.schema.closure root)
    (hbody : Prescribed e.schema e'.routines shape direction body) :
    Grows root direction e (e'.settle e.nextId shape direction body) := by
  obtain ⟨new, said, h⟩ := h
  have hschema : e'.schema = e.schema := h.schema
  have hkeys := keys_define e' e.nextId (settled body)
  have hroutines : (e'.define e.nextId (settled body)).routines = e.routines ++
      ⟨e.nextId, shape, direction, fieldCount? e.schema shape, settled body⟩ :: new := by
    simp only [define, h.routines, reserve, nextId, List.append_assoc, List.singleton_append]
    exact modify_length_append ..
  rw [settle_eq]
  refine ⟨_ :: new, said ++ remarks shape direction body, hschema, hroutines, ?_, ?_, ?_, ?_⟩
  · rw [h.diagnostics, List.append_assoc]
    rfl
  · -- calls are told by keys, which the new body leaves alone
    have hat : ∀ id shape direction, Table.At e'.routines id shape direction →
        Table.At (e'.define e.nextId (settled body)).routines id shape direction :=
      fun _ _ _ hat => hat.congr hkeys.symm
    intro r hr
    rcases List.mem_cons.1 hr with rfl | hr
    · exact (hbody.faithful e.nextId).congr hat
    · exact (h.faithful r hr).congr hat
  · rw [hbody.remarks e.nextId]
    refine List.perm_append_comm.trans ?_
    cases hwarning : Routine.warning?
        ⟨e.nextId, shape, direction, fieldCount? e.schema shape, settled body⟩ with
    | none => simpa [List.filterMap_cons, hwarning] using h.warnings
    | some d => simpa [List.filterMap_cons, hwarning] using h.warnings
  · intro r hr
    rcases List.mem_cons.1 hr with rfl | hr
    · exact ⟨rfl, hmem⟩
    · exact h.scope r hr

theorem WellFormed.settle (h : e.WellFormed) (id : RoutineId)
    (body : Except ShapeError RoutineCode) : (e.settle id shape direction body).WellFormed := by
  rw [settle_eq]
  exact ⟨(h.define id (settled body)).numbered, (h.define id (settled body)).cached⟩

end Settle

/-- What a request does to the table: it stays well-formed, only grows, and has the routine that is
the answer. -/
def Answers (root shape : Shape) (direction : Direction) (e : Emitter)
    (answer : RoutineId × Emitter) : Prop :=
  answer.2.WellFormed ∧ Grows root direction e answer.2 ∧
    Table.At answer.2.routines answer.1 shape direction

theorem answers_of_find? (h : e.WellFormed) {id : RoutineId}
    (hfind : e.find? shape direction = some id) : Answers root shape direction e (id, e) :=
  ⟨h, .refl root direction e, (h.cached shape direction id).1 hfind⟩

theorem answers_settle {body : Except ShapeError RoutineCode} (h : e'.WellFormed)
    (hgrows : Grows root direction (e.reserve shape direction .pending) e')
    (hmem : shape ∈ e.schema.closure root)
    (hbody : Prescribed e.schema e'.routines shape direction body) :
    Answers root shape direction e (e.nextId, e'.settle e.nextId shape direction body) := by
  refine ⟨h.settle e.nextId body, hgrows.settle hmem hbody, ?_⟩
  have hat : Table.At (e.reserve shape direction .pending).routines e.nextId shape direction :=
    Table.at_length e.routines ⟨e.nextId, shape, direction, _, _⟩
  rw [settle_eq]
  exact (hgrows.at hat).congr (keys_define ..).symm

/-- Emission answers with the right routine and leaves a table that has only grown, whichever
requests it makes on the way. -/
theorem emitWithin_answers (levels : Nat) (h : e.WellFormed)
    (hmem : shape ∈ e.schema.closure root) (hlevels : e.missing root direction ≤ levels) :
    Answers root shape direction e (emitWithin levels shape direction e) := by
  induction levels generalizing e shape with
  | zero =>
    unfold emitWithin
    cases hfind : e.find? shape direction with
    | some id => exact answers_of_find? h hfind
    | none =>
      have hpos := missing_pos hmem (h.notMem_keys hfind)
      omega
  | succ levels ih =>
    unfold emitWithin
    cases hfind : e.find? shape direction with
    | some id => exact answers_of_find? h hfind
    | none =>
      have hlt := missing_reserve_lt .pending hmem (h.notMem_keys hfind)
      -- the invariant of the requests made while this body is built
      let P (e' : Emitter) : Prop :=
        e'.WellFormed ∧ e'.schema = e.schema ∧ e'.missing root direction ≤ levels
      have hresolve : Resolves e.schema P root direction
          (fun child => emitWithin levels child direction) := by
        intro e' child hP hchild
        obtain ⟨hwell, hgrows, hat⟩ := ih hP.1 (hP.2.1 ▸ hchild) hP.2.2
        exact ⟨⟨hwell, hgrows.schema.trans hP.2.1, Nat.le_trans hgrows.missing_le hP.2.2⟩,
          hgrows, hat⟩
      have hreserved : P (e.reserve shape direction .pending) :=
        ⟨h.reserve hfind .pending, rfl, by omega⟩
      have hbuilds := build_builds hresolve hreserved hmem
      cases hbuild : Layout.build e.schema (fun child => emitWithin levels child direction) shape
          (e.reserve shape direction .pending) with
      | ok layout e' =>
        rw [hbuild] at hbuilds
        obtain ⟨hP, hgrows, hfault, hlayout⟩ := hbuilds
        simp only [hbuild, hP.2.1]
        exact answers_settle hP.1 hgrows hmem (prescribed_bodyOf hlayout hfault)
      | error err e' =>
        rw [hbuild] at hbuilds
        obtain ⟨hP, hgrows, hfault⟩ := hbuilds
        simp only [hbuild]
        exact answers_settle hP.1 hgrows hmem (prescribed_error hfault)

theorem emit_answers (h : e.WellFormed) (shape : Shape) (direction : Direction) :
    Answers shape shape direction e (emit shape direction e) :=
  emitWithin_answers _ h (Schema.self_mem_closure _ shape) (missing_le e shape direction)

end Emitter

end ShapeCodec
