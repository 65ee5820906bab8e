import ShapeCodec.Proofs.Unbounded
import ShapeCodec.Proofs.Unused
/-! Stubs and diagnostics. Emission only asks for routines of shapes that can be referenced, so the
only shapes without code are objects: those with a property that cannot be referenced, and on the
reading side those without a default. Each of their stubs is reported once, and each call site whose
shape cannot be referenced is reported once. -/
namespace ShapeCodec

theorem faultOf_eq_some_iff {ε α : Type} {x : Except ε α} {e : ε} :
    faultOf x = some e ↔ x = .error e := by
  cases x <;> simp

theorem faultOf_eq_none_iff {ε : Type} {x : Except ε Unit} : faultOf x = none ↔ x = .ok () := by
  cases x <;> simp

namespace Schema

/-- An object that has no code in a direction, with the reason. -/
inductive Faulty (s : Schema) (direction : Direction) : Shape → ShapeError → Prop
  /-- It is the first property that cannot be referenced. -/
  | property {name nullable decl before p after e} : s.type? name = some decl →
      decl.properties = before ++ p :: after →
      (∀ q ∈ before, s.checkReferences q.effectiveShape = .ok ()) →
      s.checkReferences p.effectiveShape = .error e →
      Faulty s direction (.object name nullable) e
  /-- A reader starts from the default, even if it also takes null. -/
  | default {name nullable decl e} : direction = .deserialize → s.type? name = some decl →
      (∀ p ∈ decl.properties, s.checkReferences p.effectiveShape = .ok ()) →
      s.defaultValue ((Shape.object name nullable).withNullable false) = .error e →
      Faulty s direction (.object name nullable) e

variable {s : Schema} {shape : Shape} {direction : Direction} {e : ShapeError}

theorem type?_of_checkReferences {name : String} {nullable : Bool}
    (href : s.checkReferences (.object name nullable) = .ok ()) :
    ∃ decl, s.type? name = some decl := by
  apply Option.isSome_iff_exists.1
  by_contra hundeclared
  simp [checkReferences, Shape.unsupportedText?, Shape.rootName?, isDeclared, hundeclared] at href

/-- An object has a fault in its layout if and only if there is a first bad property. -/
theorem layoutFault?_object {name : String} {decl : Declaration}
    (hdecl : s.type? name = some decl) (nullable : Bool) :
    s.layoutFault? (.object name nullable) = some e ↔
      ∃ before p after, decl.properties = before ++ p :: after ∧
        (∀ q ∈ before, s.checkReferences q.effectiveShape = .ok ()) ∧
        s.checkReferences p.effectiveShape = .error e := by
  simp only [layoutFault?, hdecl, List.findSome?_eq_some_iff, faultOf_eq_some_iff,
    faultOf_eq_none_iff]
  constructor
  · rintro ⟨before, p, after, hsplit, hp, hbefore⟩
    exact ⟨before, p, after, hsplit, hbefore, hp⟩
  · rintro ⟨before, p, after, hsplit, hbefore, hp⟩
    exact ⟨before, p, after, hsplit, hp, hbefore⟩

theorem layoutFault?_object_eq_none {name : String} {decl : Declaration}
    (hdecl : s.type? name = some decl) (nullable : Bool) :
    s.layoutFault? (.object name nullable) = none ↔
      ∀ p ∈ decl.properties, s.checkReferences p.effectiveShape = .ok () := by
  simp only [layoutFault?, hdecl, List.findSome?_eq_none_iff, faultOf_eq_none_iff]

theorem routineFault?_of_layout (h : s.layoutFault? shape = some e) (direction : Direction) :
    s.routineFault? direction shape = some e := by
  simp [routineFault?, h]

theorem routineFault?_reading {name : String} {nullable : Bool}
    (h : s.layoutFault? (.object name nullable) = none) :
    s.routineFault? .deserialize (.object name nullable) =
      faultOf (s.defaultValue (.object name false)) := by
  simp [routineFault?, h]

theorem Faulty.fault (h : s.Faulty direction shape e) :
    s.routineFault? direction shape = some e := by
  cases h with
  | @property name nullable decl before p after e hdecl hsplit hbefore hp =>
    have hlayout := (layoutFault?_object hdecl nullable).2 ⟨before, p, after, hsplit, hbefore, hp⟩
    exact routineFault?_of_layout hlayout direction
  | @default name nullable decl e hdirection hdecl hproperties hdefault =>
    have hlayout := (layoutFault?_object_eq_none hdecl nullable).2 hproperties
    rw [hdirection, routineFault?_reading hlayout]
    exact faultOf_eq_some_iff.2 hdefault

/-- Of the shapes that can be referenced only objects have faults, and these are the two kinds. -/
theorem faulty_of_fault (href : s.checkReferences shape = .ok ())
    (hfault : s.routineFault? direction shape = some e) : s.Faulty direction shape e := by
  have hscalar (hlayout : s.layoutFault? shape = none)
      (hobject : ∀ name nullable, shape ≠ .object name nullable) : s.Faulty direction shape e := by
    cases direction <;> cases shape <;> simp_all [routineFault?]
  cases shape with
  | int => exact hscalar rfl (by simp)
  | string => exact hscalar rfl (by simp)
  | unsupported text => cases href
  | list element nullable => exact hscalar (faultOf_eq_none_iff.2 href) (by simp)
  | object name nullable =>
    obtain ⟨decl, hdecl⟩ := type?_of_checkReferences href
    cases hlayout : s.layoutFault? (.object name nullable) with
    | some e' =>
      rw [routineFault?_of_layout hlayout] at hfault
      cases hfault
      obtain ⟨before, p, after, hsplit, hbefore, hp⟩ := (layoutFault?_object hdecl nullable).1 hlayout
      exact .property hdecl hsplit hbefore hp
    | none =>
      have hproperties := (layoutFault?_object_eq_none hdecl nullable).1 hlayout
      cases direction with
      | serialize => simp [routineFault?, hlayout] at hfault
      | deserialize =>
        rw [routineFault?_reading hlayout] at hfault
        exact .default rfl hdecl hproperties (faultOf_eq_some_iff.1 hfault)

/-- What is reported about a call site that can have no entry. -/
def refusal? (s : Schema) (call : CallSite) : Option Diagnostic :=
  match s.checkReferences call.shape with
  | .error e => some ⟨.error, .callSite call.direction call.shape, e⟩
  | .ok () => none

end Schema

/-- A routine that does the work of its direction. -/
def Routine.HasCode (r : Routine) : Prop :=
  match r.direction with
  | .serialize => ∃ code, r.body = .write code
  | .deserialize => ∃ plan, r.body = .read plan

theorem Routine.HasCode.not_stub {r : Routine} (h : r.HasCode) (cause : StubCause) :
    r.body ≠ .stub cause := by
  intro hstub
  cases hdirection : r.direction <;> simp [HasCode, hdirection, hstub] at h

theorem Routine.HasCode.isStub_eq_false {r : Routine} (h : r.HasCode) : r.isStub = false := by
  cases hbody : r.body with
  | stub cause => exact absurd hbody (h.not_stub cause)
  | _ => simp [isStub, hbody]

theorem Routine.Faithful.hasCode {s : Schema} {table : List Routine} {r : Routine}
    (h : r.Faithful s table) (hfault : s.routineFault? r.direction r.shape = none) : r.HasCode := by
  unfold HasCode
  cases hdirection : r.direction with
  | serialize =>
    obtain ⟨layout, -, hbody⟩ := h.writeCode hdirection (hdirection ▸ hfault)
    exact ⟨_, hbody⟩
  | deserialize =>
    obtain ⟨layout, plan, -, -, hbody⟩ := h.readCode hdirection (hdirection ▸ hfault)
    exact ⟨_, hbody⟩

namespace Emitter

variable {e e' : Emitter} {direction : Direction}

theorem keys_settle (e : Emitter) (id : RoutineId) (shape : Shape) (direction : Direction)
    (body : Except ShapeError RoutineCode) :
    (e.settle id shape direction body).routines.map Routine.key = e.routines.map Routine.key := by
  rw [settle_eq]
  exact keys_define e id (settled body)

/-- All routines are for shapes that can be referenced. -/
def Referable (e : Emitter) : Prop :=
  ∀ key ∈ e.routines.map Routine.key, e.schema.checkReferences key.1 = .ok ()

/-- A task only asks for what can be referenced, if it is not itself about anything else. -/
def Task.Referable (s : Schema) : Task → Prop
  | .routine shape => s.checkReferences shape = .ok ()
  | _ => True

theorem Referable.reserve {shape : Shape} (h : e.Referable)
    (href : e.schema.checkReferences shape = .ok ()) (direction : Direction) (cause : StubCause) :
    (e.reserve shape direction cause).Referable := by
  intro key hkey
  simp only [Emitter.reserve, List.map_append, List.mem_append, List.map_cons, List.map_nil,
    List.mem_singleton] at hkey
  rcases hkey with hkey | rfl
  · exact h key hkey
  · exact href

theorem Completes.schema {task : Task} {answer : Answer}
    (h : Completes direction task e answer e') : e'.schema = e.schema := by
  induction h with
  | built _ _ ih =>
    rw [settle_eq]
    exact ih
  | member _ _ ihOperand ihRest => exact ihRest.trans ihOperand
  | call _ _ _ ih | lastMember _ ih | object _ _ ih | list _ ih | scalar _ _ ih => exact ih
  | _ => rfl

/-- Children are asked for only after a look at what they refer to. -/
theorem Completes.referable {task : Task} {answer : Answer}
    (h : Completes direction task e answer e') (htask : task.Referable e.schema)
    (he : e.Referable) : e'.Referable := by
  induction h with
  | built _ hlayout ih =>
    have hlaid := ih trivial (he.reserve htask direction .pending)
    intro key hkey
    rw [keys_settle] at hkey
    rw [settle_eq]
    exact hlaid key hkey
  | call _ href _ ih => exact ih href he
  | lastMember _ ih => exact ih trivial he
  | member hoperand _ ihOperand ihRest => exact ihRest trivial (ihOperand trivial he)
  | object _ _ ih => exact ih trivial he
  | list _ ih => exact ih trivial he
  | scalar _ _ ih => exact ih trivial he
  | _ => exact he

end Emitter

section Text

variable {name name' : String} {nullable nullable' : Bool}

theorem Shape.text_object (name : String) (nullable : Bool) :
    (object name nullable).text = name ++ if nullable then "" else "!" := rfl

/-- The mark is not part of an identifier, so it stands for the flag alone. -/
theorem Shape.mark_mem_text (hname : isIdentifier name = true) (nullable : Bool) :
    '!' ∈ (object name nullable).text.toList ↔ nullable = false := by
  have hmark : '!' ∉ name.toList := by
    intro hmem
    have hrest := isNameRest_of_isIdentifier hname '!' hmem
    revert hrest
    decide
  cases nullable <;> simp [text_object, hmark]

theorem Shape.text_object_inj (hname : isIdentifier name = true)
    (hname' : isIdentifier name' = true)
    (h : (object name nullable).text = (object name' nullable').text) :
    name = name' ∧ nullable = nullable' := by
  have hnullable : nullable = nullable' := by
    have hmark := mark_mem_text hname nullable
    rw [h, mark_mem_text hname' nullable'] at hmark
    cases nullable <;> cases nullable' <;> simp_all
  subst hnullable
  refine ⟨?_, rfl⟩
  cases nullable <;> simpa [text_object] using h

theorem Subject.routine_text_inj {direction direction' : Direction} {shape shape' : Shape}
    (h : (routine direction shape).text = (routine direction' shape').text) :
    direction = direction' ∧ shape.text = shape'.text := by
  have hdirection : direction = direction' := by
    -- the texts of the directions differ in their first letter
    cases direction <;> cases direction' <;>
      first
      | rfl
      | simp [text, Direction.text, String.ext_iff] at h
  subst hdirection
  refine ⟨rfl, ?_⟩
  simpa [text] using h

end Text

/-- What has a fault is an object with a proper name. -/
theorem Schema.Faulty.object {s : Schema} {direction : Direction} {shape : Shape} {e : ShapeError}
    (h : s.Faulty direction shape e) :
    ∃ name nullable, shape = .object name nullable ∧ isIdentifier name = true := by
  have hproper {name : String} {decl : Declaration} (hdecl : s.type? name = some decl) :
      isIdentifier name = true := by
    obtain ⟨hmem, rfl⟩ := type?_eq_some hdecl
    exact (s.valid decl hmem).name
  cases h with
  | property hdecl => exact ⟨_, _, rfl, hproper hdecl⟩
  | default _ hdecl => exact ⟨_, _, rfl, hproper hdecl⟩

theorem Routine.warning?_eq_some_iff {r : Routine} {d : Diagnostic} : r.warning? = some d ↔
    ∃ e, r.body = .stub (.unbuildable e) ∧ ⟨.warning, .routine r.direction r.shape, e⟩ = d := by
  unfold Routine.warning?
  split <;> simp_all

namespace Generation

open Emitter

variable {s : Schema}

theorem referable_called (s : Schema) :
    ∀ r ∈ (called s).emitter.routines, s.checkReferences r.shape = .ok () := by
  apply routines_called
  intro call _ href e hwell hschema hold r hr
  have hrun := emit_completes hwell call.shape call.direction
  have he : e.Referable := by
    intro key hkey
    obtain ⟨old, hmem, rfl⟩ := List.mem_map.1 hkey
    rw [hschema]
    exact hold old hmem
  have hdone := hrun.referable (hschema ▸ href) he r.key (List.mem_map_of_mem hr)
  rw [hrun.schema, hschema] at hdone
  exact hdone

/-- Emission reports no errors, so these are the ones about call sites, in order. -/
theorem errors_foldl {p : Progress} (calls : List CallSite) (h : Sound s p) :
    (calls.foldl (Progress.addCall s) p).emitter.diagnostics.filter (·.severity = .error) =
      p.emitter.diagnostics.filter (·.severity = .error) ++ calls.filterMap s.refusal? := by
  induction calls generalizing p with
  | nil => simp
  | cons call rest ih =>
    rw [List.foldl_cons, ih (h.addCall call), List.filterMap_cons]
    cases href : s.checkReferences call.shape with
    | error error =>
      have hrefusal : s.refusal? call =
          some ⟨.error, .callSite call.direction call.shape, error⟩ := by
        rw [Schema.refusal?, href]
      rw [addCall_of_error href, hrefusal]
      simp [report]
    | ok =>
      have hrefusal : s.refusal? call = none := by rw [Schema.refusal?, href]
      obtain ⟨-, ⟨new, said, hemits⟩, -⟩ :=
        emit_answers h.wellFormed call.shape call.direction
      have hsaid : said.filter (·.severity = .error) = [] := by
        apply List.filter_eq_nil_iff.2
        intro d hd
        obtain ⟨r, -, hr⟩ := List.mem_filterMap.1 (hemits.warnings.mem_iff.1 hd)
        simp [severity_of_warning? hr]
      rw [addCall_of_ok href, hrefusal, hemits.diagnostics, List.filter_append, hsaid,
        List.append_nil]

theorem warning?_unusedRoutines (s : Schema) (next : Nat) (types : List Declaration) :
    (unusedRoutines s next types).filterMap Routine.warning? = [] := by
  apply List.filterMap_eq_nil_iff.2
  intro r hr
  obtain ⟨_, -, _, _, rfl⟩ := mem_unusedRoutines hr
  rfl

theorem warnings_perm (s : Schema) (options : Options) : (ofSchema s options).warnings.Perm
    ((ofSchema s options).codec.routines.filterMap Routine.warning?) := by
  simp only [ofSchema_eq, warnings, List.filterMap_append, warning?_unusedRoutines,
    List.append_nil]
  exact (sound_called s).warnings

theorem errors_eq (s : Schema) (options : Options) :
    (ofSchema s options).errors = s.calls.filterMap s.refusal? := by
  rw [ofSchema_eq, errors, called, errors_foldl s.calls (sound_start s)]
  simp [Emitter.ofSchema]

/-- A routine of the call sites is a stub if and only if its shape is faulty. -/
theorem stub_iff_faulty {r : Routine} (hr : r ∈ (called s).emitter.routines) (e : ShapeError) :
    r.body = .stub (.unbuildable e) ↔ s.Faulty r.direction r.shape e := by
  have hfaithful := (sound_called s).faithful r hr
  constructor
  · intro hbody
    apply Schema.faulty_of_fault (referable_called s r hr)
    cases hfault : s.routineFault? r.direction r.shape with
    | none => exact absurd hbody ((hfaithful.hasCode hfault).not_stub _)
    | some e' =>
      have hstub := hfaithful.stub e' hfault
      rw [hbody] at hstub
      cases hstub
      rfl
  · intro hfaulty
    exact hfaithful.stub e hfaulty.fault

/-- The warnings are about different routines, and their texts say so. -/
theorem subjects_nodup (s : Schema) (options : Options) :
    ((ofSchema s options).warnings.map fun d => d.subject.text).Nodup := by
  have hperm := (sound_called s).warnings.map fun d => d.subject.text
  have hkeys := (sound_called s).wellFormed.nodup
  simp only [ofSchema_eq, warnings]
  apply hperm.nodup_iff.2
  rw [List.Nodup, List.pairwise_map] at hkeys
  rw [List.Nodup, List.pairwise_map, List.pairwise_filterMap]
  apply hkeys.imp_of_mem
  intro r r' hr hr' hne d hd d' hd' htext
  obtain ⟨e, hbody, rfl⟩ := Routine.warning?_eq_some_iff.1 hd
  obtain ⟨e', hbody', rfl⟩ := Routine.warning?_eq_some_iff.1 hd'
  obtain ⟨name, nullable, hshape, hname⟩ := ((stub_iff_faulty hr e).1 hbody).object
  obtain ⟨name', nullable', hshape', hname'⟩ := ((stub_iff_faulty hr' e').1 hbody').object
  obtain ⟨hdirection, hsame⟩ := Subject.routine_text_inj htext
  rw [hshape, hshape'] at hsame
  obtain ⟨rfl, rfl⟩ := Shape.text_object_inj hname hname' hsame
  exact hne (by rw [Routine.key, Routine.key, hshape, hshape', hdirection])

theorem hasCode_of_not_faulty {r : Routine} (hr : r ∈ (called s).emitter.routines)
    (h : ∀ e, ¬ s.Faulty r.direction r.shape e) : r.HasCode := by
  apply ((sound_called s).faithful r hr).hasCode
  cases hfault : s.routineFault? r.direction r.shape with
  | none => rfl
  | some e => exact absurd (Schema.faulty_of_fault (referable_called s r hr) hfault) (h e)

/-- Stubs and diagnostics are exact. Of the routines that were asked for, those are stubs whose shape
is faulty, with the fault as their error; all others have code, those of lists among them. There is
one warning for each of these stubs, which names its direction and shape, and no two warnings name
the same. There is one error for each call site whose shape cannot be referenced, in order. -/
theorem stubs_exact (s : Schema) (options : Options) :
    (∀ r ∈ (ofSchema s options).codec.routines, r.isUnused = false →
      (∀ e, r.body = .stub (.unbuildable e) ↔ s.Faulty r.direction r.shape e) ∧
      ((∀ e, ¬ s.Faulty r.direction r.shape e) → r.HasCode) ∧
      ((∃ element nullable, r.shape = .list element nullable) → r.HasCode)) ∧
    (ofSchema s options).warnings.Perm
      ((ofSchema s options).codec.routines.filterMap Routine.warning?) ∧
    ((ofSchema s options).warnings.map fun d => d.subject.text).Nodup ∧
    (ofSchema s options).errors = s.calls.filterMap s.refusal? := by
  refine ⟨?_, warnings_perm s options, subjects_nodup s options, errors_eq s options⟩
  intro r hr hused
  have hcalled : r ∈ (called s).emitter.routines := by
    rw [ofSchema_eq, List.mem_append] at hr
    rcases hr with hr | hr
    · exact hr
    · rw [isUnused_of_mem hr] at hused
      cases hused
  refine ⟨stub_iff_faulty hcalled, hasCode_of_not_faulty hcalled, ?_⟩
  rintro ⟨element, nullable, hlist⟩
  apply hasCode_of_not_faulty hcalled
  intro e hfaulty
  obtain ⟨name, flag, hobject, -⟩ := hfaulty.object
  rw [hlist] at hobject
  cases hobject

end Generation

end ShapeCodec
