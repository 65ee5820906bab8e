import ShapeCodec.Proofs.Generation
/-! Emission without a bound on its nesting, as a relation between a task and what it comes to. The
rules follow the emitter step by step, so a derivation is a run that has come to an end; a run that
goes round in circles has none. Every request made by a call site has one, and it ends where
`emit` says: the levels that `emitWithin` counts are never used up. -/
namespace ShapeCodec

namespace Emitter

/-- What an emitter has to do, in one direction. -/
inductive Task where
  /-- Find or build the routine of a shape. -/
  | routine (shape : Shape)
  /-- Handle a child in place, or find its routine. -/
  | operand (shape : Shape)
  | members (properties : List Property)
  | layout (shape : Shape)

/-- What a task comes to. -/
inductive Answer where
  | routine (id : RoutineId)
  | operand (result : Except ShapeError Operand)
  | members (result : Except ShapeError (List (String × Operand)))
  | layout (result : Except ShapeError Layout)

/-- A task comes to an end, with an answer and an emitter. There is one relation for all tasks, so
that one induction goes through routines, children and layouts. -/
inductive Completes (direction : Direction) : Task → Emitter → Answer → Emitter → Prop
  /-- A routine that is there is not built again, even if it has no body yet. -/
  | known {shape e id} : e.find? shape direction = some id →
      Completes direction (.routine shape) e (.routine id) e
  | built {shape e result e'} : e.find? shape direction = none →
      Completes direction (.layout shape) (e.reserve shape direction .pending) (.layout result) e' →
      Completes direction (.routine shape) e (.routine e.nextId)
        (e'.settle e.nextId shape direction
          (result.bind fun layout => bodyOf e'.schema layout direction))
  | int {e} : Completes direction (.operand .int) e (.operand (.ok .int)) e
  | string {e} : Completes direction (.operand .string) e (.operand (.ok .str)) e
  | unreferable {shape e error} : e.schema.checkReferences shape = .error error →
      Completes direction (.operand shape) e (.operand (.error error)) e
  | call {shape e id e'} : shape.isComposite = true → e.schema.checkReferences shape = .ok () →
      Completes direction (.routine shape) e (.routine id) e' →
      Completes direction (.operand shape) e (.operand (.ok (.call id))) e'
  | noMembers {e} : Completes direction (.members []) e (.members (.ok [])) e
  /-- The members end with the first that has no routine. -/
  | lastMember {p rest e error e'} :
      Completes direction (.operand p.effectiveShape) e (.operand (.error error)) e' →
      Completes direction (.members (p :: rest)) e (.members (.error error)) e'
  | member {p rest e operand mid result e'} :
      Completes direction (.operand p.effectiveShape) e (.operand (.ok operand)) mid →
      Completes direction (.members rest) mid (.members result) e' →
      Completes direction (.members (p :: rest)) e
        (.members (result.map ((p.name, operand) :: ·))) e'
  | undeclared {name nullable e} : e.schema.type? name = none →
      Completes direction (.layout (.object name nullable)) e
        (.layout (.error (.undeclared name))) e
  | object {name nullable decl e result e'} : e.schema.type? name = some decl →
      Completes direction (.members decl.properties) e (.members result) e' →
      Completes direction (.layout (.object name nullable)) e
        (.layout (result.map (.object name nullable))) e'
  | list {element nullable e result e'} :
      Completes direction (.operand element) e (.operand result) e' →
      Completes direction (.layout (.list element nullable)) e
        (.layout (result.map (.list nullable))) e'
  | scalar {shape e result e'} : shape.isComposite = false →
      Completes direction (.operand shape) e (.operand result) e' →
      Completes direction (.layout shape) e (.layout (result.map .scalar)) e'

variable {s : Schema} {e e' : Emitter} {root shape : Shape} {direction : Direction}

section Adequacy

variable {resolve : Shape → StateM Emitter RoutineId} {P : Emitter → Prop}

/-- The requests that `resolve` answers come to an end with its answers. -/
def Completed (s : Schema) (P : Emitter → Prop) (root : Shape) (direction : Direction)
    (resolve : Shape → StateM Emitter RoutineId) : Prop :=
  ∀ e shape, P e → shape ∈ s.closure root →
    Completes direction (.routine shape) e (.routine (resolve shape e).1) (resolve shape e).2

/-- A run of a step as a task that has come to its end. -/
def Ends {α : Type} (direction : Direction) (task : Task) (answer : Except ShapeError α → Answer)
    (e : Emitter) : EStateM.Result ShapeError Emitter α → Prop
  | .ok a e' => Completes direction task e (answer (.ok a)) e'
  | .error error e' => Completes direction task e (answer (.error error)) e'

theorem operand_ends (hresolve : Completed s P root direction resolve) (hP : P e)
    (hschema : e.schema = s) (hmem : shape ∈ s.closure root) :
    Ends direction (.operand shape) .operand e (Layout.operand s resolve shape e) := by
  have hcall (hcomposite : shape.isComposite = true) :
      Ends direction (.operand shape) .operand e (Layout.operand s resolve shape e) := by
    cases href : s.checkReferences shape with
    | error error =>
      rw [operand_of_error hcomposite href]
      exact .unreferable (hschema ▸ href)
    | ok =>
      rw [operand_of_ok hcomposite href]
      exact .call hcomposite (hschema ▸ href) (hresolve e shape hP hmem)
  cases shape with
  | int => exact .int
  | string => exact .string
  | unsupported text => exact .unreferable rfl
  | object name nullable => exact hcall rfl
  | list element nullable => exact hcall rfl

theorem members_end (hresolve : Completed s P root direction resolve)
    (hbuilds : Resolves s P root direction resolve) (hP : P e) (hschema : e.schema = s)
    {properties : List Property} (hmem : ∀ p ∈ properties, p.effectiveShape ∈ s.closure root) :
    Ends direction (.members properties) .members e (Layout.members s resolve properties e) := by
  induction properties generalizing e with
  | nil => exact .noMembers
  | cons p rest ih =>
    have hp := hmem p List.mem_cons_self
    have hchild := operand_ends hresolve hP hschema hp
    have hgrows := operand_builds hbuilds hP hp
    simp only [Layout.members, Running.bind_apply]
    cases hoperand : Layout.operand s resolve p.effectiveShape e with
    | error error mid =>
      rw [hoperand] at hchild
      exact .lastMember hchild
    | ok operand mid =>
      rw [hoperand] at hchild hgrows
      have hrest := ih hgrows.1 (hgrows.2.1.schema.trans hschema)
        fun q hq => hmem q (List.mem_cons_of_mem p hq)
      cases hmembers : Layout.members s resolve rest mid with
      | error error e' =>
        rw [hmembers] at hrest
        simp only [hmembers]
        exact .member hchild hrest
      | ok members e' =>
        rw [hmembers] at hrest
        simp only [hmembers]
        exact .member hchild hrest

theorem layout_ends (hresolve : Completed s P root direction resolve)
    (hbuilds : Resolves s P root direction resolve) (hP : P e) (hschema : e.schema = s)
    (hmem : shape ∈ s.closure root) :
    Ends direction (.layout shape) .layout e (Layout.build s resolve shape e) := by
  have hscalar (hcomposite : shape.isComposite = false) :
      Ends direction (.layout shape) .layout e
        ((Layout.scalar <$> Layout.operand s resolve shape) e) := by
    have hoperand := operand_ends hresolve hP hschema hmem
    rw [Running.map_apply]
    cases hrun : Layout.operand s resolve shape e <;> rw [hrun] at hoperand <;>
      exact .scalar hcomposite hoperand
  cases shape with
  | object name nullable =>
    simp only [Layout.build]
    cases hdecl : s.type? name with
    | none => exact .undeclared (hschema ▸ hdecl)
    | some decl =>
      have hmembers := members_end hresolve hbuilds hP hschema
        fun p hp => Schema.effectiveShape_mem_closure hdecl hp
      simp only [Running.map_apply]
      cases hrun : Layout.members s resolve decl.properties e <;> rw [hrun] at hmembers <;>
        exact .object (hschema ▸ hdecl) hmembers
  | list element nullable =>
    have hoperand := operand_ends hresolve hP hschema (Schema.element_mem_closure hmem)
    simp only [Layout.build, Running.map_apply]
    cases hrun : Layout.operand s resolve element e <;> rw [hrun] at hoperand <;>
      exact .list hoperand
  | _ => exact hscalar rfl

/-- The emitter may serve the requests of a body as long as levels are left. -/
theorem resolves_emitWithin (s : Schema) (root : Shape) (direction : Direction) (levels : Nat) :
    Resolves s (fun e => e.WellFormed ∧ e.schema = s ∧ e.missing root direction ≤ levels) root
      direction (fun child => emitWithin levels child direction) := by
  rintro e child ⟨hwell, rfl, hlevels⟩ hchild
  obtain ⟨hwell', hgrows, hat⟩ := emitWithin_answers levels hwell hchild hlevels
  exact ⟨⟨hwell', hgrows.schema, Nat.le_trans hgrows.missing_le hlevels⟩, hgrows, hat⟩

theorem emitWithin_completes (levels : Nat) (h : e.WellFormed)
    (hmem : shape ∈ e.schema.closure root) (hlevels : e.missing root direction ≤ levels) :
    Completes direction (.routine shape) e (.routine (emitWithin levels shape direction e).1)
      (emitWithin levels shape direction e).2 := by
  induction levels generalizing e shape with
  | zero =>
    unfold emitWithin
    cases hfind : e.find? shape direction with
    | some id => exact .known hfind
    | none =>
      have hpos := missing_pos hmem (h.notMem_keys hfind)
      omega
  | succ levels ih =>
    unfold emitWithin
    cases hfind : e.find? shape direction with
    | some id => exact .known hfind
    | none =>
      have hlt := missing_reserve_lt .pending hmem (h.notMem_keys hfind)
      have hcompleted : Completed e.schema (fun e' => e'.WellFormed ∧ e'.schema = e.schema ∧
          e'.missing root direction ≤ levels) root direction
          (fun child => emitWithin levels child direction) := by
        intro e' child hP hchild
        exact ih hP.1 (hP.2.1 ▸ hchild) hP.2.2
      have hlayout := layout_ends hcompleted (resolves_emitWithin e.schema root direction levels)
        ⟨h.reserve hfind .pending, rfl, by omega⟩ rfl hmem
      cases hbuild : Layout.build e.schema (fun child => emitWithin levels child direction) shape
          (e.reserve shape direction .pending) with
      | ok layout e' =>
        rw [hbuild] at hlayout
        simp only [hbuild]
        exact .built hfind hlayout
      | error error e' =>
        rw [hbuild] at hlayout
        simp only [hbuild]
        exact .built hfind hlayout

/-- A request comes to an end, with the answer that `emit` gives. -/
theorem emit_completes (h : e.WellFormed) (shape : Shape) (direction : Direction) :
    Completes direction (.routine shape) e (.routine (emit shape direction e).1)
      (emit shape direction e).2 :=
  emitWithin_completes _ h (Schema.self_mem_closure _ shape) (missing_le e shape direction)

end Adequacy

/-- A task comes to one end at most: of the rules for a task no two apply to the same emitter. -/
theorem Completes.unique {task : Task} {answer answer' : Answer} {e₁ e₂ : Emitter}
    (h : Completes direction task e answer e₁) (h' : Completes direction task e answer' e₂) :
    answer = answer' ∧ e₁ = e₂ := by
  induction h generalizing answer' e₂ with
  | known hfind =>
    cases h' with
    | known hfind' =>
      obtain rfl := Option.some.inj (hfind.symm.trans hfind')
      exact ⟨rfl, rfl⟩
    | built hfind' => cases hfind.symm.trans hfind'
  | built hfind _ ih =>
    cases h' with
    | known hfind' => cases hfind.symm.trans hfind'
    | built _ hlayout =>
      obtain ⟨hresult, rfl⟩ := ih hlayout
      cases hresult
      exact ⟨rfl, rfl⟩
  | int =>
    cases h' with
    | int => exact ⟨rfl, rfl⟩
    | unreferable href => cases href
    | call hcomposite => cases hcomposite
  | string =>
    cases h' with
    | string => exact ⟨rfl, rfl⟩
    | unreferable href => cases href
    | call hcomposite => cases hcomposite
  | unreferable href =>
    cases h' with
    | int => cases href
    | string => cases href
    | unreferable href' =>
      cases href.symm.trans href'
      exact ⟨rfl, rfl⟩
    | call _ href' => cases href.symm.trans href'
  | call hcomposite href _ ih =>
    cases h' with
    | int => cases hcomposite
    | string => cases hcomposite
    | unreferable href' => cases href.symm.trans href'
    | call _ _ hroutine =>
      obtain ⟨hid, rfl⟩ := ih hroutine
      cases hid
      exact ⟨rfl, rfl⟩
  | noMembers =>
    cases h'
    exact ⟨rfl, rfl⟩
  | lastMember _ ih =>
    cases h' with
    | lastMember hoperand =>
      obtain ⟨herror, rfl⟩ := ih hoperand
      cases herror
      exact ⟨rfl, rfl⟩
    | member hoperand => cases (ih hoperand).1
  | member _ _ ihOperand ihRest =>
    cases h' with
    | lastMember hoperand => cases (ihOperand hoperand).1
    | member hoperand hrest =>
      obtain ⟨hanswer, rfl⟩ := ihOperand hoperand
      cases hanswer
      obtain ⟨hresult, rfl⟩ := ihRest hrest
      cases hresult
      exact ⟨rfl, rfl⟩
  | undeclared hdecl =>
    cases h' with
    | undeclared => exact ⟨rfl, rfl⟩
    | object hdecl' => cases hdecl.symm.trans hdecl'
    | scalar hscalar => cases hscalar
  | object hdecl _ ih =>
    cases h' with
    | undeclared hdecl' => cases hdecl.symm.trans hdecl'
    | object hdecl' hmembers =>
      cases hdecl.symm.trans hdecl'
      obtain ⟨hresult, rfl⟩ := ih hmembers
      cases hresult
      exact ⟨rfl, rfl⟩
    | scalar hscalar => cases hscalar
  | list _ ih =>
    cases h' with
    | list hoperand =>
      obtain ⟨hresult, rfl⟩ := ih hoperand
      cases hresult
      exact ⟨rfl, rfl⟩
    | scalar hscalar => cases hscalar
  | scalar hscalar _ ih =>
    cases h' with
    | undeclared => cases hscalar
    | object => cases hscalar
    | list => cases hscalar
    | scalar _ hoperand =>
      obtain ⟨hresult, rfl⟩ := ih hoperand
      cases hresult
      exact ⟨rfl, rfl⟩

end Emitter

namespace Generation

open Emitter

/-- Call sites are served in order, each by a request that comes to an end. -/
inductive Serves (s : Schema) : List CallSite → Progress → Progress → Prop
  | done {p} : Serves s [] p p
  | refused {call rest p q error} : s.checkReferences call.shape = .error error →
      Serves s rest
        ⟨p.emitter.report ⟨.error, .callSite call.direction call.shape, error⟩, p.entries⟩ q →
      Serves s (call :: rest) p q
  | emitted {call rest p q id e} : s.checkReferences call.shape = .ok () →
      Completes call.direction (.routine call.shape) p.emitter (.routine id) e →
      Serves s rest ⟨e, p.entries.assign call.shape call.direction id
        (Progress.blankValue s call.shape)⟩ q →
      Serves s (call :: rest) p q

theorem serves_foldl {s : Schema} {p : Progress} (calls : List CallSite) (h : Sound s p) :
    Serves s calls p (calls.foldl (Progress.addCall s) p) := by
  induction calls generalizing p with
  | nil => exact .done
  | cons call rest ih =>
    have hrest := ih (h.addCall call)
    rw [List.foldl_cons]
    cases href : s.checkReferences call.shape with
    | error error =>
      rw [addCall_of_error href] at hrest ⊢
      exact .refused href hrest
    | ok =>
      rw [addCall_of_ok href] at hrest ⊢
      exact .emitted href (emit_completes h.wellFormed call.shape call.direction) hrest

theorem Serves.unique {s : Schema} {calls : List CallSite} {p q q' : Progress}
    (h : Serves s calls p q) (h' : Serves s calls p q') : q = q' := by
  induction h with
  | done =>
    cases h'
    rfl
  | refused href _ ih =>
    cases h' with
    | refused href' hrest =>
      cases href.symm.trans href'
      exact ih hrest
    | emitted href' => cases href.symm.trans href'
  | emitted href hroutine _ ih =>
    cases h' with
    | refused href' => cases href.symm.trans href'
    | emitted _ hroutine' hrest =>
      obtain ⟨hid, rfl⟩ := hroutine.unique hroutine'
      cases hid
      exact ih hrest

/-- All call sites of a schema are served in the end, and in one way only. -/
theorem serves_iff (s : Schema) (done : Progress) :
    Serves s s.calls ⟨.ofSchema s, []⟩ done ↔ done = called s := by
  have hcalled := serves_foldl s.calls (sound_start s)
  constructor
  · intro h
    exact h.unique hcalled
  · rintro rfl
    exact hcalled

end Generation

end ShapeCodec
