import Mathlib.Data.List.Perm.Subperm
import ShapeCodec.Proofs.Buildable
/-! Types that need each other. A shape has no default exactly where some walk down through non-null
objects comes to an undeclared type or to a type that it has been at already. The levels that
`defaultWithin` counts are never used up: a search without them, which keeps the types that it is in
on a stack, comes to an end with the same answer. -/
namespace ShapeCodec.Schema

/-- What a default is searched for. -/
inductive Search where
  | value (shape : Shape)
  | fields (properties : List Property)

/-- What a search comes to. -/
inductive Found where
  | value (result : Except ShapeError Value)
  | fields (result : Except ShapeError (List Value))

/-- A run of a search, from the types that are being visited to those that are when it ends. There
are no levels, so a search that goes round in circles has no run. -/
inductive Visits (s : Schema) : Search → List String → Found → List String → Prop
  | null {shape stack} : shape.isNullable = true →
      Visits s (.value shape) stack (.value (.ok .null)) stack
  | int {stack} : Visits s (.value .int) stack (.value (.ok (.int 0))) stack
  | list {element stack} :
      Visits s (.value (.list element false)) stack (.value (.ok (.list []))) stack
  | undeclared {name stack} : s.type? name = none →
      Visits s (.value (.object name false)) stack (.value (.error (.undeclared name))) stack
  | again {name decl stack} : s.type? name = some decl → name ∈ stack →
      Visits s (.value (.object name false)) stack (.value (.error (.unboundedDefault name))) stack
  /-- The type is put on the stack for its properties. What is on top behind them is taken off. -/
  | record {name decl stack fields top stack'} : s.type? name = some decl → name ∉ stack →
      Visits s (.fields decl.properties) (name :: stack) (.fields (.ok fields)) (top :: stack') →
      Visits s (.value (.object name false)) stack (.value (.ok (.record name fields))) stack'
  /-- An error leaves the stack as it is. -/
  | failure {name decl stack e stack'} : s.type? name = some decl → name ∉ stack →
      Visits s (.fields decl.properties) (name :: stack) (.fields (.error e)) stack' →
      Visits s (.value (.object name false)) stack (.value (.error e)) stack'
  | noFields {stack} : Visits s (.fields []) stack (.fields (.ok [])) stack
  /-- The fields end with the first that has no default. -/
  | lastField {p rest stack e stack'} :
      Visits s (.value p.effectiveShape) stack (.value (.error e)) stack' →
      Visits s (.fields (p :: rest)) stack (.fields (.error e)) stack'
  | field {p rest stack field mid result stack'} :
      Visits s (.value p.effectiveShape) stack (.value (.ok field)) mid →
      Visits s (.fields rest) mid (.fields result) stack' →
      Visits s (.fields (p :: rest)) stack (.fields (result.map (field :: ·))) stack'

/-- A property of a type is, as the type uses it, a non-null object of the type below. -/
def Needs (s : Schema) (name below : String) : Prop :=
  ∃ p ∈ s.properties name, p.effectiveShape = .object below false

/-- A walk down from a shape, as the names of the non-null objects that it comes by. The first is
the shape itself. -/
structure Walk (s : Schema) (shape : Shape) (names : List String) : Prop where
  start : ∀ name ∈ names.head?, shape = .object name false
  chain : names.IsChain s.Needs

/-- What a default consists of. -/
inductive IsDefault (s : Schema) : Shape → Value → Prop
  | int : IsDefault s .int (.int 0)
  | string : IsDefault s .string .null
  | unsupported {text} : IsDefault s (.unsupported text) .null
  | nullObject {name} : IsDefault s (.object name true) .null
  | nullList {element} : IsDefault s (.list element true) .null
  | list {element} : IsDefault s (.list element false) (.list [])
  | record {name decl fields} : s.type? name = some decl →
      List.Forall₂ (fun p field => IsDefault s p.effectiveShape field) decl.properties fields →
      IsDefault s (.object name false) (.record name fields)

/-- Declared types without repetition, all others of which have a level each. -/
structure Visiting (s : Schema) (levels : Nat) (stack : List String) : Prop where
  nodup : stack.Nodup
  declared : stack ⊆ s.types.map Declaration.name
  enough : s.types.length ≤ levels + stack.length

variable {s : Schema} {levels : Nat} {shape : Shape} {name : String} {names stack : List String}
  {stack' : List String} {search : Search} {found : Found} {decl : Declaration} {v : Value}
  {e : ShapeError}

theorem isDeclared_of_type? (h : s.type? name = some decl) : s.isDeclared name = true := by
  rw [isDeclared, h]
  rfl

theorem visiting_nil : Visiting s s.types.length [] :=
  ⟨.nil, List.nil_subset _, Nat.le_refl _⟩

/-- Another declared type always has a level left. -/
theorem Visiting.push (h : Visiting s levels stack) (hdecl : s.type? name = some decl)
    (hfresh : name ∉ stack) : ∃ less, levels = less + 1 ∧ Visiting s less (name :: stack) := by
  have hname : name ∈ s.types.map Declaration.name :=
    (s.isDeclared_iff name).1 (isDeclared_of_type? hdecl)
  have hnodup : (name :: stack).Nodup := List.nodup_cons.2 ⟨hfresh, h.nodup⟩
  have hsubset : name :: stack ⊆ s.types.map Declaration.name :=
    List.cons_subset.2 ⟨hname, h.declared⟩
  have hlength := (hnodup.subperm hsubset).length_le
  have henough := h.enough
  simp only [List.length_cons, List.length_map] at hlength
  obtain ⟨less, rfl⟩ : ∃ less, levels = less + 1 := ⟨levels - 1, by omega⟩
  exact ⟨less, rfl, hnodup, hsubset, by simp only [List.length_cons]; omega⟩

section Search

theorem defaultWithin_undeclared (h : s.type? name = none) :
    s.defaultWithin levels stack (.object name false) = .error (.undeclared name) := by
  unfold defaultWithin
  simp only [Shape.isNullable, Bool.false_eq_true, if_false, h]

theorem defaultWithin_again (hdecl : s.type? name = some decl) (hagain : name ∈ stack) :
    s.defaultWithin levels stack (.object name false) = .error (.unboundedDefault name) := by
  unfold defaultWithin
  simp only [Shape.isNullable, Bool.false_eq_true, if_false, hdecl, if_pos hagain]

theorem defaultWithin_fresh (hdecl : s.type? name = some decl) (hfresh : name ∉ stack) :
    s.defaultWithin (levels + 1) stack (.object name false) =
      (decl.properties.mapM fun p =>
        s.defaultWithin levels (name :: stack) p.effectiveShape).map (.record name) := by
  rw [defaultWithin]
  simp only [Shape.isNullable, Bool.false_eq_true, if_false, hdecl, if_neg hfresh]

/-- The same search with levels. -/
def findWithin (s : Schema) (levels : Nat) (stack : List String) : Search → Found
  | .value shape => .value (s.defaultWithin levels stack shape)
  | .fields properties =>
    .fields (properties.mapM fun p => s.defaultWithin levels stack p.effectiveShape)

def Found.isOk : Found → Bool
  | .value result => result.isOk
  | .fields result => result.isOk

/-- A run ends with what is found by levels. If that is no error, it ends with the stack of its
start. -/
theorem Visits.found_eq (h : Visits s search stack found stack')
    (hvisiting : Visiting s levels stack) :
    s.findWithin levels stack search = found ∧ (found.isOk = true → stack' = stack) := by
  induction h generalizing levels with
  | null hnull => exact ⟨congrArg Found.value (defaultWithin_nullable hnull), fun _ => rfl⟩
  | int => exact ⟨congrArg Found.value defaultWithin_int, fun _ => rfl⟩
  | list => exact ⟨congrArg Found.value defaultWithin_list, fun _ => rfl⟩
  | undeclared hdecl => exact ⟨congrArg Found.value (defaultWithin_undeclared hdecl), fun _ => rfl⟩
  | again hdecl hagain =>
    exact ⟨congrArg Found.value (defaultWithin_again hdecl hagain), fun _ => rfl⟩
  | record hdecl hfresh _ ih =>
    obtain ⟨less, rfl, hpush⟩ := hvisiting.push hdecl hfresh
    obtain ⟨hfields, hstack⟩ := ih hpush
    have hmap := Found.fields.inj hfields
    rw [findWithin, defaultWithin_fresh hdecl hfresh, hmap]
    exact ⟨rfl, fun _ => (List.cons.inj (hstack rfl)).2⟩
  | failure hdecl hfresh _ ih =>
    obtain ⟨less, rfl, hpush⟩ := hvisiting.push hdecl hfresh
    have hmap := Found.fields.inj (ih hpush).1
    rw [findWithin, defaultWithin_fresh hdecl hfresh, hmap]
    exact ⟨rfl, nofun⟩
  | noFields => exact ⟨rfl, fun _ => rfl⟩
  | lastField _ ih =>
    have hlast := Found.value.inj (ih hvisiting).1
    rw [findWithin, List.mapM_cons, hlast]
    exact ⟨rfl, nofun⟩
  | @field p rest stack field mid result stack' _ _ ihfirst ihrest =>
    obtain ⟨hfirst, hmid⟩ := ihfirst hvisiting
    obtain rfl := hmid rfl
    obtain ⟨hrest, hstack⟩ := ihrest hvisiting
    have hhead := Found.value.inj hfirst
    have hmap := Found.fields.inj hrest
    rw [findWithin, List.mapM_cons, hhead]
    simp only [hmap]
    cases result with
    | error e => exact ⟨rfl, nofun⟩
    | ok fields => exact ⟨rfl, fun _ => hstack rfl⟩

theorem visits_fields (hvisiting : Visiting s levels stack)
    (h : ∀ shape, ∃ stack', Visits s (.value shape) stack
      (s.findWithin levels stack (.value shape)) stack') (properties : List Property) :
    ∃ stack', Visits s (.fields properties) stack
      (s.findWithin levels stack (.fields properties)) stack' := by
  simp only [findWithin] at h ⊢
  induction properties with
  | nil => exact ⟨stack, .noFields⟩
  | cons p rest ih =>
    obtain ⟨mid, hfirst⟩ := h p.effectiveShape
    rw [List.mapM_cons]
    cases hanswer : s.defaultWithin levels stack p.effectiveShape with
    | error e => exact ⟨mid, .lastField (hanswer ▸ hfirst)⟩
    | ok field =>
      rw [hanswer] at hfirst
      obtain rfl := (hfirst.found_eq hvisiting).2 rfl
      obtain ⟨stack', hrest⟩ := ih
      exact ⟨stack', .field hfirst hrest⟩

/-- Every search comes to an end. -/
theorem visits_value (hvisiting : Visiting s levels stack) :
    ∃ stack', Visits s (.value shape) stack
      (s.findWithin levels stack (.value shape)) stack' := by
  induction levels using Nat.strongRecOn generalizing stack shape with
  | ind levels ih =>
    cases hnullable : shape.isNullable with
    | true =>
      refine ⟨stack, ?_⟩
      rw [findWithin, defaultWithin_nullable hnullable]
      exact .null hnullable
    | false =>
      rcases Shape.of_not_nullable hnullable with rfl | ⟨element, rfl⟩ | ⟨name, rfl⟩
      · refine ⟨stack, ?_⟩
        rw [findWithin, defaultWithin_int]
        exact .int
      · refine ⟨stack, ?_⟩
        rw [findWithin, defaultWithin_list]
        exact .list
      · cases hdecl : s.type? name with
        | none =>
          refine ⟨stack, ?_⟩
          rw [findWithin, defaultWithin_undeclared hdecl]
          exact .undeclared hdecl
        | some decl =>
          by_cases hstack : name ∈ stack
          · refine ⟨stack, ?_⟩
            rw [findWithin, defaultWithin_again hdecl hstack]
            exact .again hdecl hstack
          · obtain ⟨less, rfl, hpush⟩ := hvisiting.push hdecl hstack
            obtain ⟨mid, hall⟩ := visits_fields hpush
              (fun _ => ih less (Nat.lt_succ_self less) hpush) decl.properties
            have hmid := (hall.found_eq hpush).2
            rw [findWithin] at hall hmid
            rw [findWithin, defaultWithin_fresh hdecl hstack]
            cases hfields : decl.properties.mapM fun p =>
                s.defaultWithin less (name :: stack) p.effectiveShape with
            | error e => exact ⟨mid, .failure hdecl hstack (hfields ▸ hall)⟩
            | ok fields =>
              rw [hfields] at hall hmid
              obtain rfl := hmid rfl
              exact ⟨stack, .record hdecl hstack hall⟩

/-- A search comes to an end with the default, or with the reason why there is none. -/
theorem visits_iff : (∃ stack', Visits s (.value shape) [] found stack') ↔
    found = .value (s.defaultValue shape) := by
  constructor
  · rintro ⟨stack', h⟩
    exact (h.found_eq visiting_nil).1.symm
  · rintro rfl
    exact visits_value visiting_nil

end Search

section Walks

theorem Walk.here (s : Schema) (name : String) : Walk s (.object name false) [name] :=
  ⟨fun _ h => by cases h; rfl, .singleton name⟩

/-- A walk down from a property is one from its type. -/
theorem Walk.above {p : Property} (h : Walk s p.effectiveShape names) (hp : p ∈ s.properties name) :
    Walk s (.object name false) (name :: names) := by
  refine ⟨fun _ hhead => by cases hhead; rfl, ?_⟩
  cases names with
  | nil => exact .singleton name
  | cons first rest => exact .cons_cons ⟨p, hp, h.start first rfl⟩ h.chain

/-- A walk starts with the shape, and goes on from one of its properties. -/
theorem Walk.tail {first : String} (h : Walk s shape (first :: names)) :
    shape = .object first false ∧
      (names = [] ∨ ∃ p ∈ s.properties first, Walk s p.effectiveShape names) := by
  refine ⟨h.start first rfl, ?_⟩
  cases names with
  | nil => exact .inl rfl
  | cons second rest =>
    obtain ⟨⟨p, hp, hshape⟩, hrest⟩ := List.isChain_cons_cons.1 h.chain
    exact .inr ⟨p, hp, fun _ hhead => by cases hhead; exact hshape, hrest⟩

/-- What has a default is walked down through declared types only, and past each of them once. -/
theorem declared_of_walk (h : s.defaultWithin levels stack shape = .ok v)
    (hwalk : Walk s shape names) :
    (∀ name ∈ names, s.isDeclared name = true ∧ name ∉ stack) ∧ names.Nodup := by
  induction names generalizing levels stack shape v with
  | nil => exact ⟨by simp, .nil⟩
  | cons first rest ih =>
    obtain ⟨rfl, hrest⟩ := hwalk.tail
    obtain ⟨decl, below, fields, hdecl, hfresh, rfl, rfl, hfields⟩ := defaultWithin_object h
    have hhead : s.isDeclared first = true ∧ first ∉ stack := ⟨isDeclared_of_type? hdecl, hfresh⟩
    rcases hrest with rfl | ⟨p, hp, hwalk⟩
    · simpa using hhead
    · rw [properties_of_type? hdecl] at hp
      obtain ⟨i, hi⟩ := List.mem_iff_getElem?.1 hp
      obtain ⟨field, -, hfield⟩ := getElem?_of_forall₂ hfields hi
      obtain ⟨hall, hnodup⟩ := ih hfield hwalk
      refine ⟨List.forall_mem_cons.2 ⟨hhead, fun name hname => ?_⟩, ?_⟩
      · obtain ⟨hdeclared, hnot⟩ := hall name hname
        exact ⟨hdeclared, fun hmem => hnot (List.mem_cons_of_mem _ hmem)⟩
      · exact List.nodup_cons.2 ⟨fun hmem => (hall first hmem).2 List.mem_cons_self, hnodup⟩

/-- Why an object has no default: its type is undeclared or visited already, or a property has
none. -/
theorem object_of_error (hvisiting : Visiting s levels stack)
    (h : s.defaultWithin levels stack shape = .error e) :
    ∃ name, shape = .object name false ∧
      (e = .undeclared name ∧ s.isDeclared name = false ∨
        e = .unboundedDefault name ∧ name ∈ stack ∨
        ∃ less, levels = less + 1 ∧ Visiting s less (name :: stack) ∧
          ∃ p ∈ s.properties name,
            s.defaultWithin less (name :: stack) p.effectiveShape = .error e) := by
  cases hnullable : shape.isNullable with
  | true =>
    rw [defaultWithin_nullable hnullable] at h
    cases h
  | false =>
    rcases Shape.of_not_nullable hnullable with rfl | ⟨element, rfl⟩ | ⟨name, rfl⟩
    · rw [defaultWithin_int] at h
      cases h
    · rw [defaultWithin_list] at h
      cases h
    · refine ⟨name, rfl, ?_⟩
      cases hdecl : s.type? name with
      | none =>
        rw [defaultWithin_undeclared hdecl] at h
        cases h
        exact .inl ⟨rfl, by rw [isDeclared, hdecl]; rfl⟩
      | some decl =>
        by_cases hstack : name ∈ stack
        · rw [defaultWithin_again hdecl hstack] at h
          cases h
          exact .inr (.inl ⟨rfl, hstack⟩)
        · obtain ⟨less, rfl, hpush⟩ := hvisiting.push hdecl hstack
          rw [defaultWithin_fresh hdecl hstack] at h
          have hfields : (decl.properties.mapM fun p =>
              s.defaultWithin less (name :: stack) p.effectiveShape) = .error e := by
            revert h
            cases decl.properties.mapM fun p =>
              s.defaultWithin less (name :: stack) p.effectiveShape <;> intro h <;> cases h
            rfl
          rw [properties_of_type? hdecl]
          exact .inr (.inr ⟨less, rfl, hpush, exists_of_mapM_error hfields⟩)

/-- An error has a walk to the type that it names: an undeclared one, or one that is on the way
already. -/
theorem walk_of_error (hvisiting : Visiting s levels stack)
    (h : s.defaultWithin levels stack shape = .error e) :
    ∃ before name, Walk s shape (before ++ [name]) ∧
      (e = .undeclared name ∧ s.isDeclared name = false ∨
        e = .unboundedDefault name ∧ (name ∈ before ∨ name ∈ stack)) := by
  induction levels using Nat.strongRecOn generalizing stack shape with
  | ind levels ih =>
    obtain ⟨name, rfl, hundeclared | ⟨rfl, hstack⟩ | ⟨less, rfl, hpush, p, hp, hfield⟩⟩ :=
      object_of_error hvisiting h
    · exact ⟨[], name, .here s name, .inl hundeclared⟩
    · exact ⟨[], name, .here s name, .inr ⟨rfl, .inr hstack⟩⟩
    · obtain ⟨before, last, hwalk, hcase⟩ := ih less (Nat.lt_succ_self less) hpush hfield
      refine ⟨name :: before, last, hwalk.above hp, hcase.imp id (.imp id fun hlast => ?_)⟩
      rcases hlast with hlast | hlast
      · exact .inl (List.mem_cons_of_mem _ hlast)
      · rcases List.mem_cons.1 hlast with rfl | hlast
        · exact .inl List.mem_cons_self
        · exact .inr hlast

theorem isDefault_of_ok (h : s.defaultWithin levels stack shape = .ok v) : IsDefault s shape v := by
  induction levels using Nat.strongRecOn generalizing stack shape v with
  | ind levels ih =>
    cases hnullable : shape.isNullable with
    | true =>
      rw [defaultWithin_nullable hnullable] at h
      cases h
      cases shape with
      | int => cases hnullable
      | string => exact .string
      | unsupported => exact .unsupported
      | object => cases hnullable; exact .nullObject
      | list => cases hnullable; exact .nullList
    | false =>
      rcases Shape.of_not_nullable hnullable with rfl | ⟨element, rfl⟩ | ⟨name, rfl⟩
      · rw [defaultWithin_int] at h; cases h; exact .int
      · rw [defaultWithin_list] at h; cases h; exact .list
      · obtain ⟨decl, below, fields, hdecl, -, rfl, rfl, hfields⟩ := defaultWithin_object h
        exact .record hdecl (hfields.imp fun _ _ => ih below (Nat.lt_succ_self below))

end Walks

/-- The search for a default always comes to an end. It finds one exactly if all walks down from the
shape are through declared types and come by none of them twice, and otherwise, if all of the types
are declared, it names one that lies on a cycle. -/
theorem defaultValue_exact (s : Schema) (shape : Shape) :
    (∀ found, (∃ stack, Visits s (.value shape) [] found stack) ↔
        found = .value (s.defaultValue shape)) ∧
      ((∃ v, s.defaultValue shape = .ok v) ↔ ∀ names, Walk s shape names →
        (∀ name ∈ names, s.isDeclared name = true) ∧ names.Nodup) ∧
      (∀ v, s.defaultValue shape = .ok v → IsDefault s shape v) ∧
      ((∀ names, Walk s shape names → ∀ name ∈ names, s.isDeclared name = true) →
        ∀ e, s.defaultValue shape = .error e →
          ∃ name before between, e = .unboundedDefault name ∧
            Walk s shape (before ++ name :: (between ++ [name]))) := by
  refine ⟨fun found => visits_iff, ⟨fun ⟨v, h⟩ names hwalk => ?_, fun hwalks => ?_⟩,
    fun v h => isDefault_of_ok h, fun hdeclared e h => ?_⟩
  · obtain ⟨hall, hnodup⟩ := declared_of_walk h hwalk
    exact ⟨fun name hname => (hall name hname).1, hnodup⟩
  · cases h : s.defaultValue shape with
    | ok v => exact ⟨v, rfl⟩
    | error e =>
      obtain ⟨before, name, hwalk, hcase⟩ := walk_of_error visiting_nil h
      obtain ⟨hdeclared, hnodup⟩ := hwalks _ hwalk
      rcases hcase with ⟨-, hnot⟩ | ⟨-, hmem | hmem⟩
      · rw [hdeclared name (by simp)] at hnot
        cases hnot
      · exact absurd rfl ((List.nodup_append.1 hnodup).2.2 name hmem name (by simp))
      · cases hmem
  · obtain ⟨before, name, hwalk, hcase⟩ := walk_of_error visiting_nil h
    rcases hcase with ⟨-, hnot⟩ | ⟨rfl, hmem | hmem⟩
    · rw [hdeclared _ hwalk name (by simp)] at hnot
      cases hnot
    · obtain ⟨front, between, rfl⟩ := List.append_of_mem hmem
      exact ⟨name, front, between, rfl, by simpa using hwalk⟩
    · cases hmem

end ShapeCodec.Schema
