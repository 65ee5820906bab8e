import Mathlib.Data.List.Forall2
import ShapeCodec.Schema.Default
/-! What a default looks like: null wherever null is allowed, and otherwise one level of the shape
with the defaults below it. -/
namespace ShapeCodec

theorem forall₂_of_mapM {ε α β : Type} {f : α → Except ε β} {as : List α} {bs : List β}
    (h : as.mapM f = .ok bs) : List.Forall₂ (fun a b => f a = .ok b) as bs := by
  induction as generalizing bs with
  | nil =>
    cases h
    exact .nil
  | cons a as ih =>
    rw [List.mapM_cons] at h
    cases hhead : f a with
    | error e => simp [hhead, bind, Except.bind] at h
    | ok b =>
      cases htail : as.mapM f with
      | error e => simp [hhead, htail, bind, Except.bind] at h
      | ok rest =>
        simp only [hhead, htail, bind, Except.bind, pure, Except.pure, Except.ok.injEq] at h
        subst h
        exact .cons hhead (ih htail)

theorem mapM_of_forall₂ {ε α β : Type} {f : α → Except ε β} {as : List α} {bs : List β}
    (h : List.Forall₂ (fun a b => f a = .ok b) as bs) : as.mapM f = .ok bs := by
  induction h with
  | nil => rfl
  | cons hhead _ ih => simp [List.mapM_cons, hhead, ih, bind, Except.bind, pure, Except.pure]

theorem exists_of_mapM_error {ε α β : Type} {f : α → Except ε β} {as : List α} {e : ε}
    (h : as.mapM f = .error e) : ∃ a ∈ as, f a = .error e := by
  induction as with
  | nil => cases h
  | cons a rest ih =>
    rw [List.mapM_cons] at h
    cases hhead : f a with
    | error e' =>
      rw [hhead] at h
      cases h
      exact ⟨a, List.mem_cons_self, hhead⟩
    | ok b =>
      rw [hhead] at h
      cases htail : rest.mapM f with
      | ok bs =>
        simp only [htail] at h
        cases h
      | error e' =>
        simp only [htail] at h
        cases h
        obtain ⟨a', hmem, ha'⟩ := ih htail
        exact ⟨a', List.mem_cons_of_mem _ hmem, ha'⟩

theorem forall_mem_of_forall₂ {α β : Type} {R : α → β → Prop} {P : β → Prop} {as : List α}
    {bs : List β} (h : List.Forall₂ R as bs) (hP : ∀ a b, R a b → P b) : ∀ b ∈ bs, P b := by
  induction h with
  | nil => simp
  | cons hhead _ ih => exact List.forall_mem_cons.2 ⟨hP _ _ hhead, ih⟩

/-- What related entries have in common if the second is in its list. -/
theorem forall₂_imp_mem {α β : Type} {R T : α → β → Prop} {as : List α} {bs : List β}
    (h : List.Forall₂ R as bs) (himp : ∀ a, ∀ b ∈ bs, R a b → T a b) : List.Forall₂ T as bs := by
  induction h with
  | nil => exact .nil
  | cons hhead _ ih =>
    exact .cons (himp _ _ List.mem_cons_self hhead)
      (ih fun a b hb => himp a b (List.mem_cons_of_mem _ hb))

theorem getElem?_of_forall₂ {α β : Type} {R : α → β → Prop} {as : List α} {bs : List β} {i : Nat}
    {a : α} (h : List.Forall₂ R as bs) (hi : as[i]? = some a) : ∃ b, bs[i]? = some b ∧ R a b := by
  induction h generalizing i with
  | nil => simp at hi
  | cons hhead _ ih =>
    cases i with
    | zero =>
      cases hi
      exact ⟨_, rfl, hhead⟩
    | succ i => exact ih hi

/-- What is left of the shapes without the nullable ones. -/
theorem Shape.of_not_nullable {shape : Shape} (h : shape.isNullable = false) :
    shape = .int ∨ (∃ element, shape = .list element false) ∨
      ∃ name, shape = .object name false := by
  cases shape with
  | int => exact .inl rfl
  | string => simp [isNullable] at h
  | unsupported text => simp [isNullable] at h
  | list element nullable =>
    obtain rfl : nullable = false := h
    exact .inr (.inl ⟨element, rfl⟩)
  | object name nullable =>
    obtain rfl : nullable = false := h
    exact .inr (.inr ⟨name, rfl⟩)

namespace Schema

variable {s : Schema} {levels : Nat} {visiting : List String} {shape : Shape} {v : Value}

theorem defaultWithin_nullable (h : shape.isNullable = true) :
    s.defaultWithin levels visiting shape = .ok .null := by
  unfold defaultWithin
  rw [if_pos h]

theorem defaultWithin_int : s.defaultWithin levels visiting .int = .ok (.int 0) := by
  cases levels <;> rfl

theorem defaultWithin_list {element : Shape} :
    s.defaultWithin levels visiting (.list element false) = .ok (.list []) := by
  cases levels <;> rfl

/-- The default of a non-null object is a record with the defaults of its properties. -/
theorem defaultWithin_object {name : String}
    (h : s.defaultWithin levels visiting (.object name false) = .ok v) :
    ∃ decl below fields, s.type? name = some decl ∧ name ∉ visiting ∧ levels = below + 1 ∧
      v = .record name fields ∧ List.Forall₂ (fun p field =>
        s.defaultWithin below (name :: visiting) p.effectiveShape = .ok field)
        decl.properties fields := by
  unfold defaultWithin at h
  simp only [Shape.isNullable, Bool.false_eq_true, if_false] at h
  cases hdecl : s.type? name with
  | none => simp [hdecl] at h
  | some decl =>
    simp only [hdecl] at h
    split at h
    · simp at h
    · next hfresh =>
      cases levels with
      | zero => simp at h
      | succ below =>
        cases hfields : decl.properties.mapM fun p =>
            s.defaultWithin below (name :: visiting) p.effectiveShape with
        | error e => simp [hfields, Except.map] at h
        | ok fields =>
          simp only [hfields, Except.map, Except.ok.injEq] at h
          exact ⟨decl, below, fields, rfl, hfresh, rfl, h.symm, forall₂_of_mapM hfields⟩

/-- A default that exists stays the same with more levels and below fewer types. -/
theorem defaultWithin_mono {levels' : Nat} {visiting' : List String} (hlevels : levels ≤ levels')
    (hvisiting : visiting' ⊆ visiting) (h : s.defaultWithin levels visiting shape = .ok v) :
    s.defaultWithin levels' visiting' shape = .ok v := by
  induction levels using Nat.strongRecOn generalizing levels' visiting visiting' shape v with
  | ind levels ih =>
    cases hnullable : shape.isNullable with
    | true => rwa [defaultWithin_nullable hnullable] at h ⊢
    | false =>
      rcases Shape.of_not_nullable hnullable with rfl | ⟨element, rfl⟩ | ⟨name, rfl⟩
      · rwa [defaultWithin_int] at h ⊢
      · rwa [defaultWithin_list] at h ⊢
      · obtain ⟨decl, below, fields, hdecl, hfresh, rfl, rfl, hfields⟩ := defaultWithin_object h
        obtain ⟨below', rfl⟩ : ∃ below', levels' = below' + 1 := ⟨levels' - 1, by omega⟩
        have hfields' : List.Forall₂ (fun p field =>
            s.defaultWithin below' (name :: visiting') p.effectiveShape = .ok field)
            decl.properties fields :=
          hfields.imp fun p field hfield => ih below (by omega) (by omega)
            (List.cons_subset_cons name hvisiting) hfield
        unfold defaultWithin
        simp only [Shape.isNullable, Bool.false_eq_true, if_false, hdecl,
          if_neg fun hmem => hfresh (hvisiting hmem), mapM_of_forall₂ hfields', Except.map]

/-- The default of an object consists of the defaults of its properties. -/
theorem defaultValue_object {name : String} (h : s.defaultValue (.object name false) = .ok v) :
    ∃ decl fields, s.type? name = some decl ∧ v = .record name fields ∧
      List.Forall₂ (fun p field => s.defaultValue p.effectiveShape = .ok field)
        decl.properties fields := by
  obtain ⟨decl, below, fields, hdecl, -, hlevels, rfl, hfields⟩ := defaultWithin_object h
  exact ⟨decl, fields, hdecl, rfl, hfields.imp fun _ _ hfield =>
    defaultWithin_mono (by omega) (List.nil_subset _) hfield⟩

end Schema

end ShapeCodec
