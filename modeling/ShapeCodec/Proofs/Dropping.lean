import Mathlib.Data.List.InsertIdx
import ShapeCodec.Proofs.Direct.Skipping
import ShapeCodec.Proofs.Inert
/-! Dropping a property. What is read as a member can be skipped as one that nobody asks for, and both
end at the same place. So with a property gone from its type, everything else in a text is read as
before. -/
namespace ShapeCodec

open Generation.Progress (blankValue)

/-- The place of a property among those of its type. -/
structure Slot where
  type : String
  index : Nat

namespace Slot

variable {α β : Type} (d : Slot) (name : String)

/-- What is left of the fields of a type, or of what goes with them. -/
def keep (fields : List α) : List α :=
  if name = d.type then fields.eraseIdx d.index else fields

theorem keep_map (f : α → β) (fields : List α) :
    d.keep name (fields.map f) = (d.keep name fields).map f := by
  unfold keep
  split
  · exact List.eraseIdx_map f fields d.index
  · rfl

theorem keep_sublist (fields : List α) : (d.keep name fields).Sublist fields := by
  unfold keep
  split
  · exact List.eraseIdx_sublist fields d.index
  · exact .refl fields

theorem mem_of_mem_keep {fields : List α} {a : α} (h : a ∈ d.keep name fields) : a ∈ fields :=
  (d.keep_sublist name fields).subset h

theorem forall₂_keep {R : α → β → Prop} {as : List α} {bs : List β} (h : List.Forall₂ R as bs) :
    List.Forall₂ R (d.keep name as) (d.keep name bs) := by
  have herase (index : Nat) : List.Forall₂ R (as.eraseIdx index) (bs.eraseIdx index) := by
    induction h generalizing index with
    | nil => exact .nil
    | cons hhead htail ih =>
      cases index with
      | zero => exact htail
      | succ index => exact .cons hhead (ih index)
  unfold keep
  split
  · exact herase d.index
  · exact h

end Slot

section Schema

/-- The declaration without the property, if it is the one that has it. -/
def Declaration.without (decl : Declaration) (d : Slot) : Declaration :=
  { decl with properties := d.keep decl.name decl.properties }

theorem Declaration.Valid.without {decl : Declaration} (h : decl.Valid) (d : Slot) :
    (decl.without d).Valid where
  name := h.name
  property p hp := h.property p (d.mem_of_mem_keep decl.name hp)
  nodup := h.nodup.sublist ((d.keep_sublist decl.name decl.properties).map Property.name)

/-- The schema with one property less. -/
def Schema.without (s : Schema) (d : Slot) : Schema where
  types := s.types.map (·.without d)
  calls := s.calls
  valid := by
    intro decl hdecl
    obtain ⟨decl, hmem, rfl⟩ := List.mem_map.1 hdecl
    exact (s.valid decl hmem).without d
  nodup := by
    rw [List.map_map]
    exact s.nodup

mutual

/-- The value without the field, in every record that has it. -/
def Value.without (d : Slot) : Value → Value
  | .record type fields => .record type (d.keep type (withoutEach d fields))
  | .list items => .list (withoutEach d items)
  | .null => .null
  | .int n => .int n
  | .str text => .str text

def Value.withoutEach (d : Slot) : List Value → List Value
  | [] => []
  | v :: rest => v.without d :: withoutEach d rest

end

theorem Value.withoutEach_eq_map (d : Slot) (values : List Value) :
    Value.withoutEach d values = values.map (Value.without d) := by
  induction values with
  | nil => rfl
  | cons v values ih => rw [withoutEach, ih, List.map_cons]

/-- What is left of the fields of a record. -/
def Slot.left (d : Slot) (name : String) (fields : List Value) : List Value :=
  d.keep name (fields.map (Value.without d))

theorem Value.without_record (d : Slot) (name : String) (fields : List Value) :
    (Value.record name fields).without d = .record name (d.left name fields) := by
  rw [without, withoutEach_eq_map, Slot.left]

theorem Value.without_list (d : Slot) (items : List Value) :
    (Value.list items).without d = .list (items.map (Value.without d)) := by
  rw [without, withoutEach_eq_map]

namespace Schema

variable {s : Schema} {shape : Shape} {v : Value}

theorem type?_without (s : Schema) (d : Slot) (name : String) :
    (s.without d).type? name = (s.type? name).map (·.without d) := by
  rw [type?, type?, without, List.find?_map]
  rfl

theorem properties_without (s : Schema) (d : Slot) (name : String) :
    (s.without d).properties name = d.keep name (s.properties name) := by
  rw [properties, properties, type?_without]
  cases hdecl : s.type? name with
  | none => simp [Slot.keep]
  | some decl =>
    have hname : decl.name = name := (type?_eq_some hdecl).2
    simp [Declaration.without, hname]

theorem checkReferences_without (s : Schema) (d : Slot) (shape : Shape) :
    (s.without d).checkReferences shape = s.checkReferences shape := by
  have hdeclared (name : String) : (s.without d).isDeclared name = s.isDeclared name := by
    rw [isDeclared, isDeclared, type?_without, Option.isSome_map]
  unfold checkReferences
  simp only [hdeclared]

/-- What has a default keeps it, without the property. -/
theorem defaultWithin_without {levels : Nat} {visiting : List String} (d : Slot)
    (h : s.defaultWithin levels visiting shape = .ok v) :
    (s.without d).defaultWithin levels visiting shape = .ok (v.without d) := by
  induction levels using Nat.strongRecOn generalizing visiting shape v with
  | ind levels ih =>
    cases hnullable : shape.isNullable with
    | true =>
      rw [defaultWithin_nullable hnullable] at h ⊢
      cases h
      rfl
    | false =>
      rcases Shape.of_not_nullable hnullable with rfl | ⟨element, rfl⟩ | ⟨name, rfl⟩
      · rw [defaultWithin_int] at h ⊢
        cases h
        rfl
      · rw [defaultWithin_list] at h ⊢
        cases h
        rfl
      · obtain ⟨decl, below, fields, hdecl, hfresh, rfl, rfl, hfields⟩ := defaultWithin_object h
        have hname : decl.name = name := (type?_eq_some hdecl).2
        have hdecl' : (s.without d).type? name = some (decl.without d) := by
          rw [type?_without, hdecl, Option.map_some]
        have hleft : List.Forall₂ (fun p field =>
            (s.without d).defaultWithin below (name :: visiting) p.effectiveShape = .ok field)
            (decl.without d).properties (d.left name fields) := by
          rw [Declaration.without, hname]
          apply d.forall₂_keep
          rw [List.forall₂_map_right_iff]
          exact hfields.imp fun p field hfield => ih below (by omega) hfield
        unfold defaultWithin
        simp only [Shape.isNullable, Bool.false_eq_true, if_false, hdecl', if_neg hfresh,
          mapM_of_forall₂ hleft, Except.map, Value.without_record]

theorem defaultValue_without (d : Slot) (h : s.defaultValue shape = .ok v) :
    (s.without d).defaultValue shape = .ok (v.without d) := by
  have hlength : (s.without d).types.length = s.types.length := List.length_map _
  rw [defaultValue, hlength]
  exact defaultWithin_without d h

/-- What can be read still can. -/
theorem routineFault?_without (d : Slot) (h : s.routineFault? .deserialize shape = none) :
    (s.without d).routineFault? .deserialize shape = none := by
  have hlayout : (s.without d).layoutFault? shape = none := by
    have hlayout := layoutFault?_eq_none h
    cases shape with
    | object name nullable =>
      cases hdecl : s.type? name with
      | none => simp [layoutFault?, hdecl] at hlayout
      | some decl =>
        have hdecl' : (s.without d).type? name = some (decl.without d) := by
          rw [type?_without, hdecl, Option.map_some]
        rw [layoutFault?_object_eq_none hdecl']
        rw [layoutFault?_object_eq_none hdecl] at hlayout
        intro p hp
        rw [checkReferences_without]
        exact hlayout p (d.mem_of_mem_keep decl.name hp)
    | _ => simpa only [layoutFault?, checkReferences_without] using hlayout
  cases shape with
  | object name nullable =>
    rw [routineFault?_reading hlayout]
    rw [routineFault?_reading (layoutFault?_eq_none h)] at h
    cases hdefault : s.defaultValue (.object name false) with
    | error e =>
      rw [hdefault] at h
      cases h
    | ok v => rw [defaultValue_without d hdefault, faultOf_ok]
  | _ => simp only [routineFault?, hlayout]

theorem blankValue_without (d : Slot) (h : s.defaultValue shape = .ok v) :
    blankValue (s.without d) shape = (blankValue s shape).without d := by
  rw [blankValue, blankValue, h, defaultValue_without d h]

end Schema

end Schema

section Find

variable {properties : List Property} {p : Property} {name key : String} {i j index : Nat}

/-- A property that is still there was there before, in its slot or behind the one that is gone. -/
theorem find?_eraseIdx (hnodup : (properties.map Property.name).Nodup)
    (h : Written.find? (properties.eraseIdx index) key = some (p, j)) :
    Written.find? properties key = some (p, if j < index then j else j + 1) := by
  obtain ⟨hslot, rfl⟩ := Direct.mem_of_find?_zipIdx h
  apply Written.find?_eq_of_getElem? hnodup
  rw [List.getElem?_eraseIdx] at hslot
  split at hslot
  · next hlt => rwa [if_pos hlt]
  · next hlt => rwa [if_neg hlt]

theorem find?_eraseIdx_self (hnodup : (properties.map Property.name).Nodup)
    (h : Written.find? properties key = some (p, index)) :
    Written.find? (properties.eraseIdx index) key = none := by
  cases hfind : Written.find? (properties.eraseIdx index) key with
  | none => rfl
  | some entry =>
    obtain ⟨q, j⟩ := entry
    have hsame := h.symm.trans (find?_eraseIdx hnodup hfind)
    simp only [Option.some.injEq, Prod.mk.injEq] at hsame
    split at hsame <;> omega

theorem find?_eraseIdx_none (hnodup : (properties.map Property.name).Nodup)
    (h : Written.find? properties key = none) :
    Written.find? (properties.eraseIdx index) key = none := by
  cases hfind : Written.find? (properties.eraseIdx index) key with
  | none => rfl
  | some entry => cases h.symm.trans (find?_eraseIdx hnodup hfind)

/-- Any other property is found as before, and its slot is filled as before. -/
theorem find?_eraseIdx_of_ne (hnodup : (properties.map Property.name).Nodup)
    (h : Written.find? properties key = some (p, i)) (hne : i ≠ index) :
    ∃ j, Written.find? (properties.eraseIdx index) key = some (p, j) ∧
      ∀ (fields : List Value) v,
        (fields.set i v).eraseIdx index = (fields.eraseIdx index).set j v := by
  obtain ⟨hslot, rfl⟩ := Direct.mem_of_find?_zipIdx h
  have hnodup' : ((properties.eraseIdx index).map Property.name).Nodup :=
    hnodup.sublist ((List.eraseIdx_sublist properties index).map Property.name)
  rcases Nat.lt_or_gt_of_ne hne with hlt | hlt
  · refine ⟨i, Written.find?_eq_of_getElem? hnodup' ?_, fun fields v => List.eraseIdx_set_gt hlt⟩
    rwa [List.getElem?_eraseIdx_of_lt hlt]
  · refine ⟨i - 1, Written.find?_eq_of_getElem? hnodup' ?_,
      fun fields v => List.eraseIdx_set_lt hlt⟩
    rwa [List.getElem?_eraseIdx_of_ge (by omega), Nat.sub_add_cancel (by omega)]

namespace Slot

variable (d : Slot) {slots : List Value}

theorem find?_keep_none (hnodup : (properties.map Property.name).Nodup)
    (h : Written.find? properties key = none) :
    Written.find? (d.keep name properties) key = none := by
  unfold keep
  split
  · exact find?_eraseIdx_none hnodup h
  · exact h

/-- A property is gone with its slot, or it is found, and its slot is filled as before. -/
theorem find?_keep (hnodup : (properties.map Property.name).Nodup)
    (h : Written.find? properties key = some (p, i)) :
    (Written.find? (d.keep name properties) key = none ∧
      ∀ (fields : List Value) v, d.keep name (fields.set i v) = d.keep name fields) ∨
    ∃ j, Written.find? (d.keep name properties) key = some (p, j) ∧
      ∀ (fields : List Value) v, d.keep name (fields.set i v) = (d.keep name fields).set j v := by
  unfold keep
  split
  · by_cases hi : i = d.index
    · subst hi
      exact .inl ⟨find?_eraseIdx_self hnodup h, fun fields v => List.eraseIdx_set_eq⟩
    · exact .inr (find?_eraseIdx_of_ne hnodup h hi)
  · exact .inr ⟨i, h, fun fields v => rfl⟩

theorem left_set (fields : List Value) (v : Value) :
    d.left name (fields.set i v) =
      d.keep name ((fields.map (Value.without d)).set i (v.without d)) := by
  rw [left, List.map_set]

end Slot

end Find

namespace Direct

section Behind

variable {read : Shape → Reading Value} {properties : List Property} {bound : Nat}
  {slots fields : List Value} {c c' : Cursor}

/-- Members go on with a name or the closing brace. -/
theorem stops_of_readMembers (h : readMembers read properties bound slots c = .ok fields c') :
    Json.Number.Stops c.rest := by
  cases bound with
  | zero => cases h
  | succ bound =>
    obtain ⟨_, opened, hspace, h⟩ := Running.bind_eq_ok_iff.1 h
    obtain ⟨-, blanks, hspace⟩ := Written.skipWhitespace_eq_ok hspace
    rw [hspace]
    apply Json.Number.stops_blank blanks.2
    obtain ⟨_, _, ⟨⟩, h⟩ := Running.bind_eq_ok_iff.1 h
    split at h
    · cases h
    obtain ⟨closed, mid, hclosed, hround⟩ := Running.bind_eq_ok_iff.1 h
    rcases tryChar_eq_ok (eq_ok_of_lift hclosed) with ⟨rfl, hsplit⟩ | ⟨rfl, rfl, -⟩
    · rw [hsplit]
      rintro _ ⟨⟩
      decide
    · obtain ⟨_, entered, hentry, -⟩ := Running.bind_eq_ok_iff.1 hround
      obtain ⟨_, named, hname, -⟩ := Running.bind_eq_ok_iff.1 hentry
      obtain ⟨content, -, -, hsplit⟩ := readString_eq_ok (eq_ok_of_lift hname)
      rw [hsplit]
      rintro _ ⟨⟩
      decide

/-- So nothing that a number could go on with stands behind a member. -/
theorem stops_of_behind (h : (do
      Scan.skipWhitespace
      discard (Scan.tryChar ',')
      readMembers read properties bound slots : Reading (List Value)) c = .ok fields c') :
    Json.Number.Stops c.rest := by
  obtain ⟨_, spaced, hspace, h⟩ := Running.bind_eq_ok_iff.1 h
  obtain ⟨-, blanks, hspace⟩ := Written.skipWhitespace_eq_ok hspace
  rw [hspace]
  apply Json.Number.stops_blank blanks.2
  obtain ⟨_, next, hcomma, hnext⟩ := Running.bind_eq_ok_iff.1 h
  obtain ⟨found, hcomma, -⟩ := Running.map_eq_ok_iff.1 hcomma
  rcases tryChar_eq_ok (eq_ok_of_lift hcomma) with ⟨-, hsplit⟩ | ⟨-, rfl, -⟩
  · rw [hsplit]
    rintro _ ⟨⟩
    decide
  · exact stops_of_readMembers hnext

end Behind

section Follow

variable {α β γ δ : Type} {c c' : Cursor} {a : α}

/-- Where null is taken instead of something else, it still is. -/
theorem follows_orNull (g : α → β) {onNull : α} {onNull' : β} {other : Reading α}
    {other' : Reading β} (hnull : onNull' = g onNull) (hother : other c = .ok a c' → other' c = .ok (g a) c')
    (h : (do if ← Scan.tryNull then pure onNull else other : Reading α) c = .ok a c') :
    (do if ← Scan.tryNull then pure onNull' else other' : Reading β) c = .ok (g a) c' := by
  obtain ⟨null, mid, hword, hrun⟩ := Running.bind_eq_ok_iff.1 h
  rw [Running.bind_of_ok hword]
  rcases tryWord_eq_ok (eq_ok_of_lift hword) with ⟨rfl, -⟩ | ⟨rfl, rfl, -⟩
  · cases hrun
    rw [hnull]
    rfl
  · exact hother hrun

/-- A round goes the same way if its entry does, where the loop goes on behind it. -/
theorem follows_round (g : α → β) (k : γ → δ) {close : Char} {finish : α}
    {entry : Reading γ} {entry' : Reading δ} {next : γ → Reading α} {next' : δ → Reading β}
    (hentry : ∀ c x mid, entry c = .ok x mid → (do
      Scan.skipWhitespace
      discard (Scan.tryChar ',')
      next x : Reading α) mid = .ok a c' → entry' c = .ok (k x) mid)
    (hnext : ∀ x mid, next x mid = .ok a c' → next' (k x) mid = .ok (g a) c')
    (h : round close finish entry next c = .ok a c') :
    round close (g finish) entry' next' c = .ok (g a) c' := by
  obtain ⟨_, opened, hspace, h⟩ := Running.bind_eq_ok_iff.1 h
  obtain ⟨_, _, ⟨⟩, h⟩ := Running.bind_eq_ok_iff.1 h
  rw [round, Running.bind_of_ok hspace]
  refine (Running.bind_of_ok rfl).trans ?_
  split at h
  · cases h
  next hmore =>
  rw [if_neg hmore]
  obtain ⟨closed, mid, hclosed, hround⟩ := Running.bind_eq_ok_iff.1 h
  rw [Running.bind_of_ok hclosed]
  rcases tryChar_eq_ok (eq_ok_of_lift hclosed) with ⟨rfl, -⟩ | ⟨rfl, -, -⟩
  · cases hround
    rfl
  · obtain ⟨x, entered, hrun, hbehind⟩ := Running.bind_eq_ok_iff.1 hround
    refine (Running.bind_of_ok (hentry mid x entered hrun hbehind)).trans ?_
    obtain ⟨_, spaced, hgap, hcomma⟩ := Running.bind_eq_ok_iff.1 hbehind
    obtain ⟨_, started, hcomma, hlast⟩ := Running.bind_eq_ok_iff.1 hcomma
    rw [Running.bind_of_ok hgap, Running.bind_of_ok hcomma]
    exact hnext x started hlast

end Follow

section Read

variable {s : Schema} {d : Slot} {read read' : Shape → Reading Value} {properties : List Property}
  {name : String} {shape : Shape} {slots fields items : List Value} {c c' : Cursor} {v : Value}

/-- Where the first step succeeds, the second goes the same way, to what is left of the value. -/
def Follows (d : Slot) (x y : Reading Value) : Prop :=
  ∀ c v c', x c = .ok v c' → y c = .ok (v.without d) c'

theorem follows_readChild (hread : Follows d (read shape) (read' shape)) :
    Follows d (readChild read shape) (readChild read' shape) := by
  intro c v c' h
  obtain ⟨_, mid, hspace, h⟩ := Running.bind_eq_ok_iff.1 h
  refine (Running.bind_of_ok hspace).trans ?_
  cases shape with
  | int =>
    refine follows_orNull (Value.without d) rfl (fun hint => ?_) h
    obtain ⟨n, -, rfl⟩ := Running.map_eq_ok_iff.1 hint
    exact hint
  | string =>
    refine follows_orNull (Value.without d) rfl (fun hstring => ?_) h
    obtain ⟨text, -, rfl⟩ := Running.map_eq_ok_iff.1 hstring
    exact hstring
  | _ => exact hread mid v c' h

/-- The value of a member whose property is gone is skipped as others that nobody asks for. -/
theorem memberValue_left {key : String} (hnodup : (properties.map Property.name).Nodup)
    (hread : ∀ p ∈ properties,
      Follows d (readChild read p.effectiveShape) (readChild read' p.effectiveShape))
    (hskip : ∀ p ∈ properties, ∀ v, readChild read p.effectiveShape c = .ok v c' →
      Scan.skipValue c = .ok () c')
    (h : (match Written.find? properties key with
      | some (p, slot) => slots.set slot <$> readChild read p.effectiveShape
      | none => do
        Scan.skipValue
        pure slots : Reading (List Value)) c = .ok fields c') :
    (match Written.find? (d.keep name properties) key with
      | some (p, slot) => (d.left name slots).set slot <$> readChild read' p.effectiveShape
      | none => do
        Scan.skipValue
        pure (d.left name slots) : Reading (List Value)) c = .ok (d.left name fields) c' := by
  cases hfind : Written.find? properties key with
  | none =>
    rw [hfind] at h
    obtain ⟨_, mid, hvalue, h⟩ := Running.bind_eq_ok_iff.1 h
    cases h
    rw [d.find?_keep_none hnodup hfind]
    exact Running.bind_of_ok hvalue
  | some entry =>
    obtain ⟨p, slot⟩ := entry
    rw [hfind] at h
    obtain ⟨v, hvalue, rfl⟩ := Running.map_eq_ok_iff.1 h
    have hp := List.mem_of_getElem? (Direct.mem_of_find?_zipIdx hfind).1
    rcases d.find?_keep hnodup hfind with ⟨hgone, hset⟩ | ⟨j, hfound, hset⟩
    · rw [hgone, d.left_set, hset]
      exact Running.bind_of_ok (lift_of_ok (hskip p hp v hvalue))
    · rw [hfound, d.left_set, hset]
      exact Running.map_of_ok (hread p hp c v c' hvalue)

theorem readMember_left (hnodup : (properties.map Property.name).Nodup)
    (hread : ∀ p ∈ properties,
      Follows d (readChild read p.effectiveShape) (readChild read' p.effectiveShape))
    (hskip : ∀ p ∈ properties, ∀ c v, readChild read p.effectiveShape c = .ok v c' →
      Scan.skipValue c = .ok () c')
    (h : readMember read properties slots c = .ok fields c') :
    readMember read' (d.keep name properties) (d.left name slots) c =
      .ok (d.left name fields) c' := by
  obtain ⟨key, named, hkey, h⟩ := Running.bind_eq_ok_iff.1 h
  obtain ⟨_, spaced, hspace, h⟩ := Running.bind_eq_ok_iff.1 h
  obtain ⟨_, mid, hcolon, h⟩ := Running.bind_eq_ok_iff.1 h
  refine (Running.bind_of_ok hkey).trans ?_
  refine (Running.bind_of_ok hspace).trans ?_
  refine (Running.bind_of_ok hcolon).trans ?_
  exact memberValue_left hnodup hread (fun p hp => hskip p hp mid) h

theorem readMembers_left {bound : Nat} (hnodup : (properties.map Property.name).Nodup)
    (hread : ∀ p ∈ properties,
      Follows d (readChild read p.effectiveShape) (readChild read' p.effectiveShape))
    (hskip : ∀ p ∈ properties, ∀ c v c', readChild read p.effectiveShape c = .ok v c' →
      Json.Number.Stops c'.rest → Scan.skipValue c = .ok () c')
    (h : readMembers read properties bound slots c = .ok fields c') :
    readMembers read' (d.keep name properties) bound (d.left name slots) c =
      .ok (d.left name fields) c' := by
  induction bound generalizing slots c with
  | zero => cases h
  | succ bound ih =>
    apply follows_round (d.left name) (d.left name) _ (fun _ _ => ih) h
    intro c slots' mid hentry hbehind
    -- a number that is skipped now must end where the integer did, and the loop, going on, tells so
    have hstops := stops_of_behind hbehind
    exact readMember_left hnodup hread (fun p hp c v hrun => hskip p hp c v mid hrun hstops) hentry

theorem readItems_left {bound : Nat}
    (hread : Follows d (readChild read shape) (readChild read' shape))
    (h : readItems read shape bound c = .ok items c') :
    readItems read' shape bound c = .ok (items.map (Value.without d)) c' := by
  induction bound generalizing items c with
  | zero => cases h
  | succ bound ih =>
    apply follows_round (List.map (Value.without d)) (Value.without d) _ _ h
    · exact fun c v mid hentry _ => hread c v mid hentry
    · intro v mid hnext
      obtain ⟨rest, hrest, rfl⟩ := Running.map_eq_ok_iff.1 hnext
      exact Running.map_of_ok (ih hrest)

/-- The slots of a record start from what is left of the defaults. -/
theorem defaults_without {nullable : Bool} (h : Buildable s .deserialize (.object name nullable)) :
    defaults (s.without d) ((s.without d).properties name) =
      d.left name (defaults s (s.properties name)) := by
  rw [Slot.left, defaults, defaults, Schema.properties_without, List.map_map, d.keep_map]
  apply List.map_congr_left
  intro p hp
  have hproperty := h.property (d.mem_of_mem_keep name hp)
  exact Schema.blankValue_without d (defaultValue_eq hproperty)

/-- An object starts with other slots, and its members fill what is left of them. -/
theorem follows_object {nullable : Bool} {levels : Nat}
    (h : Buildable s .deserialize (.object name nullable))
    (hread : ∀ shape, Buildable s .deserialize shape →
      Follows d (Direct.read s levels shape) (Direct.read (s.without d) levels shape)) :
    Follows d (readValue s (Direct.read s levels) (.object name nullable))
      (readValue (s.without d) (Direct.read (s.without d) levels) (.object name nullable)) := by
  have hproperties := Schema.properties_without s d name
  have hdefaults := defaults_without (d := d) h
  intro c v c' hrun
  refine follows_orNull (Value.without d) ?_ (fun hobject => ?_) hrun
  · cases nullable with
    | true => rfl
    | false => simp [Value.without_record, hdefaults]
  · obtain ⟨_, mid, hopen, hobject⟩ := Running.bind_eq_ok_iff.1 hobject
    obtain ⟨_, _, ⟨⟩, hobject⟩ := Running.bind_eq_ok_iff.1 hobject
    obtain ⟨fields, hmembers, rfl⟩ := Running.map_eq_ok_iff.1 hobject
    refine (Running.bind_of_ok hopen).trans ?_
    rw [Value.without_record, hdefaults, hproperties]
    apply Running.map_of_ok
    apply readMembers_left (s.nodup_properties name) _ _ hmembers
    · exact fun p hp => follows_readChild (hread _ (h.property hp))
    · exact fun p hp c v c' hchild hstops => skipValue_of_readChild (fun _ => hstops) hchild

theorem follows_list {element : Shape} {nullable : Bool} {levels : Nat}
    (hread : Follows d (Direct.read s levels element) (Direct.read (s.without d) levels element)) :
    Follows d (readValue s (Direct.read s levels) (.list element nullable))
      (readValue (s.without d) (Direct.read (s.without d) levels) (.list element nullable)) := by
  intro c v c' hrun
  refine follows_orNull (Value.without d) ?_ (fun hlist => ?_) hrun
  · cases nullable <;> rfl
  · obtain ⟨_, mid, hopen, hlist⟩ := Running.bind_eq_ok_iff.1 hlist
    obtain ⟨_, _, ⟨⟩, hlist⟩ := Running.bind_eq_ok_iff.1 hlist
    obtain ⟨items, hitems, rfl⟩ := Running.map_eq_ok_iff.1 hlist
    refine (Running.bind_of_ok hopen).trans ?_
    rw [Value.without_list]
    exact Running.map_of_ok (readItems_left (follows_readChild hread) hitems)

/-- With a property gone, everything else is read as before. -/
theorem read_without (h : Buildable s .deserialize shape) (d : Slot) (levels : Nat) :
    Follows d (Direct.read s levels shape) (Direct.read (s.without d) levels shape) := by
  have hfault := h.fault
  have hfault' := Schema.routineFault?_without d hfault
  induction levels generalizing shape with
  | zero =>
    intro c v c' hrun
    unfold Direct.read at hrun
    simp only [hfault, Option.isSome_none, Bool.false_eq_true, if_false] at hrun
    obtain ⟨_, mid, -, hrun⟩ := Running.bind_eq_ok_iff.1 hrun
    cases hrun
  | succ levels ih =>
    intro c v c' hrun
    unfold Direct.read at hrun ⊢
    simp only [hfault, hfault', Option.isSome_none, Bool.false_eq_true, if_false] at hrun ⊢
    obtain ⟨_, mid, hspace, hrun⟩ := Running.bind_eq_ok_iff.1 hrun
    rw [Running.bind_of_ok hspace]
    have hread (shape : Shape) (h : Buildable s .deserialize shape) :
        Follows d (Direct.read s levels shape) (Direct.read (s.without d) levels shape) :=
      ih h h.fault (Schema.routineFault?_without d h.fault)
    cases shape with
    | object name nullable => exact follows_object h hread mid v c' hrun
    | list element nullable => exact follows_list (hread element h.element) mid v c' hrun
    | int => exact follows_readChild (hread .int h) mid v c' hrun
    | string => exact follows_readChild (hread .string h) mid v c' hrun
    | unsupported text => exact h.not_unsupported.elim

/-- A text is read the same way, to what is left of its value. -/
theorem deserialize_without (h : Buildable s .deserialize shape) (d : Slot) {text : String}
    (hread : Direct.deserialize s shape text = .ok v) :
    Direct.deserialize (s.without d) shape text = .ok (v.without d) := by
  rw [Direct.deserialize] at hread ⊢
  split at hread
  · next hblank =>
    cases hread
    rw [if_pos hblank, Schema.blankValue_without d (defaultValue_eq h)]
  · next hblank =>
    rw [if_neg hblank]
    cases hrun : Direct.read s maxDepth shape (.ofText text) with
    | error e c =>
      rw [hrun] at hread
      cases hread
    | ok value c =>
      rw [hrun] at hread
      cases hread
      rw [read_without h d maxDepth _ _ _ hrun]

end Read

end Direct

namespace Generation

variable {s : Schema} {options : Options}

/-- What a routine reads is skipped up to the same place. -/
theorem skipValue_of_routine {id : RoutineId} {r : Routine} {levels : Nat} {c c' : Cursor}
    {v : Value} (hr : (ofSchema s options).codec.routine? id = some r)
    (hdirection : r.direction = .deserialize)
    (hread : (ofSchema s options).codec.machine.readWithin levels id c = .ok v c')
    (hstops : r.shape = .int → Json.Number.Stops c'.rest) : Scan.skipValue c = .ok () c' := by
  cases hstub : r.isStub with
  | true =>
    have hinert := readWithin_of_stub (m := (ofSchema s options).codec.machine) hr hstub levels
    rw [hinert] at hread
    exact (Direct.readInert_eq_ok_iff.1 hread).2
  | false =>
    rw [readWithin_of_code hr hstub hdirection] at hread
    exact Direct.skipValue_of_read hstops hread

/-- What a routine reads can be skipped, up to the same place, unless a character stands behind an
integer that other numbers go on with. So a property can be dropped from the schema, and what the
call sites accept they still accept, with nothing changed but that its field is gone. -/
theorem read_droppable (s : Schema) (options : Options)
    (hwarnings : (ofSchema s options).warnings = []) :
    (∀ id r c v c', (ofSchema s options).codec.routine? id = some r → r.direction = .deserialize →
      (ofSchema s options).codec.machine.read id c = .ok v c' →
      (r.shape = .int → Json.Number.Stops c'.rest) → Scan.skipValue c = .ok () c') ∧
    ∀ shape text v d, ⟨.deserialize, shape⟩ ∈ s.calls →
      (ofSchema s options).codec.deserialize shape text = .ok v →
      (ofSchema (s.without d) options).codec.deserialize shape text = .ok (v.without d) := by
  constructor
  · intro id r c v c' hr hdirection hread hstops
    exact skipValue_of_routine hr hdirection hread hstops
  · intro shape text v d hcall hread
    cases href : s.checkReferences shape with
    | error e =>
      rw [deserialize_of_error options href] at hread
      cases hread
    | ok =>
      have hbuildable := buildable_of_call options hcall href hwarnings
      have href' := (Schema.checkReferences_without s d shape).trans href
      have hcall' : ⟨.deserialize, shape⟩ ∈ (s.without d).calls := hcall
      rw [deserialize_of_call options hcall href] at hread
      rw [deserialize_of_call options hcall' href']
      exact Direct.deserialize_without hbuildable d hread

/-- The number that is dropped here stands in front of a brace, which no number has. -/
theorem read_droppable_family : (ofSchema .family ⟨false⟩).warnings = [] ∧
    Scan.skipValue (.ofText "\x7b\"name\": \"A\", \"age\": 8\x7d]") = .ok () ⟨23, [']']⟩ ∧
    (ofSchema (Schema.family.without ⟨"Person", 1⟩) ⟨false⟩).codec.deserialize
        (.object "Person" false) "\x7b\"name\": \"A\", \"age\": 8\x7d" =
      .ok (.record "Person" [.str "A", .null, .list []]) := by
  have hwarnings : (ofSchema .family ⟨false⟩).warnings = [] := by decide +kernel
  obtain ⟨hskip, hdrop⟩ := read_droppable .family ⟨false⟩ hwarnings
  refine ⟨hwarnings, ?_, ?_⟩
  · have hkey : ((ofSchema .family ⟨false⟩).codec.routine? ⟨3⟩).map Routine.key =
        some (.object "Person" false, .deserialize) := by decide +kernel
    obtain ⟨r, hr, hshape, hdirection⟩ : ∃ r, (ofSchema .family ⟨false⟩).codec.routine? ⟨3⟩ =
        some r ∧ r.shape = .object "Person" false ∧ r.direction = .deserialize := by
      simpa [Routine.key] using hkey
    have hread : (ofSchema .family ⟨false⟩).codec.machine.read ⟨3⟩
        (.ofText "\x7b\"name\": \"A\", \"age\": 8\x7d]") =
          .ok (.record "Person" [.str "A", .int 8, .null, .list []]) ⟨23, [']']⟩ := by
      decide +kernel
    exact hskip ⟨3⟩ r _ _ _ hr hdirection hread (by simp [hshape])
  · exact hdrop (.object "Person" false) _ (.record "Person" [.str "A", .int 8, .null, .list []])
      ⟨"Person", 1⟩ (by simp [Schema.family]) (by decide +kernel)

end Generation

end ShapeCodec
