import ShapeCodec.Proofs.Consumption
import ShapeCodec.Proofs.Direct.Reader
import ShapeCodec.Proofs.Fit
/-! Whatever is read fits the shape it was read as: what the text says, what a null stands for and
what was left out alike. -/
namespace ShapeCodec.Direct

/-- A value that fits a shape and could be written to be read again. -/
def Good (s : Schema) (shape : Shape) (v : Value) : Prop :=
  Fits s shape v ∧ v.Quoteless

/-- Whatever is read as a shape is good for it. -/
def Yields (s : Schema) (read : Shape → Reading Value) (shape : Shape) : Prop :=
  ∀ c v c', read shape c = .ok v c' → Good s shape v

/-- A string ends at the first quote. -/
theorem quote_notMem_of_readString {c c' : Cursor} {text : String}
    (h : Scan.readString c = .ok text c') : '"' ∉ text.toList := by
  obtain ⟨_, mid, -, h⟩ := Running.bind_eq_ok_iff.1 h
  simp only [Scan.readContent] at h
  split at h
  · cases h
  · cases h
    rw [String.toList_ofList]
    intro hmem
    simpa using List.all_eq_true.1 List.all_takeWhile _ hmem

section Parts

variable {s : Schema} {read : Shape → Reading Value} {shape : Shape} {v : Value} {c c' : Cursor}
  {properties : List Property}

theorem good_of_readChild (hbuildable : Buildable s .deserialize shape)
    (hread : Yields s read shape) (h : readChild read shape c = .ok v c') : Good s shape v := by
  obtain ⟨_, c₁, -, h⟩ := Running.bind_eq_ok_iff.1 h
  cases shape with
  | int =>
    obtain ⟨null, c₂, -, h⟩ := Running.bind_eq_ok_iff.1 h
    cases null with
    | true =>
      cases h
      exact ⟨.int, Value.quoteless_int 0⟩
    | false =>
      obtain ⟨n, -, rfl⟩ := Running.map_eq_ok_iff.1 h
      exact ⟨.int, Value.quoteless_int n⟩
  | string =>
    obtain ⟨null, c₂, -, h⟩ := Running.bind_eq_ok_iff.1 h
    cases null with
    | true =>
      cases h
      exact ⟨.noString, Value.quoteless_null⟩
    | false =>
      obtain ⟨text, htext, rfl⟩ := Running.map_eq_ok_iff.1 h
      have hquote := quote_notMem_of_readString (eq_ok_of_lift htext)
      exact ⟨.string, (Value.quoteless_str text).2 hquote⟩
  | unsupported text => exact hbuildable.not_unsupported.elim
  | object name nullable => exact hread _ _ _ h
  | list element nullable => exact hread _ _ _ h

theorem forall₂_set {α β : Type} {R : α → β → Prop} {as : List α} {bs : List β} {i : Nat} {a : α}
    {b : β} (h : List.Forall₂ R as bs) (hi : as[i]? = some a) (hb : R a b) :
    List.Forall₂ R as (bs.set i b) := by
  induction h generalizing i with
  | nil => exact .nil
  | cons hhead htail ih =>
    cases i with
    | zero =>
      cases hi
      exact .cons hb htail
    | succ i => exact .cons hhead (ih hi)

/-- A round that succeeds has ended its loop, or has read one more entry. -/
theorem round_eq_ok {α β : Type} {close : Char} {finish a : α} {entry : Reading β}
    {more : β → Reading α} (h : round close finish entry more c = .ok a c') :
    a = finish ∨ ∃ x start behind later, entry start = .ok x behind ∧ more x later = .ok a c' := by
  obtain ⟨_, c₁, -, h⟩ := Running.bind_eq_ok_iff.1 h
  obtain ⟨_, c₂, -, h⟩ := Running.bind_eq_ok_iff.1 h
  split at h
  · cases h
  · obtain ⟨closed, c₃, -, h⟩ := Running.bind_eq_ok_iff.1 h
    split at h
    · cases h
      exact .inl rfl
    · obtain ⟨x, c₄, hentry, h⟩ := Running.bind_eq_ok_iff.1 h
      obtain ⟨_, c₅, -, h⟩ := Running.bind_eq_ok_iff.1 h
      obtain ⟨_, c₆, -, h⟩ := Running.bind_eq_ok_iff.1 h
      exact .inr ⟨x, c₃, c₄, c₆, hentry, h⟩

/-- The slots of an object under way. -/
abbrev Slots (s : Schema) (properties : List Property) (slots : List Value) : Prop :=
  List.Forall₂ (fun p v => Good s p.effectiveShape v) properties slots

theorem slots_of_readMember
    (hbuildable : ∀ p ∈ properties, Buildable s .deserialize p.effectiveShape)
    (hread : ∀ p ∈ properties, Yields s read p.effectiveShape) {slots slots' : List Value}
    (hslots : Slots s properties slots)
    (h : readMember read properties slots c = .ok slots' c') : Slots s properties slots' := by
  obtain ⟨name, c₁, -, h⟩ := Running.bind_eq_ok_iff.1 h
  obtain ⟨_, c₂, -, h⟩ := Running.bind_eq_ok_iff.1 h
  obtain ⟨_, c₃, -, h⟩ := Running.bind_eq_ok_iff.1 h
  cases hfind : properties.zipIdx.find? fun entry => entry.1.name = name with
  | some entry =>
    obtain ⟨p, slot⟩ := entry
    rw [hfind] at h
    obtain ⟨v, hv, rfl⟩ := Running.map_eq_ok_iff.1 h
    have hslot := List.mk_mem_zipIdx_iff_getElem?.1 (List.mem_of_find?_eq_some hfind)
    have hp := List.mem_of_getElem? hslot
    exact forall₂_set hslots hslot (good_of_readChild (hbuildable p hp) (hread p hp) hv)
  | none =>
    rw [hfind] at h
    obtain ⟨_, c₄, -, h⟩ := Running.bind_eq_ok_iff.1 h
    cases h
    exact hslots

/-- Members may come in any order and number, the slots stay good. -/
theorem slots_of_readMembers
    (hbuildable : ∀ p ∈ properties, Buildable s .deserialize p.effectiveShape)
    (hread : ∀ p ∈ properties, Yields s read p.effectiveShape) {bound : Nat}
    {slots slots' : List Value} (hslots : Slots s properties slots)
    (h : readMembers read properties bound slots c = .ok slots' c') :
    Slots s properties slots' := by
  induction bound generalizing slots c with
  | zero => cases h
  | succ bound ih =>
    rcases round_eq_ok h with rfl | ⟨next, _, _, _, hmember, hmore⟩
    · exact hslots
    · exact ih (slots_of_readMember hbuildable hread hslots hmember) hmore

theorem good_of_readItems (hbuildable : Buildable s .deserialize shape)
    (hread : Yields s read shape) {bound : Nat} {items : List Value}
    (h : readItems read shape bound c = .ok items c') : ∀ item ∈ items, Good s shape item := by
  induction bound generalizing items c with
  | zero => cases h
  | succ bound ih =>
    rcases round_eq_ok h with rfl | ⟨item, _, _, _, hitem, hmore⟩
    · simp
    · obtain ⟨rest, hrest, rfl⟩ := Running.map_eq_ok_iff.1 hmore
      exact List.forall_mem_cons.2 ⟨good_of_readChild hbuildable hread hitem, ih hrest⟩

theorem slots_defaults
    (hbuildable : ∀ p ∈ properties, Buildable s .deserialize p.effectiveShape) :
    Slots s properties (defaults s properties) := by
  rw [defaults, Slots, List.forall₂_map_right_iff, List.forall₂_same]
  exact fun p hp => fits_blankValue (hbuildable p hp)

theorem good_record {name : String} {nullable : Bool} {fields : List Value}
    (hbuildable : Buildable s .deserialize (.object name nullable))
    (h : Slots s (s.properties name) fields) :
    Good s (.object name nullable) (.record name fields) := by
  obtain ⟨decl, hdecl, hproperties⟩ := hbuildable.declared
  rw [hproperties] at h
  exact ⟨.record hdecl (h.imp fun _ _ hgood => hgood.1),
    (Value.quoteless_record name fields).2 (forall_mem_of_forall₂ h fun _ _ hgood => hgood.2)⟩

theorem good_of_readValue (hbuildable : Buildable s .deserialize shape)
    (hread : ∀ below, Buildable s .deserialize below → Yields s read below)
    (h : readValue s read shape c = .ok v c') : Good s shape v := by
  cases shape with
  | object name nullable =>
    have hproperties : ∀ p ∈ s.properties name, Buildable s .deserialize p.effectiveShape :=
      fun p hp => hbuildable.property hp
    obtain ⟨null, c₁, -, h⟩ := Running.bind_eq_ok_iff.1 h
    cases null with
    | true =>
      cases nullable with
      | true =>
        cases h
        exact ⟨.noObject, Value.quoteless_null⟩
      | false =>
        cases h
        exact good_record hbuildable (slots_defaults hproperties)
    | false =>
      obtain ⟨_, c₂, -, h⟩ := Running.bind_eq_ok_iff.1 h
      obtain ⟨_, c₃, -, h⟩ := Running.bind_eq_ok_iff.1 h
      obtain ⟨fields, hfields, rfl⟩ := Running.map_eq_ok_iff.1 h
      exact good_record hbuildable (slots_of_readMembers hproperties
        (fun p hp => hread _ (hproperties p hp)) (slots_defaults hproperties) hfields)
  | list element nullable =>
    obtain ⟨null, c₁, -, h⟩ := Running.bind_eq_ok_iff.1 h
    cases null with
    | true =>
      cases nullable with
      | true =>
        cases h
        exact ⟨.noList, Value.quoteless_null⟩
      | false =>
        cases h
        exact ⟨.list (by simp), (Value.quoteless_list []).2 (by simp)⟩
    | false =>
      obtain ⟨_, c₂, -, h⟩ := Running.bind_eq_ok_iff.1 h
      obtain ⟨_, c₃, -, h⟩ := Running.bind_eq_ok_iff.1 h
      obtain ⟨items, hitems, rfl⟩ := Running.map_eq_ok_iff.1 h
      have hgood := good_of_readItems hbuildable.element (hread _ hbuildable.element) hitems
      exact ⟨.list fun item hitem => (hgood item hitem).1,
        (Value.quoteless_list items).2 fun item hitem => (hgood item hitem).2⟩
  | _ => exact good_of_readChild hbuildable (hread _ hbuildable) h

/-- Reading is sound for every shape without a fault. -/
theorem good_of_read (hbuildable : Buildable s .deserialize shape) {levels : Nat}
    (h : Direct.read s levels shape c = .ok v c') : Good s shape v := by
  induction levels generalizing shape c v c' with
  | zero =>
    unfold Direct.read at h
    simp only [hbuildable.fault, Option.isSome_none, Bool.false_eq_true, if_false] at h
    obtain ⟨_, c₁, -, h⟩ := Running.bind_eq_ok_iff.1 h
    cases h
  | succ levels ih =>
    unfold Direct.read at h
    simp only [hbuildable.fault, Option.isSome_none, Bool.false_eq_true, if_false] at h
    obtain ⟨_, c₁, -, h⟩ := Running.bind_eq_ok_iff.1 h
    exact good_of_readValue hbuildable (fun below hbelow _ _ _ => ih hbelow) h

end Parts

end ShapeCodec.Direct
