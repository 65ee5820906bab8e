import ShapeCodec.Proofs.Direct.Writer
import ShapeCodec.Proofs.Fit
/-! What writing comes to: the wire text of a value that fits its shape, unless the value is nested
too deeply, and an error for every other value. -/
namespace ShapeCodec

/-- The end of a line, with a comma unless it is the last. -/
def Wire.separator (last : Bool) : String :=
  if last then "\n" else ",\n"

def Wire.lines : List String → String
  | [] => ""
  | line :: rest => line ++ separator rest.isEmpty ++ lines rest

mutual

/-- The text of a value at a position of a shape: objects and lists open and close on lines of their
own, with one property or item on each line between. -/
def wireText (s : Schema) : Shape → Value → String
  | .object name _, .record _ fields =>
    "\x7b\n" ++ Wire.lines (wireMembers s (s.properties name) fields) ++ "\x7d"
  | .list element _, .list items => "[\n" ++ Wire.lines (wireItems s element items) ++ "]"
  | _, .int n => Wire.int n
  | _, .str text => Wire.str (some text)
  | _, _ => Wire.str none

def wireMembers (s : Schema) : List Property → List Value → List String
  | p :: properties, value :: values =>
    ("\"" ++ p.name ++ "\": " ++ wireText s p.effectiveShape value) ::
      wireMembers s properties values
  | _, _ => []

def wireItems (s : Schema) (element : Shape) : List Value → List String
  | [] => []
  | value :: values => wireText s element value :: wireItems s element values

end

mutual

/-- The nested calls above the deepest position of a value: one for the value itself and one for
each composite position on the way down. -/
def nesting (s : Schema) : Shape → Value → Nat
  | .object name _, .record _ fields => nestingOfMembers s (s.properties name) fields + 1
  | .list element _, .list items => nestingOfItems s element items + 1
  | _, _ => 1

def nestingOfMembers (s : Schema) : List Property → List Value → Nat
  | p :: properties, value :: values =>
    max (if p.effectiveShape.isComposite then nesting s p.effectiveShape value else 0)
      (nestingOfMembers s properties values)
  | _, _ => 0

def nestingOfItems (s : Schema) (element : Shape) : List Value → Nat
  | [] => 0
  | value :: values =>
    max (if element.isComposite then nesting s element value else 0)
      (nestingOfItems s element values)

end

namespace Direct

open Machine (put)

/-- With enough levels a step appends its text, and with too few it fails at the limit. -/
structure Takes (levels needed : Nat) (x : Writing Unit) (wire : String) : Prop where
  enough : needed ≤ levels → ∀ text, x text = .ok () (text ++ wire)
  tooFew : levels < needed → ∀ text, ∃ written, x text = .error (.depthLimit maxDepth) written

namespace Takes

variable {levels needed needed' : Nat} {x y : Writing Unit} {wire wire' : String}

theorem put (levels : Nat) (wire : String) : Takes levels 0 (put wire) wire :=
  ⟨fun _ _ => rfl, fun h => absurd h (Nat.not_lt_zero levels)⟩

theorem nothing (levels : Nat) : Takes levels 0 (pure ()) "" :=
  ⟨fun _ text => by simp [Running.pure_apply], fun h => absurd h (Nat.not_lt_zero levels)⟩

theorem succ (h : Takes levels needed x wire) : Takes (levels + 1) (needed + 1) x wire :=
  ⟨fun hneeded => h.enough (by omega), fun hneeded => h.tooFew (by omega)⟩

theorem seq (hx : Takes levels needed x wire) (hy : Takes levels needed' y wire') :
    Takes levels (max needed needed') (do x; y) (wire ++ wire') := by
  constructor
  · intro h text
    rw [Running.bind_of_ok (hx.enough (by omega) text), hy.enough (by omega), String.append_assoc]
  · intro h text
    by_cases hneeded : needed ≤ levels
    · rw [Running.bind_of_ok (hx.enough hneeded text)]
      exact hy.tooFew (by omega) _
    · obtain ⟨written, hwritten⟩ := hx.tooFew (by omega) text
      exact ⟨written, Running.bind_of_error hwritten⟩

end Takes

section Write

variable {s : Schema} {levels : Nat} {shape : Shape} {v : Value}
  {write : Shape → Value → Writing Unit}

/-- Writing the values that fit a shape comes to their wire texts. -/
def Right (s : Schema) (levels : Nat) (write : Shape → Value → Writing Unit) (shape : Shape) :
    Prop :=
  ∀ v, Fits s shape v → Takes levels (nesting s shape v) (write shape v) (wireText s shape v)

theorem writeChild_takes (hwrite : Right s levels write shape) (hfits : Fits s shape v) :
    Takes levels (if shape.isComposite then nesting s shape v else 0) (writeChild write shape v)
      (wireText s shape v) := by
  cases shape with
  | int =>
    cases hfits
    simpa [Shape.isComposite, writeChild, wireText] using Takes.put levels _
  | string =>
    cases hfits <;> simpa [Shape.isComposite, writeChild, wireText] using Takes.put levels _
  | unsupported text => cases hfits
  | object name nullable => exact hwrite v hfits
  | list element nullable => exact hwrite v hfits

theorem writeMembers_takes {properties : List Property} {fields : List Value}
    (hwrite : ∀ p ∈ properties, Right s levels write p.effectiveShape)
    (hfits : List.Forall₂ (fun p field => Fits s p.effectiveShape field) properties fields) :
    Takes levels (nestingOfMembers s properties fields) (writeMembers write properties fields)
      (Wire.lines (wireMembers s properties fields)) := by
  induction hfits with
  | nil => exact Takes.nothing levels
  | @cons p field properties fields hp hrest ih =>
    have hchild := writeChild_takes (hwrite p List.mem_cons_self) hp
    have hmembers := ih fun q hq => hwrite q (List.mem_cons_of_mem p hq)
    have hlast : (wireMembers s properties fields).isEmpty = properties.isEmpty := by
      cases hrest <;> rfl
    have hline := (Takes.put levels (WriteTree.label p.name)).seq
      (hchild.seq ((Takes.put levels (Wire.separator properties.isEmpty)).seq hmembers))
    simpa [writeMembers, nestingOfMembers, wireMembers, Wire.lines, Wire.separator, hlast,
      WriteTree.label, String.append_assoc] using hline

theorem writeItems_takes {items : List Value} (hwrite : Right s levels write shape)
    (hfits : ∀ item ∈ items, Fits s shape item) :
    Takes levels (nestingOfItems s shape items) (writeItems write shape items)
      (Wire.lines (wireItems s shape items)) := by
  induction items with
  | nil => exact Takes.nothing levels
  | cons item items ih =>
    have hchild := writeChild_takes hwrite (hfits item List.mem_cons_self)
    have hitems := ih fun other hother => hfits other (List.mem_cons_of_mem item hother)
    have hlast : (wireItems s shape items).isEmpty = items.isEmpty := by
      cases items <;> rfl
    have hline := hchild.seq ((Takes.put levels (Wire.separator items.isEmpty)).seq hitems)
    simpa [writeItems, nestingOfItems, wireItems, Wire.lines, Wire.separator, hlast,
      String.append_assoc] using hline

theorem nesting_pos (s : Schema) (shape : Shape) (v : Value) : 0 < nesting s shape v := by
  unfold nesting
  split <;> omega

theorem accept_of_fits (hfits : Fits s shape v) : accept s shape v = .ok () := by
  cases hfits with
  | record hdecl hfields => simp [accept, hdecl, hfields.length_eq]
  | _ => rfl

/-- An accepted value takes one level more than what lies below it. -/
theorem writeValue_takes (hbuildable : Buildable s .serialize shape)
    (hwrite : ∀ below, Buildable s .serialize below → Right s levels write below)
    (hfits : Fits s shape v) :
    Takes (levels + 1) (nesting s shape v) (writeValue s write shape v) (wireText s shape v) := by
  cases hfits with
  | @record name nullable decl fields hdecl hfields =>
    have hmembers := writeMembers_takes
      (fun p hp => hwrite _ (hbuildable.property (Schema.properties_of_type? hdecl ▸ hp))) hfields
    have hblock := (Takes.put levels "\x7b\n").seq (hmembers.seq (Takes.put levels "\x7d"))
    simpa [writeValue, nesting, wireText, Schema.properties_of_type? hdecl, String.append_assoc]
      using hblock.succ
  | @list element nullable items hitems =>
    have hmembers := writeItems_takes (hwrite _ hbuildable.element) hitems
    have hblock := (Takes.put levels "[\n").seq (hmembers.seq (Takes.put levels "]"))
    simpa [writeValue, nesting, wireText, String.append_assoc] using hblock.succ
  | _ => exact (Takes.put levels _).succ

/-- A value that fits its shape is written out, or is nested too deeply. -/
theorem write_takes (hbuildable : Buildable s .serialize shape) (levels : Nat) :
    Right s levels (Direct.write s levels) shape := by
  induction levels generalizing shape with
  | zero =>
    intro v hfits
    have hpos := nesting_pos s shape v
    refine ⟨fun h => absurd h (by omega), fun _ text => ⟨text, ?_⟩⟩
    unfold Direct.write
    rw [hbuildable.fault]
    rfl
  | succ levels ih =>
    intro v hfits
    have hrun : Direct.write s (levels + 1) shape v =
        writeValue s (Direct.write s levels) shape v := by
      unfold Direct.write
      rw [hbuildable.fault, accept_of_fits hfits]
      rfl
    rw [hrun]
    exact writeValue_takes hbuildable (fun below hbelow => ih hbelow) hfits

/-- Children are written only where they fit. -/
theorem fits_of_writeChild {text text' : String} (hbuildable : Buildable s .serialize shape)
    (hwrite : ∀ v text text', write shape v text = .ok () text' → Fits s shape v)
    (h : writeChild write shape v text = .ok () text') : Fits s shape v := by
  cases shape with
  | int =>
    cases v with
    | int n => exact .int
    | _ => cases h
  | string =>
    cases v with
    | str text => exact .string
    | null => exact .noString
    | _ => cases h
  | unsupported text => exact hbuildable.not_unsupported.elim
  | object name nullable => exact hwrite v _ _ h
  | list element nullable => exact hwrite v _ _ h

theorem fits_of_writeMembers {properties : List Property} {fields : List Value}
    {text text' : String}
    (hbuildable : ∀ p ∈ properties, Buildable s .serialize p.effectiveShape)
    (hwrite : ∀ p ∈ properties, ∀ v text text',
      write p.effectiveShape v text = .ok () text' → Fits s p.effectiveShape v)
    (hlength : fields.length = properties.length)
    (h : writeMembers write properties fields text = .ok () text') :
    List.Forall₂ (fun p field => Fits s p.effectiveShape field) properties fields := by
  induction properties generalizing fields text with
  | nil =>
    obtain rfl := List.eq_nil_of_length_eq_zero hlength
    exact .nil
  | cons p properties ih =>
    obtain ⟨field, fields, rfl⟩ := List.exists_cons_of_length_eq_add_one hlength
    rw [writeMembers] at h
    obtain ⟨_, text₁, -, h⟩ := Running.bind_eq_ok_iff.1 h
    obtain ⟨_, text₂, hchild, h⟩ := Running.bind_eq_ok_iff.1 h
    obtain ⟨_, text₃, -, hrest⟩ := Running.bind_eq_ok_iff.1 h
    exact .cons
      (fits_of_writeChild (hbuildable p List.mem_cons_self) (hwrite p List.mem_cons_self) hchild)
      (ih (fun q hq => hbuildable q (List.mem_cons_of_mem p hq))
        (fun q hq => hwrite q (List.mem_cons_of_mem p hq)) (by simpa using hlength) hrest)

theorem fits_of_writeItems {items : List Value} {text text' : String}
    (hbuildable : Buildable s .serialize shape)
    (hwrite : ∀ v text text', write shape v text = .ok () text' → Fits s shape v)
    (h : writeItems write shape items text = .ok () text') :
    ∀ item ∈ items, Fits s shape item := by
  induction items generalizing text with
  | nil => simp
  | cons item items ih =>
    rw [writeItems] at h
    obtain ⟨_, text₁, hchild, h⟩ := Running.bind_eq_ok_iff.1 h
    obtain ⟨_, text₂, -, hrest⟩ := Running.bind_eq_ok_iff.1 h
    exact List.forall_mem_cons.2 ⟨fits_of_writeChild hbuildable hwrite hchild, ih hrest⟩

theorem fits_of_writeValue {text text' : String} (hbuildable : Buildable s .serialize shape)
    (hwrite : ∀ below, Buildable s .serialize below → ∀ v text text',
      write below v text = .ok () text' → Fits s below v)
    (haccept : accept s shape v = .ok ())
    (h : writeValue s write shape v text = .ok () text') : Fits s shape v := by
  cases shape with
  | object name nullable =>
    cases v with
    | null =>
      cases nullable with
      | true => exact .noObject
      | false => simp [accept, Shape.isNullable] at haccept
    | record type fields =>
      obtain ⟨decl, hdecl, hproperties⟩ := hbuildable.declared
      simp only [accept, hdecl] at haccept
      split at haccept
      · simp at haccept
      · next htype =>
        obtain rfl := not_not.1 htype
        split at haccept
        · next hlength =>
          obtain ⟨_, text₁, -, h⟩ := Running.bind_eq_ok_iff.1 h
          obtain ⟨_, text₂, hmembers, -⟩ := Running.bind_eq_ok_iff.1 h
          rw [hproperties] at hmembers
          have hbelow : ∀ p ∈ decl.properties, Buildable s .serialize p.effectiveShape :=
            fun p hp => hbuildable.property (hproperties ▸ hp)
          exact .record hdecl (fits_of_writeMembers hbelow
            (fun p hp => hwrite _ (hbelow p hp)) hlength hmembers)
        · simp at haccept
    | _ => simp [accept] at haccept
  | list element nullable =>
    cases v with
    | null =>
      cases nullable with
      | true => exact .noList
      | false => simp [accept, Shape.isNullable] at haccept
    | list items =>
      obtain ⟨_, text₁, -, h⟩ := Running.bind_eq_ok_iff.1 h
      obtain ⟨_, text₂, hitems, -⟩ := Running.bind_eq_ok_iff.1 h
      exact .list (fits_of_writeItems hbuildable.element (hwrite _ hbuildable.element) hitems)
    | _ => simp [accept] at haccept
  | _ => exact fits_of_writeChild hbuildable (hwrite _ hbuildable) h

/-- Nothing is written to the end but what fits its shape. -/
theorem fits_of_write {text text' : String} (hbuildable : Buildable s .serialize shape)
    (h : Direct.write s levels shape v text = .ok () text') : Fits s shape v := by
  induction levels generalizing shape v text text' with
  | zero =>
    unfold Direct.write at h
    rw [hbuildable.fault] at h
    cases h
  | succ levels ih =>
    unfold Direct.write at h
    simp only [hbuildable.fault, Option.isSome_none, Bool.false_eq_true, if_false] at h
    obtain ⟨_, text₁, hlift, h⟩ := Running.bind_eq_ok_iff.1 h
    have haccept : accept s shape v = .ok () := by
      cases hresult : accept s shape v with
      | ok => rfl
      | error e =>
        rw [hresult] at hlift
        cases hlift
    exact fits_of_writeValue hbuildable (fun below hbelow _ _ _ => ih hbelow) haccept h

end Write

end Direct

end ShapeCodec
