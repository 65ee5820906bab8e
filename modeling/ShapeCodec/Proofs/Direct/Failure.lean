import ShapeCodec.Proofs.Consumption
import ShapeCodec.Proofs.Direct.Reader
import ShapeCodec.Proofs.Direct.Writer
/-! What makes reading and writing fail. Only the text can make reading fail: values are built by the
reader and fit what they are put into. Only the value can make writing fail, because it does not fit
a shape or is nested too deeply: what a shape has accepted is found wherever its code looks. -/
namespace ShapeCodec.Direct

/-- All failures of the step are parse errors. -/
def BlamesText {α : Type} (x : Reading α) : Prop :=
  ∀ c e c', x c = .error e c' → ∃ error, e = .parse error

section Step

variable {α β : Type} {x : Reading α} {f : α → Reading β}

theorem blamesText_pure (a : α) : BlamesText (pure a) := by
  rintro c e c' ⟨⟩

theorem blamesText_get : BlamesText (get : Reading Cursor) := by
  rintro c e c' ⟨⟩

theorem blamesText_lift (x : Scan α) : BlamesText (liftM x) := by
  intro c e c' h
  cases hx : x c with
  | ok a mid =>
    rw [lift_of_ok hx] at h
    cases h
  | error error mid =>
    rw [lift_of_error hx] at h
    cases h
    exact ⟨error, rfl⟩

theorem BlamesText.bind (hx : BlamesText x) (hf : ∀ a, BlamesText (f a)) :
    BlamesText (x >>= f) := by
  intro c e c' h
  rcases Running.bind_eq_error_iff.1 h with h | ⟨a, mid, -, h⟩
  · exact hx c e c' h
  · exact hf a mid e c' h

theorem BlamesText.map (hx : BlamesText x) (g : α → β) : BlamesText (g <$> x) := by
  intro c e c' h
  rw [Running.map_apply] at h
  cases hrun : x c with
  | ok a mid =>
    rw [hrun] at h
    cases h
  | error error mid =>
    rw [hrun] at h
    cases h
    exact hx c _ _ hrun

theorem BlamesText.orNull {other : Reading α} (hother : BlamesText other) (onNull : α) :
    BlamesText (do if ← Scan.tryNull then pure onNull else other) := by
  apply (blamesText_lift _).bind
  intro null
  split
  · exact blamesText_pure onNull
  · exact hother

end Step

section Read

variable {s : Schema} {read : Shape → Reading Value} {properties : List Property}

theorem blamesText_readChild {shape : Shape} (hread : BlamesText (read shape)) :
    BlamesText (readChild read shape) := by
  apply (blamesText_lift _).bind
  intro _
  cases shape with
  | int => exact ((blamesText_lift _).map _).orNull _
  | string => exact ((blamesText_lift _).map _).orNull _
  | _ => exact hread

theorem blamesText_readMember (hread : ∀ shape, BlamesText (read shape)) (slots : List Value) :
    BlamesText (readMember read properties slots) := by
  apply (blamesText_lift _).bind
  intro name
  apply (blamesText_lift _).bind
  intro _
  apply (blamesText_lift _).bind
  intro _
  cases properties.zipIdx.find? fun entry => entry.1.name = name with
  | some entry => exact (blamesText_readChild (hread _)).map _
  | none => exact (blamesText_lift _).bind fun _ => blamesText_pure slots

theorem blamesText_round {α β : Type} {close : Char} {entry : Reading β} {next : β → Reading α}
    (hentry : BlamesText entry) (hnext : ∀ x, BlamesText (next x)) (finish : α) :
    BlamesText (round close finish entry next) := by
  apply (blamesText_lift _).bind
  intro _
  apply blamesText_get.bind
  intro c
  split
  · exact blamesText_lift _
  apply (blamesText_lift _).bind
  intro closed
  split
  · exact blamesText_pure finish
  apply hentry.bind
  intro x
  apply (blamesText_lift _).bind
  intro _
  apply ((blamesText_lift _).map _).bind
  intro _
  exact hnext x

theorem blamesText_readMembers (hread : ∀ shape, BlamesText (read shape)) (bound : Nat)
    (slots : List Value) : BlamesText (readMembers read properties bound slots) := by
  induction bound generalizing slots with
  | zero => exact blamesText_lift _
  | succ bound ih => exact blamesText_round (blamesText_readMember hread slots) ih slots

theorem blamesText_readItems {element : Shape} (hread : BlamesText (read element)) (bound : Nat) :
    BlamesText (readItems read element bound) := by
  induction bound with
  | zero => exact blamesText_lift _
  | succ bound ih => exact blamesText_round (blamesText_readChild hread) (fun item => ih.map _) []

theorem blamesText_readValue (hread : ∀ shape, BlamesText (read shape)) (shape : Shape) :
    BlamesText (readValue s read shape) := by
  cases shape with
  | object name nullable =>
    apply BlamesText.orNull
    apply (blamesText_lift _).bind
    intro _
    exact blamesText_get.bind fun start => (blamesText_readMembers hread _ _).map _
  | list element nullable =>
    apply BlamesText.orNull
    apply (blamesText_lift _).bind
    intro _
    exact blamesText_get.bind fun start => (blamesText_readItems (hread element) _).map _
  | int => exact blamesText_readChild (hread .int)
  | string => exact blamesText_readChild (hread .string)
  | unsupported text => exact blamesText_readChild (hread (.unsupported text))

theorem blamesText_readInert : BlamesText Machine.readInert :=
  (blamesText_lift _).bind fun _ => blamesText_pure _

theorem blamesText_read (s : Schema) (levels : Nat) (shape : Shape) :
    BlamesText (Direct.read s levels shape) := by
  induction levels generalizing shape with
  | zero =>
    unfold Direct.read
    split
    · exact blamesText_readInert
    · exact (blamesText_lift _).bind fun _ => blamesText_lift _
  | succ levels ih =>
    unfold Direct.read
    split
    · exact blamesText_readInert
    · exact (blamesText_lift _).bind fun _ => blamesText_readValue ih shape

end Read

/-- What writing says against a value. -/
inductive Refusal : CodecError → Prop
  | int (value : Value) : Refusal (.unexpected .int value)
  | string (value : Value) : Refusal (.unexpected .string value)
  | shape (shape : Shape) (value : Value) : Refusal (.unexpected (.shape shape) value)
  | otherType (shape : Shape) : Refusal (.mismatch (.shape shape) .otherType)
  | otherFieldCount (count : Nat) (type : String) :
      Refusal (.mismatch (.fieldCount count type) .otherFieldCount)
  | depthLimit : Refusal (.depthLimit maxDepth)

namespace Refusal

variable {e : CodecError}

theorem mismatch_or_depthLimit (h : Refusal e) :
    (∃ expected found, e = .mismatch expected found) ∨ e = .depthLimit maxDepth := by
  cases h with
  | depthLimit => exact .inr rfl
  | _ => exact .inl ⟨_, _, rfl⟩

/-- It is not that a value was missing at its source. -/
theorem find_ne (h : Refusal e) (source : ValueSource) (argument : Value) (item : Option Value) :
    source.find argument item ≠ .error e := by
  intro hfind
  cases source with
  | arg => cases hfind
  | element =>
    cases item with
    | some value => cases hfind
    | none =>
      cases hfind
      cases h
  | field slot =>
    cases argument with
    | record type fields =>
      simp only [ValueSource.find] at hfind
      split at hfind
      · cases hfind
      · cases hfind
        cases h
    | _ =>
      cases hfind
      cases h

end Refusal

/-- All failures of the step are said against the value. -/
def BlamesValue {α : Type} (x : Writing α) : Prop :=
  ∀ text e text', x text = .error e text' → Refusal e

section Step

variable {α β : Type} {x : Writing α} {f : α → Writing β}

theorem blamesValue_pure (a : α) : BlamesValue (pure a) := by
  rintro text e text' ⟨⟩

theorem blamesValue_put (added : String) : BlamesValue (Machine.put added) := by
  rintro text e text' ⟨⟩

theorem blamesValue_throw {e : CodecError} (h : Refusal e) :
    BlamesValue (throw e : Writing α) := by
  rintro text _ text' ⟨⟩
  exact h

theorem BlamesValue.bind (hx : BlamesValue x) (hf : ∀ a, BlamesValue (f a)) :
    BlamesValue (x >>= f) := by
  intro text e text' h
  rcases Running.bind_eq_error_iff.1 h with h | ⟨a, mid, -, h⟩
  · exact hx text e text' h
  · exact hf a mid e text' h

end Step

section Write

variable {s : Schema} {write : Shape → Value → Writing Unit}

theorem blamesValue_writeChild (hwrite : ∀ shape value, BlamesValue (write shape value))
    (shape : Shape) (value : Value) : BlamesValue (writeChild write shape value) := by
  cases shape with
  | int =>
    cases value with
    | int n => exact blamesValue_put _
    | _ => exact blamesValue_throw (.int _)
  | string =>
    cases value with
    | str text => exact blamesValue_put _
    | null => exact blamesValue_put _
    | _ => exact blamesValue_throw (.string _)
  | _ => exact hwrite _ value

theorem blamesValue_writeMembers (hwrite : ∀ shape value, BlamesValue (write shape value))
    (properties : List Property) (values : List Value) :
    BlamesValue (writeMembers write properties values) := by
  induction properties generalizing values with
  | nil => exact blamesValue_pure ()
  | cons p properties ih =>
    cases values with
    | nil => exact blamesValue_pure ()
    | cons value values =>
      apply (blamesValue_put _).bind
      intro _
      apply (blamesValue_writeChild hwrite _ value).bind
      intro _
      exact (blamesValue_put _).bind fun _ => ih values

theorem blamesValue_writeItems (hwrite : ∀ shape value, BlamesValue (write shape value))
    (element : Shape) (values : List Value) : BlamesValue (writeItems write element values) := by
  induction values with
  | nil => exact blamesValue_pure ()
  | cons value values ih =>
    apply (blamesValue_writeChild hwrite element value).bind
    intro _
    exact (blamesValue_put _).bind fun _ => ih

theorem blamesValue_accept (s : Schema) (shape : Shape) (value : Value) :
    BlamesValue (liftM (accept s shape value) : Writing Unit) := by
  have hrefusal : ∀ e, accept s shape value = .error e → Refusal e := by
    intro e h
    unfold accept at h
    repeat' split at h
    all_goals cases h
    all_goals constructor
  intro text e text' h
  cases haccept : accept s shape value with
  | ok =>
    rw [haccept] at h
    cases h
  | error refusal =>
    rw [haccept] at h
    cases h
    exact hrefusal _ haccept

theorem blamesValue_writeValue (hwrite : ∀ shape value, BlamesValue (write shape value))
    (shape : Shape) (value : Value) : BlamesValue (writeValue s write shape value) := by
  cases shape with
  | object name nullable =>
    cases value with
    | record type fields =>
      apply (blamesValue_put _).bind
      intro _
      exact (blamesValue_writeMembers hwrite _ fields).bind fun _ => blamesValue_put _
    | _ => exact blamesValue_put _
  | list element nullable =>
    cases value with
    | list items =>
      apply (blamesValue_put _).bind
      intro _
      exact (blamesValue_writeItems hwrite element items).bind fun _ => blamesValue_put _
    | _ => exact blamesValue_put _
  | int => exact blamesValue_writeChild hwrite .int value
  | string => exact blamesValue_writeChild hwrite .string value
  | unsupported text => exact blamesValue_writeChild hwrite (.unsupported text) value

theorem blamesValue_write (s : Schema) (levels : Nat) (shape : Shape) (value : Value) :
    BlamesValue (Direct.write s levels shape value) := by
  induction levels generalizing shape value with
  | zero =>
    unfold Direct.write
    split
    · exact blamesValue_pure ()
    · exact blamesValue_throw .depthLimit
  | succ levels ih =>
    unfold Direct.write
    split
    · exact blamesValue_pure ()
    · exact (blamesValue_accept s shape value).bind fun _ => blamesValue_writeValue ih shape value

end Write

end ShapeCodec.Direct
