import ShapeCodec.Proofs.Calls
import ShapeCodec.Proofs.PlainJson
import ShapeCodec.Proofs.Written
/-! Blank text, null and what is left out. All three are read as the default: blank text through the
entry, null through the routine, and a member that is missing through the slots that the routine
starts from. -/
namespace ShapeCodec

open Generation.Progress (blankValue)
open Json (Blank)

namespace Direct

section Null

variable {s : Schema} {shape element : Shape} {levels : Nat} {name : String}
  {read : Shape → Reading Value}

theorem blankValue_of_nullable (h : shape.isNullable = true) : blankValue s shape = .null := by
  rw [blankValue, Schema.defaultValue, Schema.defaultWithin_nullable h]

theorem blankValue_int : blankValue s .int = .int 0 := by
  rw [blankValue, Schema.defaultValue, Schema.defaultWithin_int]

theorem blankValue_list : blankValue s (.list element false) = .list [] := by
  rw [blankValue, Schema.defaultValue, Schema.defaultWithin_list]

/-- What a record starts from is the default of the object. -/
theorem blankValue_object (h : Buildable s .deserialize (.object name false)) :
    blankValue s (.object name false) = .record name (defaults s (s.properties name)) := by
  obtain ⟨fields, hdefault⟩ := h.default
  obtain ⟨decl, _, hdecl, heq, hfields⟩ := Schema.defaultValue_object hdefault
  cases heq
  rw [Schema.properties_of_type? hdecl, ← defaults_eq hfields, blankValue, hdefault]

/-- Where a shape can be read it has a default. -/
theorem defaultValue_eq (h : Buildable s .deserialize shape) :
    s.defaultValue shape = .ok (blankValue s shape) := by
  have hexists : ∃ v, s.defaultValue shape = .ok v := by
    cases hnullable : shape.isNullable with
    | true => exact ⟨_, Schema.defaultWithin_nullable hnullable⟩
    | false =>
      rcases Shape.of_not_nullable hnullable with rfl | ⟨element, rfl⟩ | ⟨name, rfl⟩
      · exact ⟨_, Schema.defaultWithin_int⟩
      · exact ⟨_, Schema.defaultWithin_list⟩
      · obtain ⟨fields, hdefault⟩ := h.default
        exact ⟨_, hdefault⟩
  obtain ⟨v, hv⟩ := hexists
  rw [blankValue, hv]

theorem skip_consumes (blanks : Written.Blanks) (rest : List Char) :
    Consumes (liftM Scan.skipWhitespace : Reading Unit) blanks (nullWord ++ rest) () := by
  apply (Consumes.skipWhitespace blanks.2 _).lift
  rintro _ ⟨⟩
  decide

theorem readChild_null_scalar (read : Shape → Reading Value) (hscalar : shape.isComposite = false)
    (h : Buildable s .deserialize shape) (blanks : Written.Blanks) (rest : List Char) :
    Consumes (readChild read shape) (blanks ++ nullWord) rest (blankValue s shape) := by
  apply (skip_consumes blanks rest).seq
  cases shape with
  | int =>
    rw [blankValue_int]
    exact null_consumes (.nothing _ rest)
  | string =>
    rw [blankValue_of_nullable rfl]
    exact null_consumes (.nothing _ rest)
  | unsupported text => exact h.not_unsupported.elim
  | _ => cases hscalar

/-- Null is read as the default, also where it is not allowed for. -/
theorem readValue_null (h : Buildable s .deserialize shape) (rest : List Char) :
    Consumes (readValue s read shape) nullWord rest (blankValue s shape) := by
  cases shape with
  | object name nullable =>
    cases nullable with
    | true =>
      rw [blankValue_of_nullable rfl]
      exact null_consumes (.nothing _ rest)
    | false =>
      rw [blankValue_object h]
      exact null_consumes (.nothing _ rest)
  | list element nullable =>
    cases nullable with
    | true =>
      rw [blankValue_of_nullable rfl]
      exact null_consumes (.nothing _ rest)
    | false =>
      rw [blankValue_list]
      exact null_consumes (.nothing _ rest)
  | int => exact readChild_null_scalar read rfl h .none rest
  | string => exact readChild_null_scalar read rfl h .none rest
  | unsupported text => exact h.not_unsupported.elim

theorem read_null (h : Buildable s .deserialize shape) (levels : Nat) (blanks : Written.Blanks)
    (rest : List Char) :
    Consumes (Direct.read s (levels + 1) shape) (blanks ++ nullWord) rest (blankValue s shape) := by
  unfold Direct.read
  simp only [h.fault, Option.isSome_none, Bool.false_eq_true, if_false]
  exact (skip_consumes blanks rest).seq (readValue_null h rest)

theorem readChild_null (h : Buildable s .deserialize shape) (levels : Nat) (blanks : Written.Blanks)
    (rest : List Char) :
    Consumes (readChild (Direct.read s (levels + 1)) shape) (blanks ++ nullWord) rest
      (blankValue s shape) := by
  cases hcomposite : shape.isComposite with
  | false => exact readChild_null_scalar _ hcomposite h blanks rest
  | true =>
    have hread : Consumes (Direct.read s (levels + 1) shape) nullWord rest (blankValue s shape) :=
      read_null h levels .none rest
    cases shape with
    | object name nullable => exact (skip_consumes blanks rest).seq hread
    | list element nullable => exact (skip_consumes blanks rest).seq hread
    | _ => cases hcomposite

end Null

section Text

variable {s : Schema} {shape : Shape} {name : String} {nullable : Bool} {o o' : Written.Object}
  {v : Value}

theorem deserialize_of_consumes {taken rest : List Char}
    (h : Consumes (Direct.read s maxDepth shape) taken rest v)
    (htaken : ∃ d ∈ taken, Text.isSpace d = false) :
    Direct.deserialize s shape (String.ofList (taken ++ rest)) = .ok v := by
  obtain ⟨d, hd, hspace⟩ := htaken
  have hblank : Codec.isBlankText (String.ofList (taken ++ rest)) = false := by
    rw [Codec.isBlankText, String.toList_ofList, List.all_eq_false]
    exact ⟨d, List.mem_append_left rest hd, by simp [hspace]⟩
  have hrun := h.run 0
  rw [Direct.deserialize, hblank, Cursor.ofText, String.toList_ofList, hrun]
  rfl

theorem deserialize_null (h : Buildable s .deserialize shape) (before after : Written.Blanks) :
    Direct.deserialize s shape (String.ofList (before ++ nullWord ++ after)) =
      .ok (blankValue s shape) :=
  deserialize_of_consumes (read_null h (maxDepth - 1) before after) ⟨'n', by simp [nullWord], rfl⟩

/-- How the members of an object are read one level below it. -/
abbrev Readable (s : Schema) (name : String) (o : Written.Object) : Prop :=
  o.ReadBy (Direct.read s (maxDepth - 1)) (s.properties name)

theorem deserialize_object (h : Buildable s .deserialize (.object name nullable))
    {updates : List Written.Update} (hreads : List.Forall₂
      (Written.Reads (Direct.read s (maxDepth - 1)) (s.properties name)) o.contents updates) :
    Direct.deserialize s (.object name nullable) (String.ofList o.text) =
      .ok (Written.record s name updates) := by
  refine deserialize_of_consumes (Written.read_object h.fault hreads) ⟨'\x7b', ?_, rfl⟩
  exact List.mem_append_right _ List.mem_cons_self

/-- An object that is accepted is written in members that can be read. -/
theorem readable_of_deserialize (h : Buildable s .deserialize (.object name nullable))
    {text : String} (hread : Direct.deserialize s (.object name nullable) text = .ok v)
    (hopen : (text.toList.dropWhile Text.isSpace).head? = some '\x7b') :
    ∃ o : Written.Object, text.toList = o.text ∧ Readable s name o := by
  have hblank : Codec.isBlankText text = false := by
    rw [Codec.isBlankText, List.all_eq_false]
    have hspace := head?_dropWhile_false Text.isSpace text.toList '\x7b' hopen
    exact ⟨'\x7b', List.dropWhile_subset _ (List.mem_of_head? hopen), by simp [hspace]⟩
  simp only [Direct.deserialize, hblank, Bool.false_eq_true, if_false] at hread
  cases hrun : Direct.read s maxDepth (.object name nullable) (.ofText text) with
  | error e c =>
    rw [hrun] at hread
    cases hread
  | ok value c =>
    have hrun : Direct.read s (maxDepth - 1 + 1) (.object name nullable) (.ofText text) =
        .ok value c := hrun
    obtain ⟨o, updates, htext, hreads, -⟩ := Written.object_of_read h.fault hrun hopen
    exact ⟨o, htext, updates, hreads⟩

/-- A member that is null is read as it would be if it were missing. -/
theorem deserialize_adds (h : Buildable s .deserialize (.object name nullable)) {member : String}
    (hreads : Readable s name o) (hmember : member ∉ o.names) (hadds : o.Adds o' member) :
    ∃ v, Direct.deserialize s (.object name nullable) (String.ofList o.text) = .ok v ∧
      Direct.deserialize s (.object name nullable) (String.ofList o'.text) = .ok v := by
  obtain ⟨updates, hreads⟩ := hreads
  have hnull : ∀ (slot : Nat) (p : Property), (s.properties name)[slot]? = some p →
      ∃ value, (defaults s (s.properties name))[slot]? = some value ∧ ∀ blanks : Written.Blanks,
        Spans (readChild (Direct.read s (maxDepth - 1)) p.effectiveShape) (blanks ++ nullWord)
          value := by
    intro slot p hp
    refine ⟨blankValue s p.effectiveShape, by simp [defaults, hp], fun blanks rest _ => ?_⟩
    exact readChild_null (h.property (List.mem_of_getElem? hp)) (maxDepth - 2) blanks rest
  obtain ⟨updates', hreads', hsame⟩ := hadds.reads hmember hreads hnull
  refine ⟨_, deserialize_object h hreads, ?_⟩
  rw [deserialize_object h hreads', Written.record, hsame, Written.record]

end Text

end Direct

/-- The default of a shape is what blank text reads as, and null, and for an object it does not
matter whether a member is left out or null. Every object that is accepted is written in members
that can be read, and to these another one can be added that is null, anywhere, unless there is one
of its name. -/
structure Codec.Omits (c : Codec) (s : Schema) (shape : Shape) : Prop where
  default : ∃ v, s.defaultValue shape = .ok v ∧
    (∀ text, isBlankText text = true → c.deserialize shape text = .ok v) ∧
    ∀ before after : Written.Blanks,
      c.deserialize shape (String.ofList (before ++ nullWord ++ after)) = .ok v
  written : ∀ name nullable text v, shape = .object name nullable →
    c.deserialize shape text = .ok v → (text.toList.dropWhile Text.isSpace).head? = some '\x7b' →
    ∃ o : Written.Object, text.toList = o.text ∧ Direct.Readable s name o
  added : ∀ name nullable (o o' : Written.Object) member, shape = .object name nullable →
    Direct.Readable s name o → member ∉ o.names → o.Adds o' member →
    ∃ v, c.deserialize shape (String.ofList o.text) = .ok v ∧
      c.deserialize shape (String.ofList o'.text) = .ok v

namespace Generation

/-- Empty, null and omitted agree at every call site whose shape can be referenced. -/
theorem omits_of_call {s : Schema} (options : Options) {shape : Shape}
    (hcall : ⟨.deserialize, shape⟩ ∈ s.calls) (href : s.checkReferences shape = .ok ())
    (hwarnings : (ofSchema s options).warnings = []) :
    (ofSchema s options).codec.Omits s shape := by
  have hbuildable := buildable_of_call options hcall href hwarnings
  have hdirect := deserialize_of_call options hcall href
  constructor
  · refine ⟨_, Direct.defaultValue_eq hbuildable, fun text hblank => ?_, fun before after => ?_⟩
    · rw [hdirect, Direct.deserialize, if_pos hblank]
    · rw [hdirect, Direct.deserialize_null hbuildable]
  · rintro name nullable text v rfl hread hopen
    rw [hdirect] at hread
    exact Direct.readable_of_deserialize hbuildable hread hopen
  · rintro name nullable o o' member rfl hreads hmember hadds
    rw [hdirect, hdirect]
    exact Direct.deserialize_adds hbuildable hreads hmember hadds

example : (ofSchema .family ⟨false⟩).codec.deserialize (.object "Person" false)
      "\x7b\"age\": 7\x7d" =
    (ofSchema .family ⟨false⟩).codec.deserialize (.object "Person" false)
      "\x7b\"mother\" : null, \"age\": 7\x7d" := by decide +kernel

theorem omits_family : ⟨.deserialize, .object "Person" false⟩ ∈ Schema.family.calls ∧
    Schema.family.checkReferences (.object "Person" false) = .ok () ∧
    (ofSchema .family ⟨false⟩).warnings = [] ∧
    (ofSchema .family ⟨false⟩).codec.Omits .family (.object "Person" false) := by
  have hcall : ⟨.deserialize, .object "Person" false⟩ ∈ Schema.family.calls := by
    simp [Schema.family]
  have href : Schema.family.checkReferences (.object "Person" false) = .ok () := by decide +kernel
  have hwarnings : (ofSchema .family ⟨false⟩).warnings = [] := by decide +kernel
  exact ⟨hcall, href, hwarnings, omits_of_call ⟨false⟩ hcall href hwarnings⟩

/-- A nullable object of a type that nobody declares has the default null. Nothing warns about the
call site, but it has no entry, so that neither blank text nor null reads as that. -/
theorem blank_ghost : ⟨.deserialize, .object "Ghost" true⟩ ∈ absent.calls ∧
    (ofSchema absent ⟨false⟩).warnings = [] ∧ Codec.isBlankText "" = true ∧
    absent.defaultValue (.object "Ghost" true) = .ok .null ∧
    (ofSchema absent ⟨false⟩).codec.deserialize (.object "Ghost" true) "" =
      .error (.noEntry (.object "Ghost" true) .deserialize) ∧
    (ofSchema absent ⟨false⟩).codec.deserialize (.object "Ghost" true) "null" =
      .error (.noEntry (.object "Ghost" true) .deserialize) :=
  ⟨by simp [absent, Schema.call, Schema.empty], by decide +kernel, by decide, by decide +kernel,
    by decide +kernel, by decide +kernel⟩

end Generation

end ShapeCodec
