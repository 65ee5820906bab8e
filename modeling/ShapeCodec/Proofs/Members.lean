import ShapeCodec.Proofs.Independence
import ShapeCodec.Proofs.Inert
/-! Members of objects. Whatever their order, and whatever stands between them, an object is read as
the record in which every property has the value of its last member, or its default if there is no
member of its name. -/
namespace ShapeCodec

open Generation.Progress (blankValue)
open Written (Blanks)

/-- The codec has a reader for the shape, and with so many levels to go it takes all of the text. -/
def Codec.ReadsWhole (c : Codec) (s : Schema) (levels : Nat) (shape : Shape) (text : List Char)
    (v : Value) : Prop :=
  ∃ operand offset, Operand.For s c.routines .deserialize shape operand ∧
    Machine.readOperand (c.machine.readWithin levels) operand ⟨0, text⟩ = .ok v ⟨offset, []⟩

/-- A member that an object of the type can have: a text for the property of its name, one level
down, or any value of JSON in which no quote is escaped if there is none. -/
inductive Codec.Takes (c : Codec) (s : Schema) (type : String) :
    String × List Char → Value → Prop
  | known {p text v} (blanks : Blanks) : p ∈ s.properties type →
      c.ReadsWhole s (maxDepth - 1) p.effectiveShape text v →
      Takes c s type (p.name, blanks ++ text) v
  | unknown {name text v} (blanks : Blanks) : (∀ p ∈ s.properties type, p.name ≠ name) →
      Json.ValueText text → Json.escapesQuote text = false →
      Takes c s type (name, blanks ++ text) v

namespace Written

/-- The last member of a name. -/
def Object.last? (o : Object) (name : String) : Option (String × List Char) :=
  o.contents.reverse.find? fun m => m.1 = name

/-- The members that some property is for. -/
def Object.declared (o : Object) (properties : List Property) : List (String × List Char) :=
  o.contents.filter fun m => m.1 ∈ properties.map Property.name

section Last

variable {properties : List Property} {contents : List (String × List Char)} {slots : List Value}
  {slot : Nat} {p : Property} {o o' : Object} (v : String × List Char → Value)

/-- What a member does to the slots, if it has this value. -/
def fill (properties : List Property) (m : String × List Char) : Update :=
  (find? properties m.1).map fun entry => (entry.2, v m)

theorem length_put (slots : List Value) (update : Update) :
    (put slots update).length = slots.length := by
  cases update with
  | none => rfl
  | some entry => exact List.length_set

theorem length_foldl_put (updates : List Update) (slots : List Value) :
    (updates.foldl put slots).length = slots.length := by
  induction updates generalizing slots with
  | nil => rfl
  | cons update updates ih => rw [List.foldl_cons, ih, length_put]

/-- The last member of its name fills the slot of a property. -/
theorem getElem?_foldl_fill (hnodup : (properties.map Property.name).Nodup)
    (hslot : properties[slot]? = some p) (hlength : slots.length = properties.length) :
    ((contents.map (fill v properties)).foldl put slots)[slot]? =
      ((contents.reverse.find? fun m => m.1 = p.name).map v).or slots[slot]? := by
  induction contents using List.reverseRecOn with
  | nil => rfl
  | append_singleton contents m ih =>
    rw [List.map_append, List.foldl_append, List.reverse_append, List.map_singleton,
      List.reverse_singleton, List.singleton_append, List.find?_cons]
    by_cases hname : m.1 = p.name
    · have hlt : slot < properties.length := (List.getElem?_eq_some_iff.1 hslot).1
      have hfill : fill v properties m = some (slot, v m) := by
        rw [fill, hname, find?_eq_of_getElem? hnodup hslot, Option.map_some]
      simp [hfill, put, hname, length_foldl_put, hlength, hlt]
    · have hfree : ∀ value, some (slot, value) ∉ [fill v properties m] := by
        intro value hmem
        obtain ⟨⟨q, other⟩, hfind, heq⟩ :=
          Option.map_eq_some_iff.1 (List.mem_singleton.1 hmem).symm
        cases heq
        obtain ⟨hother, hq⟩ := Direct.mem_of_find?_zipIdx hfind
        cases hother.symm.trans hslot
        exact hname hq.symm
      have hkept := (getElem?_foldl_put hfree).trans ih
      simpa [hname] using hkept

/-- A record that is filled from the defaults. -/
theorem record_fill (s : Schema) (name : String) (o : Object) :
    record s name (o.contents.map (fill v (s.properties name))) =
      .record name ((s.properties name).map fun p =>
        ((o.last? p.name).map v).getD (blankValue s p.effectiveShape)) := by
  have hlength : (Direct.defaults s (s.properties name)).length = (s.properties name).length :=
    List.length_map _
  refine congrArg (Value.record name) (List.ext_getElem? fun slot => ?_)
  cases hslot : (s.properties name)[slot]? with
  | none =>
    have hlt := List.getElem?_eq_none_iff.1 hslot
    rw [← hlength, ← length_foldl_put (o.contents.map (fill v (s.properties name)))] at hlt
    rw [List.getElem?_map, hslot, List.getElem?_eq_none hlt, Option.map_none]
  | some p =>
    rw [getElem?_foldl_fill v (s.nodup_properties name) hslot hlength, ← Object.last?,
      Direct.defaults, List.getElem?_map, List.getElem?_map, hslot, Option.map_some,
      Option.map_some]
    cases o.last? p.name <;> simp

theorem last?_of_perm (h : o'.contents.Perm o.contents) (hnodup : o.names.Nodup) (name : String) :
    o'.last? name = o.last? name := by
  have hreverse : o'.contents.reverse.Perm o.contents.reverse :=
    (List.reverse_perm _).trans (h.trans (List.reverse_perm _).symm)
  apply find?_of_perm hreverse
  exact (hreverse.map Prod.fst).nodup_iff.2 (by simpa [Object.names] using hnodup)

theorem last?_of_swap {before after : List (String × List Char)} {m m' : String × List Char}
    (h : o.contents = before ++ m :: m' :: after) (h' : o'.contents = before ++ m' :: m :: after)
    (hne : m.1 ≠ m'.1) (name : String) : o'.last? name = o.last? name := by
  simp only [Object.last?, h, h', List.reverse_append, List.reverse_cons, List.append_assoc,
    List.find?_append, List.find?_cons, List.find?_nil]
  by_cases hname : m.1 = name
  · have hname' : ¬ m'.1 = name := fun heq => hne (hname.trans heq.symm)
    simp [hname, hname']
  · simp [hname]

/-- Members that no property is for do not count. -/
theorem last?_declared (hp : p ∈ properties) (o : Object) :
    o.last? p.name = (o.declared properties).reverse.find? fun m => m.1 = p.name := by
  rw [Object.last?, Object.declared, ← List.filter_reverse, List.find?_filter]
  congr 1
  funext m
  by_cases hname : m.1 = p.name
  · simp [hname, List.mem_map_of_mem hp]
  · simp [hname]

end Last

end Written

/-- An object is read as the record of its last members: each property has the value of the last
member of its name, or its default if there is none. So the order of members with different names
does not matter, nor do members that no property is for. -/
structure Codec.LastWins (c : Codec) (s : Schema) (type : String) (nullable : Bool) : Prop where
  record : ∀ (o : Written.Object) v, (∀ m ∈ o.contents, c.Takes s type m (v m)) →
    c.deserialize (.object type nullable) (String.ofList o.text) =
      .ok (.record type ((s.properties type).map fun p =>
        ((o.last? p.name).map v).getD (blankValue s p.effectiveShape)))
  permuted : ∀ o o' : Written.Object, (∀ m ∈ o.contents, ∃ v, c.Takes s type m v) →
    o.names.Nodup → o'.contents.Perm o.contents →
    c.deserialize (.object type nullable) (String.ofList o'.text) =
      c.deserialize (.object type nullable) (String.ofList o.text)
  swapped : ∀ (o o' : Written.Object) before m m' after,
    (∀ m ∈ o.contents, ∃ v, c.Takes s type m v) →
    o.contents = before ++ m :: m' :: after → o'.contents = before ++ m' :: m :: after →
    m.1 ≠ m'.1 →
    c.deserialize (.object type nullable) (String.ofList o'.text) =
      c.deserialize (.object type nullable) (String.ofList o.text)
  unknown : ∀ o o' : Written.Object, (∀ m ∈ o.contents, ∃ v, c.Takes s type m v) →
    (∀ m ∈ o'.contents, ∃ v, c.Takes s type m v) →
    o'.declared (s.properties type) = o.declared (s.properties type) →
    c.deserialize (.object type nullable) (String.ofList o'.text) =
      c.deserialize (.object type nullable) (String.ofList o.text)

section Laws

variable {c : Codec} {s : Schema} {type : String} {nullable : Bool}

/-- The rest follows from what the records are. -/
theorem Codec.LastWins.of_record (h : ∀ (o : Written.Object) v,
    (∀ m ∈ o.contents, c.Takes s type m (v m)) →
    c.deserialize (.object type nullable) (String.ofList o.text) =
      .ok (.record type ((s.properties type).map fun p =>
        ((o.last? p.name).map v).getD (blankValue s p.effectiveShape)))) :
    c.LastWins s type nullable := by
  obtain ⟨v, hv⟩ : ∃ v : String × List Char → Value,
      ∀ m, (∃ w, c.Takes s type m w) → c.Takes s type m (v m) :=
    ⟨fun m => Classical.epsilon (c.Takes s type m), fun m => Classical.epsilon_spec⟩
  have hread (o : Written.Object) (ho : ∀ m ∈ o.contents, ∃ w, c.Takes s type m w) :=
    h o v fun m hm => hv m (ho m hm)
  have hsame (o o' : Written.Object) (ho : ∀ m ∈ o.contents, ∃ w, c.Takes s type m w)
      (hperm : o'.contents.Perm o.contents) (hlast : ∀ name, o'.last? name = o.last? name) :
      c.deserialize (.object type nullable) (String.ofList o'.text) =
        c.deserialize (.object type nullable) (String.ofList o.text) := by
    rw [hread o ho, hread o' fun m hm => ho m (hperm.mem_iff.1 hm)]
    simp only [hlast]
  constructor
  case record => exact h
  case permuted =>
    intro o o' ho hnodup hperm
    exact hsame o o' ho hperm (Written.last?_of_perm hperm hnodup)
  case swapped =>
    intro o o' before m m' after ho hcontents hcontents' hne
    have hperm : o'.contents.Perm o.contents := by
      rw [hcontents, hcontents']
      exact (List.Perm.swap m m' after).append_left before
    exact hsame o o' ho hperm (Written.last?_of_swap hcontents hcontents' hne)
  case unknown =>
    intro o o' ho ho' hdeclared
    have hfields : ∀ p ∈ s.properties type, ((o'.last? p.name).map v).getD
        (blankValue s p.effectiveShape) = ((o.last? p.name).map v).getD
          (blankValue s p.effectiveShape) := by
      intro p hp
      rw [Written.last?_declared hp, Written.last?_declared hp, hdeclared]
    rw [hread o ho, hread o' ho', List.map_congr_left hfields]

end Laws

namespace Direct

variable {read : Shape → Reading Value} {shape : Shape} {text : List Char} {v : Value}

/-- More whitespace in front makes no difference. -/
theorem consumes_blank {α : Type} {f : Unit → Reading α} {rest : List Char} {a : α}
    (blanks : Blanks) (h : Consumes (liftM Scan.skipWhitespace >>= f) text rest a) :
    Consumes (liftM Scan.skipWhitespace >>= f) (blanks ++ text) rest a := by
  constructor
  intro offset
  have hskip : Cursor.skipWhile Text.isSpace ⟨offset, blanks ++ (text ++ rest)⟩ =
      Cursor.skipWhile Text.isSpace ⟨offset + Text.utf8Length blanks.1, text ++ rest⟩ := by
    simp only [Cursor.skipWhile, Cursor.after, List.takeWhile_append_of_pos blanks.2,
      List.dropWhile_append_of_pos blanks.2, Text.utf8Length_append, Nat.add_assoc]
  have hspace (c : Cursor) := lift_of_ok (Consumes.skipWhitespace_apply c)
  have hrun := h.run (offset + Text.utf8Length blanks.1)
  rw [Running.bind_of_ok (hspace _), ← hskip] at hrun
  rw [List.append_assoc, Text.utf8Length_append, ← Nat.add_assoc, Running.bind_of_ok (hspace _)]
  exact hrun

/-- A child that takes all of a text takes it in front of anything that an object goes on with. -/
theorem spans_of_whole {s : Schema} {levels offset : Nat}
    (h : readChild (Direct.read s levels) shape ⟨0, text⟩ = .ok v ⟨offset, []⟩) :
    Spans (readChild (Direct.read s levels) shape) text v := by
  obtain ⟨taken, -, hsplit, hspans⟩ := ends_readChild s shape levels _ _ _ h
  obtain rfl : text = taken := by simpa using hsplit
  exact hspans

end Direct

namespace Generation

open Emitter

variable {s : Schema} {options : Options} {r : Routine} {source : ValueSource} {child : Shape}
  {name : String} {nullable : Bool}

/-- What an object calls for a child is a routine for the child. -/
theorem operand_of_child {operand : Operand} (hr : r ∈ (ofSchema s options).codec.routines)
    (hcode : r.isStub = false) (hchild : ChildAt s r.shape source child)
    (h : Operand.For s (ofSchema s options).codec.routines .deserialize child operand) :
    Operand.For s (called s).emitter.routines .deserialize child operand := by
  cases h with
  | int => exact .int
  | string => exact .string
  | call hcomposite href hat =>
    refine .call hcomposite href ?_
    obtain ⟨r', hr', hshape, hdirection⟩ := Table.at_iff.1 hat
    rw [ofSchema_eq] at hr'
    refine Table.at_iff.2 ⟨r', ?_, hshape, hdirection⟩
    rcases Nat.lt_or_ge _ (called s).emitter.routines.length with hlt | hge
    · rwa [List.getElem?_append_left hlt] at hr'
    · rw [List.getElem?_append_right hge] at hr'
      exact absurd hshape (shape_ne_of_unused hr hcode hchild (List.mem_of_getElem? hr'))

theorem spans_of_readsWhole {levels : Nat} {text : List Char} {v : Value}
    (hr : r ∈ (ofSchema s options).codec.routines) (hcode : r.isStub = false)
    (hchild : ChildAt s r.shape source child)
    (h : (ofSchema s options).codec.ReadsWhole s levels child text v) :
    Spans (Direct.readChild (Direct.read s levels) child) text v := by
  obtain ⟨operand, offset, hoperand, hrun⟩ := h
  have hcall : Direct.Reads (called s).emitter.routines
      ((ofSchema s options).codec.machine.readWithin levels) (Direct.read s levels) := by
    rw [ofSchema_eq]
    exact Direct.readWithin_eq (sound_called s).faithful _ levels
  rw [Direct.readOperand_eq hcall (operand_of_child hr hcode hchild hoperand)] at hrun
  exact Direct.spans_of_whole hrun

/-- A member does to the slots what its value does. -/
theorem reads_of_takes {m : String × List Char} {v : String × List Char → Value}
    (hr : r ∈ (ofSchema s options).codec.routines) (hcode : r.isStub = false)
    (hshape : r.shape = .object name nullable)
    (h : (ofSchema s options).codec.Takes s name m (v m)) :
    Written.Reads (Direct.read s (maxDepth - 1)) (s.properties name) m
      (Written.fill v (s.properties name) m) := by
  generalize hvalue : v m = value at h
  cases h with
  | @known p text _ blanks hp hwhole =>
    obtain ⟨slot, hslot⟩ := List.mem_iff_getElem?.1 hp
    have hfind := Written.find?_eq_of_getElem? (s.nodup_properties name) hslot
    have hchild : ChildAt s r.shape (.field slot) p.effectiveShape := hshape ▸ .field hslot
    rw [Written.fill, hfind, Option.map_some, hvalue]
    have hspans := spans_of_readsWhole hr hcode hchild hwhole
    exact .known hfind fun rest hrest => Direct.consumes_blank blanks (hspans rest hrest)
  | @unknown key text _ blanks hnone htext hescape =>
    have hfind : Written.find? (s.properties name) key = none := by
      refine List.find?_eq_none.2 fun entry hentry => ?_
      simpa using hnone entry.1 (List.fst_mem_of_mem_zipIdx hentry)
    rw [Written.fill, hfind, Option.map_none]
    exact .unknown hfind fun rest hrest => skipValue_consumes htext hescape blanks.2 fun _ => hrest

/-- The routine of a call site is no stub if nothing warns. -/
theorem exists_routine_of_call (options : Options) {shape : Shape}
    (hcall : ⟨.deserialize, shape⟩ ∈ s.calls) (href : s.checkReferences shape = .ok ())
    (hwarnings : (ofSchema s options).warnings = []) :
    ∃ r ∈ (ofSchema s options).codec.routines, r.isStub = false ∧ r.shape = shape := by
  obtain ⟨table, more, entry, id, htable, hfaithful, hquiet, -, -, hat⟩ :=
    entryPoint_of_call options hcall href
  obtain ⟨r, hr, hshape, -⟩ := Table.at_iff.1 hat
  have hmem := List.mem_of_getElem? hr
  have hhas := (hfaithful r hmem).hasCode
    ((hfaithful r hmem).warning?_eq_none_iff.1 (hquiet hwarnings r hmem))
  exact ⟨r, htable ▸ List.mem_append_left more hmem, hhas.isStub_eq_false, hshape⟩

/-- Every object that a call site reads is the record of its last members. -/
theorem lastWins_of_call (options : Options)
    (hcall : ⟨.deserialize, .object name nullable⟩ ∈ s.calls)
    (href : s.checkReferences (.object name nullable) = .ok ())
    (hwarnings : (ofSchema s options).warnings = []) :
    (ofSchema s options).codec.LastWins s name nullable := by
  have hbuildable := buildable_of_call options hcall href hwarnings
  obtain ⟨r, hr, hcode, hshape⟩ := exists_routine_of_call options hcall href hwarnings
  apply Codec.LastWins.of_record
  intro o v hmembers
  have hreads : List.Forall₂ (Written.Reads (Direct.read s (maxDepth - 1)) (s.properties name))
      o.contents (o.contents.map (Written.fill v (s.properties name))) := by
    rw [List.forall₂_map_right_iff, List.forall₂_same]
    exact fun m hm => reads_of_takes hr hcode hshape (hmembers m hm)
  rw [deserialize_of_call options hcall href, Direct.deserialize_object hbuildable hreads,
    Written.record_fill]

/-- A member that is repeated, with one between that no property is for. -/
def repeated : Written.Object where
  lead := .none
  members := [⟨.none, ⟨['a', 'g', 'e'], by decide⟩, .none, ['1'], some .none⟩,
    ⟨.none, ⟨['z', 'i', 'p'], by decide⟩, .none, nullWord, some .none⟩,
    ⟨.none, ⟨['a', 'g', 'e'], by decide⟩, .none, ['8'], none⟩]
  close := .none
  rest := []

/-- The last number counts, and nothing is said about the other properties. -/
theorem lastWins_family : ⟨.deserialize, .object "Person" false⟩ ∈ Schema.family.calls ∧
    Schema.family.checkReferences (.object "Person" false) = .ok () ∧
    (ofSchema .family ⟨false⟩).warnings = [] ∧
    (ofSchema .family ⟨false⟩).codec.deserialize (.object "Person" false)
        "\x7b\"age\":1,\"zip\":null,\"age\":8\x7d" =
      .ok (.record "Person" [.null, .int 8, .null, .list []]) := by
  have hcall : ⟨.deserialize, .object "Person" false⟩ ∈ Schema.family.calls := by
    simp [Schema.family]
  have href : Schema.family.checkReferences (.object "Person" false) = .ok () := by decide +kernel
  have hwarnings : (ofSchema .family ⟨false⟩).warnings = [] := by decide +kernel
  refine ⟨hcall, href, hwarnings, ?_⟩
  let v : String × List Char → Value := fun m =>
    if m.2 = ['1'] then .int 1 else if m.2 = ['8'] then .int 8 else .null
  have hage : (⟨"age", .int, false, true⟩ : Property) ∈ Schema.family.properties "Person" := by
    decide +kernel
  have hmembers : ∀ m ∈ repeated.contents,
      (ofSchema .family ⟨false⟩).codec.Takes .family "Person" m (v m) := by
    simp only [repeated, Written.Object.contents, List.map_cons, List.map_nil, List.forall_mem_cons]
    refine ⟨?_, ?_, ?_, by simp⟩
    · exact .known .none hage ⟨.int, 1, .int, by decide⟩
    · exact .unknown .none (by decide +kernel) .null (by decide)
    · exact .known .none hage ⟨.int, 1, .int, by decide⟩
  have hread := (lastWins_of_call ⟨false⟩ hcall href hwarnings).record repeated v hmembers
  have htext : String.ofList repeated.text = "\x7b\"age\":1,\"zip\":null,\"age\":8\x7d" := by
    decide +kernel
  rw [← htext, hread]
  decide +kernel

/-- A call site for a type that nobody declares causes no warning, and yet it reads no object. -/
theorem lastWins_ghost : ⟨.deserialize, .object "Ghost" true⟩ ∈ absent.calls ∧
    (ofSchema absent ⟨false⟩).warnings = [] ∧
    (ofSchema absent ⟨false⟩).codec.deserialize (.object "Ghost" true) "\x7b\x7d" =
      .error (.noEntry (.object "Ghost" true) .deserialize) ∧
    ¬ (ofSchema absent ⟨false⟩).codec.LastWins absent "Ghost" true := by
  have hrefused : (ofSchema absent ⟨false⟩).codec.deserialize (.object "Ghost" true) "\x7b\x7d" =
      .error (.noEntry (.object "Ghost" true) .deserialize) := by decide +kernel
  refine ⟨by simp [absent, Schema.call, Schema.empty], by decide +kernel, hrefused, fun h => ?_⟩
  have hread := h.record ⟨.none, [], .none, []⟩ (fun _ => .null) fun _ hm =>
    absurd hm List.not_mem_nil
  have htext : String.ofList (Written.Object.mk .none [] .none []).text = "\x7b\x7d" := by
    decide +kernel
  rw [htext, hrefused] at hread
  cases hread

end Generation

end ShapeCodec
