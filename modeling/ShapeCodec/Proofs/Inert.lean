import ShapeCodec.Proofs.Naming
import ShapeCodec.Proofs.Omission
/-! Stubs on the reading side. A stub skips a value of any kind and answers null, whatever its
shape. Blank text and a property that is left out are read without the stub, as the default of the
shape. So blank, null and omitted agree exactly where that default is null. -/
namespace ShapeCodec

open Generation.Progress (blankValue)

/-- The default is null where the shape admits null and where there is no default at all. -/
theorem blankValue_eq_null_iff {s : Schema} {shape : Shape} : blankValue s shape = .null ↔
    shape.isNullable = true ∨ ∃ e, s.defaultValue shape = .error e := by
  cases hnullable : shape.isNullable with
  | true => simp [Direct.blankValue_of_nullable hnullable]
  | false =>
    cases hdefault : s.defaultValue shape with
    | error e => simp [blankValue, hdefault]
    | ok v =>
      have hvalue : v ≠ .null := by
        rcases Shape.of_not_nullable hnullable with rfl | ⟨element, rfl⟩ | ⟨name, rfl⟩
        · cases Schema.defaultWithin_int.symm.trans hdefault
          simp
        · cases Schema.defaultWithin_list.symm.trans hdefault
          simp
        · obtain ⟨decl, fields, -, rfl, -⟩ := Schema.defaultValue_object hdefault
          simp
      simp [blankValue, hdefault, hvalue]

theorem Schema.nodup_properties (s : Schema) (name : String) :
    ((s.properties name).map Property.name).Nodup := by
  cases hdecl : s.type? name with
  | none => simp [Schema.properties, hdecl]
  | some decl =>
    rw [Schema.properties_of_type? hdecl]
    exact (s.valid decl (List.mem_of_find?_eq_some hdecl)).nodup

/-- Where an object can be read, its properties have defaults. -/
theorem Schema.defaultValue_of_slot {s : Schema} {name : String} {nullable : Bool} {slot : Nat}
    {p : Property} (hfault : s.routineFault? .deserialize (.object name nullable) = none)
    (hslot : (s.properties name)[slot]? = some p) :
    s.defaultValue p.effectiveShape = .ok (blankValue s p.effectiveShape) := by
  rw [routineFault?_reading (layoutFault?_eq_none hfault)] at hfault
  cases hdefault : s.defaultValue (.object name false) with
  | error e =>
    rw [hdefault] at hfault
    cases hfault
  | ok v =>
    obtain ⟨decl, fields, hdecl, -, hfields⟩ := defaultValue_object hdefault
    rw [properties_of_type? hdecl] at hslot
    obtain ⟨field, -, hfield⟩ := getElem?_of_forall₂ hfields hslot
    rw [blankValue, hfield]

namespace Direct

variable {s : Schema} {shape : Shape} {e : ShapeError} {v : Value} {text : List Char}

theorem spans_readInert_iff :
    Spans Machine.readInert text v ↔ v = .null ∧ Spans Scan.skipValue text () := by
  constructor
  · intro h
    have hskip (rest : List Char) (hrest : Json.Number.Stops rest) (offset : Nat) :=
      readInert_eq_ok_iff.1 ((h rest hrest).run offset)
    exact ⟨(hskip [] nofun 0).1, fun rest hrest => ⟨fun offset => (hskip rest hrest offset).2⟩⟩
  · rintro ⟨rfl, h⟩ rest hrest
    exact ⟨fun offset => readInert_eq_ok_iff.2 ⟨rfl, (h rest hrest).run offset⟩⟩

/-- A child without a reader of its own is skipped. -/
theorem readChild_of_fault (h : s.routineFault? .deserialize shape = some e) (levels : Nat) :
    readChild (Direct.read s levels) shape = Machine.readInert := by
  have hskip : (do Scan.skipWhitespace; Machine.readInert : Reading Value) = Machine.readInert := by
    funext c
    have hrun := lift_of_ok (Consumes.skipWhitespace_apply c)
    rw [Running.bind_of_ok hrun, readInert_eq_map, Running.map_apply, Running.map_apply]
    simp only [liftM, monadLift, MonadLift.monadLift, skipValue_skipWhile]
  cases shape with
  | int | string => cases h
  | _ => exact (congrArg (Bind.bind _) (funext fun _ => read_of_fault h levels)).trans hskip

end Direct

namespace Written

variable {read : Shape → Reading Value} {properties : List Property} {slots : List Value}
  {updates : List Update} {slot : Nat} {value : Value} {p : Property}

/-- A slot that is filled with nothing but one value holds that value in the end. -/
theorem getElem?_foldl_put_of_forall (hsame : ∀ other, some (slot, other) ∈ updates → other = value)
    (hslot : slots[slot]? = some value ∨ slot < slots.length ∧ some (slot, value) ∈ updates) :
    (updates.foldl put slots)[slot]? = some value := by
  induction updates generalizing slots with
  | nil => simpa using hslot
  | cons update updates ih =>
    have hrest : ∀ other, some (slot, other) ∈ updates → other = value :=
      fun other hmem => hsame other (List.mem_cons_of_mem update hmem)
    rw [List.foldl_cons]
    apply ih hrest
    cases update with
    | none => simpa [put] using hslot
    | some entry =>
      obtain ⟨filled, other⟩ := entry
      by_cases hfilled : filled = slot
      · subst hfilled
        obtain rfl := hsame other List.mem_cons_self
        have hlt : filled < slots.length := by
          rcases hslot with hheld | ⟨hlt, -⟩
          · exact (List.getElem?_eq_some_iff.1 hheld).1
          · exact hlt
        exact .inl (by simp [put, hlt])
      · rw [put, List.getElem?_set_ne hfilled, List.length_set]
        refine hslot.imp_right fun hlater => ⟨hlater.1, ?_⟩
        refine (List.mem_cons.1 hlater.2).resolve_left ?_
        rintro ⟨⟩
        exact hfilled rfl

theorem find?_eq_of_getElem? (hnodup : (properties.map Property.name).Nodup)
    (hslot : properties[slot]? = some p) : find? properties p.name = some (p, slot) := by
  obtain ⟨hlt, hp⟩ := List.getElem?_eq_some_iff.1 hslot
  have hsplit : properties = properties.take slot ++ p :: properties.drop (slot + 1) := by
    rw [← hp, List.getElem_cons_drop, List.take_append_drop]
  have hlength : (properties.take slot).length = slot := by
    rw [List.length_take]
    omega
  have hfind := Direct.find?_zipIdx (hsplit ▸ hnodup)
  rw [← hsplit, hlength] at hfind
  exact hfind

/-- A member of its name fills the slot of a property. -/
theorem exists_mem_of_reads {contents : List (String × List Char)}
    (hnodup : (properties.map Property.name).Nodup) (hslot : properties[slot]? = some p)
    (hname : p.name ∈ contents.map Prod.fst)
    (h : List.Forall₂ (Reads read properties) contents updates) :
    ∃ value, some (slot, value) ∈ updates := by
  obtain ⟨⟨member, text⟩, hcontent, heq⟩ := List.mem_map.1 hname
  obtain rfl : member = p.name := heq
  obtain ⟨i, hi⟩ := List.mem_iff_getElem?.1 hcontent
  obtain ⟨update, hupdate, hread⟩ := getElem?_of_forall₂ h hi
  have hfind := find?_eq_of_getElem? hnodup hslot
  cases hread with
  | known hknown =>
    cases hknown.symm.trans hfind
    exact ⟨_, List.mem_of_getElem? hupdate⟩
  | unknown hunknown => cases hunknown.symm.trans hfind

/-- What fills the slot of a property has been read for it. -/
theorem exists_spans_of_mem {contents : List (String × List Char)}
    (hslot : properties[slot]? = some p)
    (h : List.Forall₂ (Reads read properties) contents updates)
    (hmem : some (slot, value) ∈ updates) :
    ∃ text, Spans (Direct.readChild read p.effectiveShape) text value := by
  obtain ⟨i, hi⟩ := List.mem_iff_getElem?.1 hmem
  obtain ⟨content, -, hread⟩ := getElem?_of_forall₂ h.flip hi
  cases hread with
  | known hknown hspans =>
    cases (Direct.mem_of_find?_zipIdx hknown).1.symm.trans hslot
    exact ⟨_, hspans⟩

/-- Of a property without a reader nothing is kept but whether it is there. -/
theorem getElem?_record {s : Schema} {levels : Nat} {name : String} {o : Object} {e : ShapeError}
    (hslot : (s.properties name)[slot]? = some p)
    (hfault : s.routineFault? .deserialize p.effectiveShape = some e)
    (hreads : List.Forall₂ (Reads (Direct.read s levels) (s.properties name)) o.contents updates) :
    (updates.foldl put (Direct.defaults s (s.properties name)))[slot]? =
      some (if p.name ∈ o.names then .null else blankValue s p.effectiveShape) := by
  have hdefault : (Direct.defaults s (s.properties name))[slot]? =
      some (blankValue s p.effectiveShape) := by
    simp [Direct.defaults, hslot]
  have hnull : ∀ value, some (slot, value) ∈ updates → value = .null := by
    intro value hmem
    obtain ⟨text, hspans⟩ := exists_spans_of_mem hslot hreads hmem
    rw [Direct.readChild_of_fault hfault] at hspans
    exact (Direct.spans_readInert_iff.1 hspans).1
  split
  · next hname =>
    obtain ⟨value, hmem⟩ := exists_mem_of_reads (s.nodup_properties name) hslot hname hreads
    obtain rfl := hnull value hmem
    exact getElem?_foldl_put_of_forall hnull
      (.inr ⟨(List.getElem?_eq_some_iff.1 hdefault).1, hmem⟩)
  · next hname => rw [getElem?_foldl_put (notMem_of_reads hslot hname hreads), hdefault]

end Written

/-- The read routine for the shape is a stub. -/
def Codec.Inert (c : Codec) (shape : Shape) : Prop :=
  ∃ r ∈ c.routines, r.shape = shape ∧ r.direction = .deserialize ∧ r.isStub = true

/-- An entry whose read routine is a stub. Blank text is read as what the entry has for it, and
whatever else can be skipped is read as null; the two agree if the shape admits null, or if it has
no default, and otherwise they differ. -/
structure Codec.SkipsEntry (c : Codec) (s : Schema) (shape : Shape) (entry : Entry) : Prop where
  blank : ∀ text, isBlankText text = true → c.deserialize shape text = .ok entry.blank
  skipped : ∀ text v, isBlankText text = false → (c.deserialize shape text = .ok v ↔
    v = .null ∧ ∃ after, Scan.skipValue (.ofText text) = .ok () after)
  agrees : (∀ text v, c.deserialize shape text = .ok v → v = entry.blank) ↔
    shape.isNullable = true ∨ ∃ e, s.defaultValue shape = .error e

/-- A property whose read routine is a stub, in a slot of an object that has a reader. It is null if
it is there, and the default otherwise; the two agree if the property admits null, and otherwise
they differ. -/
structure Codec.SkipsField (c : Codec) (s : Schema) (id : RoutineId) (type : String) (slot : Nat)
    (p : Property) : Prop where
  default : s.defaultValue p.effectiveShape = .ok (blankValue s p.effectiveShape)
  agrees : blankValue s p.effectiveShape = .null ↔ p.effectiveShape.isNullable = true
  skipped : ∀ levels text v,
    Spans (Direct.readChild (Direct.read s levels) p.effectiveShape) text v ↔
      v = .null ∧ Spans Scan.skipValue text ()
  written : ∀ levels start v after, c.machine.readWithin (levels + 1) id start = .ok v after →
    (start.rest.dropWhile Text.isSpace).head? = some '\x7b' →
    ∃ o : Written.Object, start.rest = o.text ∧
      o.ReadBy (Direct.read s levels) (s.properties type)
  filled : ∀ levels (o : Written.Object), o.ReadBy (Direct.read s levels) (s.properties type) →
    ∃ fields, Consumes (c.machine.readWithin (levels + 1) id) (o.lead ++ o.body) o.rest
        (.record type fields) ∧
      fields[slot]? = some (if p.name ∈ o.names then .null else blankValue s p.effectiveShape)

namespace Generation

open Emitter

variable {s : Schema} {options : Options} {shape : Shape} {entry : Entry} {id : RoutineId}
  {r : Routine} {slot : Nat} {p : Property} {name : String} {nullable : Bool}

section Entry

theorem blank_of_unusedEntries {next : Nat} {types : List Declaration}
    (h : (unusedEntries next types).get? shape = some entry) :
    entry.blank = blankValue s shape := by
  induction types generalizing next with
  | nil => simp [unusedEntries, ShapeMap.get?] at h
  | cons decl rest ih =>
    by_cases hshape : Shape.object decl.name true = shape
    · obtain rfl : ⟨some ⟨next⟩, some ⟨next + 1⟩, .null⟩ = entry := by
        simpa [unusedEntries, ShapeMap.get?, hshape] using h
      rw [← hshape, Direct.blankValue_of_nullable rfl]
    · have hrest : (unusedEntries (next + 2) rest).get? shape = some entry := by
        simpa [unusedEntries, ShapeMap.get?, hshape] using h
      exact ih hrest

/-- What an entry has for blank text is the default of its shape. -/
theorem blank_of_entryPoint {direction : Direction}
    (h : (ofSchema s options).codec.entryPoint shape direction = .ok (entry, id)) :
    entry.blank = blankValue s shape := by
  obtain ⟨hfound, -⟩ := entryPoint_eq_ok_iff.1 h
  simp only [ofSchema_eq, Codec.entry?, ShapeMap.get?_append] at hfound
  cases hentry : (called s).entries.get? shape with
  | some own =>
    rw [hentry, Option.some_or, Option.some.injEq] at hfound
    rw [← hfound, ((sound_called s).entries shape own hentry).2.1]
  | none =>
    rw [hentry, Option.none_or] at hfound
    exact blank_of_unusedEntries hfound

theorem readWithin_of_stub {m : Machine} (hr : m.routine? id = some r) (hstub : r.isStub = true)
    (levels : Nat) : m.readWithin levels id = Machine.readInert := by
  unfold Machine.readWithin
  cases hbody : r.body with
  | stub cause => simp only [hr, hbody]
  | _ => simp [Routine.isStub, hbody] at hstub

theorem skipsEntry_of_stub
    (h : (ofSchema s options).codec.entryPoint shape .deserialize = .ok (entry, id))
    (hr : (ofSchema s options).codec.routine? id = some r) (hstub : r.isStub = true) :
    (ofSchema s options).codec.SkipsEntry s shape entry := by
  have hrun : (ofSchema s options).codec.machine.read id = Machine.readInert :=
    readWithin_of_stub hr hstub maxDepth
  have hblank (text : String) (htext : Codec.isBlankText text = true) :
      (ofSchema s options).codec.deserialize shape text = .ok entry.blank := by
    simp [Codec.deserialize, h, htext, bind, Except.bind, pure, Except.pure]
  have hskipped (text : String) (v : Value) (htext : Codec.isBlankText text = false) :
      (ofSchema s options).codec.deserialize shape text = .ok v ↔
        v = .null ∧ ∃ after, Scan.skipValue (.ofText text) = .ok () after := by
    have hread : (ofSchema s options).codec.deserialize shape text =
        (ofSchema s options).codec.runRead id text := by
      simp [Codec.deserialize, h, htext, bind, Except.bind]
    rw [hread, Codec.runRead, hrun, ← exists_and_left]
    simp only [← Direct.readInert_eq_ok_iff]
    cases Machine.readInert (.ofText text) <;> simp
  refine ⟨hblank, hskipped, ?_⟩
  rw [← blankValue_eq_null_iff, ← blank_of_entryPoint h]
  constructor
  · intro hagrees
    have hskip : Scan.skipValue (.ofText "null") = .ok () ⟨4, []⟩ := by decide
    exact (hagrees "null" .null ((hskipped "null" .null (by decide)).2 ⟨rfl, _, hskip⟩)).symm
  · intro hnull text v hread
    cases htext : Codec.isBlankText text with
    | true =>
      rw [hblank text htext] at hread
      cases hread
      rfl
    | false => rw [((hskipped text v htext).1 hread).1, hnull]

end Entry

section Field

/-- What is no stub stands among the routines of the call sites. -/
theorem at_of_not_stub (hr : (ofSchema s options).codec.routine? id = some r)
    (hcode : r.isStub = false) : Table.At (called s).emitter.routines id r.shape r.direction := by
  refine Table.at_iff.2 ⟨r, ?_, rfl, rfl⟩
  rw [ofSchema_eq, Codec.routine?] at hr
  by_cases hlt : id.index < (called s).emitter.routines.length
  · rwa [List.getElem?_append_left hlt] at hr
  · rw [List.getElem?_append_right (Nat.le_of_not_lt hlt)] at hr
    obtain ⟨_, -, _, _, rfl⟩ := mem_unusedRoutines (List.mem_of_getElem? hr)
    cases hcode

theorem readWithin_of_code (hr : (ofSchema s options).codec.routine? id = some r)
    (hcode : r.isStub = false) (hdirection : r.direction = .deserialize) (levels : Nat) :
    (ofSchema s options).codec.machine.readWithin levels id = Direct.read s levels r.shape := by
  have hat := at_of_not_stub hr hcode
  rw [hdirection] at hat
  rw [ofSchema_eq]
  exact Direct.readWithin_eq (sound_called s).faithful _ levels id _ hat

/-- A type has a routine if another one calls it, so it is not an unused one. -/
theorem shape_ne_of_unused {inert : Routine} {next : Nat} {source : ValueSource} {child : Shape}
    (hr : r ∈ (ofSchema s options).codec.routines) (hcode : r.isStub = false)
    (hchild : ChildAt s r.shape source child)
    (hinert : inert ∈ unusedRoutines s next (unused s options)) : inert.shape ≠ child := by
  obtain ⟨decl, hunused, direction, i, rfl⟩ := mem_unusedRoutines hinert
  rintro rfl
  obtain ⟨hcalled, hfault⟩ := called_of_not_stub hr hcode
  obtain ⟨next, -, hat⟩ := ((sound_called s).faithful r hcalled).calls hfault hchild rfl
  have hobject := (sound_called s).wellFormed.hasObject (List.mem_of_getElem? hat)
  unfold unused at hunused
  split at hunused
  · simp [unmet, hobject] at hunused
  · cases hunused

/-- A stub for the shape of a property is one because the shape has a fault. -/
theorem fault_of_inert (hr : r ∈ (ofSchema s options).codec.routines) (hcode : r.isStub = false)
    (hchild : ChildAt s r.shape (.field slot) p.effectiveShape)
    (hinert : (ofSchema s options).codec.Inert p.effectiveShape) :
    ∃ e, s.routineFault? .deserialize p.effectiveShape = some e := by
  obtain ⟨inert, hmem, hshape, hturn, hstub⟩ := hinert
  rw [ofSchema_eq, List.mem_append] at hmem
  rcases hmem with hmem | hmem
  · cases hfault : s.routineFault? .deserialize p.effectiveShape with
    | some e => exact ⟨e, rfl⟩
    | none =>
      have hhas : inert.HasCode :=
        ((sound_called s).faithful inert hmem).hasCode (by rw [hshape, hturn, hfault])
      cases hhas.isStub_eq_false.symm.trans hstub
  · exact absurd hshape (shape_ne_of_unused hr hcode hchild hmem)

theorem skipsField_of_inert (hr : (ofSchema s options).codec.routine? id = some r)
    (hcode : r.isStub = false) (hdirection : r.direction = .deserialize)
    (hshape : r.shape = .object name nullable) (hslot : (s.properties name)[slot]? = some p)
    (hinert : (ofSchema s options).codec.Inert p.effectiveShape) :
    (ofSchema s options).codec.SkipsField s id name slot p := by
  have hmem := List.mem_of_getElem? hr
  have hchild : ChildAt s r.shape (.field slot) p.effectiveShape := hshape ▸ .field hslot
  obtain ⟨e, hstub⟩ := fault_of_inert hmem hcode hchild hinert
  have hfault : s.routineFault? .deserialize (.object name nullable) = none := by
    have hnone := (called_of_not_stub hmem hcode).2
    rwa [hdirection, hshape] at hnone
  have hdefault := Schema.defaultValue_of_slot hfault hslot
  have hrun (levels : Nat) : (ofSchema s options).codec.machine.readWithin levels id =
      Direct.read s levels (.object name nullable) :=
    hshape ▸ readWithin_of_code hr hcode hdirection levels
  refine ⟨hdefault, ?_, ?_, ?_, ?_⟩
  · simp [blankValue_eq_null_iff, hdefault]
  · intro levels text v
    rw [Direct.readChild_of_fault hstub, Direct.spans_readInert_iff]
  · intro levels start v after hread hopen
    rw [hrun] at hread
    obtain ⟨o, updates, htext, hreads, -⟩ := Written.object_of_read hfault hread hopen
    exact ⟨o, htext, updates, hreads⟩
  · rintro levels o ⟨updates, hreads⟩
    rw [hrun]
    exact ⟨_, Written.read_object hfault hreads, Written.getElem?_record hslot hstub hreads⟩

end Field

/-- What stubs do on the reading side: at an entry, and for a property of an object. -/
theorem stubs_skip (s : Schema) (options : Options) :
    (∀ shape entry id r,
      (ofSchema s options).codec.entryPoint shape .deserialize = .ok (entry, id) →
      (ofSchema s options).codec.routine? id = some r → r.isStub = true →
      (ofSchema s options).codec.SkipsEntry s shape entry) ∧
    ∀ id r name nullable slot p, (ofSchema s options).codec.routine? id = some r →
      r.isStub = false → r.direction = .deserialize → r.shape = .object name nullable →
      (s.properties name)[slot]? = some p → (ofSchema s options).codec.Inert p.effectiveShape →
      (ofSchema s options).codec.SkipsField s id name slot p :=
  ⟨fun _ _ _ _ => skipsEntry_of_stub, fun _ _ _ _ _ _ => skipsField_of_inert⟩

/-- A type without a reader, which another one has a property of that is never null. -/
def gallery : Schema where
  types := [⟨"Picture", [⟨"size", .unsupported "float", true, true⟩]⟩,
    ⟨"Gallery", [⟨"cover", .object "Picture" true, false, true⟩]⟩]
  calls := [⟨.deserialize, .object "Picture" false⟩, ⟨.deserialize, .object "Gallery" false⟩]
  valid := by decide +kernel
  nodup := by decide +kernel

/-- Blank text and an omitted property read as a record, and the stub reads null in its place. -/
theorem stubs_skip_gallery :
    (ofSchema gallery ⟨false⟩).codec.stubCount = 1 ∧
    (ofSchema gallery ⟨false⟩).codec.deserialize (.object "Picture" false) "" =
      .ok (.record "Picture" [.null]) ∧
    (ofSchema gallery ⟨false⟩).codec.deserialize (.object "Picture" false) "\x7b\x7d" = .ok .null ∧
    (ofSchema gallery ⟨false⟩).codec.deserialize (.object "Gallery" false) "\x7b\x7d" =
      .ok (.record "Gallery" [.record "Picture" [.null]]) ∧
    (ofSchema gallery ⟨false⟩).codec.deserialize (.object "Gallery" false)
        "\x7b\"cover\": null\x7d" = .ok (.record "Gallery" [.null]) := by
  decide +kernel

end Generation

end ShapeCodec
