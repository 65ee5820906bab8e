import ShapeCodec.Proofs.EntryPoint
import ShapeCodec.Proofs.Size
/-! The dispatch table of a codec. The shapes of the call sites come first, each where it is first
asked for, and then the types that no call site leads to. A shape has an entry point in exactly the
directions it is asked for, or in both if it has inert routines, and nothing but a missing entry
point is ever reported as one. Inert routines are only appended. -/
namespace ShapeCodec

namespace ShapeMap

variable {α : Type} {m : ShapeMap α} {shape : Shape}

theorem shapes_append (m more : ShapeMap α) :
    ShapeMap.shapes (m ++ more) = m.shapes ++ more.shapes :=
  List.map_append

theorem shapes_cons (key : Shape) (a : α) (rest : ShapeMap α) :
    ShapeMap.shapes ((key, a) :: rest) = key :: rest.shapes := rfl

theorem shapes_update (shape : Shape) (start : α) (change : α → α) (m : ShapeMap α) :
    (m.update shape start change).shapes =
      if shape ∈ m.shapes then m.shapes else m.shapes ++ [shape] := by
  induction m with
  | nil => rfl
  | cons entry rest ih =>
    obtain ⟨key, a⟩ := entry
    by_cases hkey : key = shape
    · rw [update, if_pos hkey, shapes_cons, shapes_cons, if_pos (by simp [hkey])]
    · have hne : shape ≠ key := Ne.symm hkey
      rw [update, if_neg hkey, shapes_cons, shapes_cons, ih]
      by_cases hmem : shape ∈ ShapeMap.shapes rest
      · rw [if_pos hmem, if_pos (List.mem_cons_of_mem key hmem)]
      · rw [if_neg hmem, if_neg (by simp [hne, hmem]), List.cons_append]

/-- Where no shape comes twice, looking it up finds what it has. -/
theorem get?_of_mem (hnodup : m.shapes.Nodup) {a : α} (h : (shape, a) ∈ m) :
    m.get? shape = some a := by
  induction m with
  | nil => simp at h
  | cons entry rest ih =>
    obtain ⟨key, b⟩ := entry
    rw [shapes_cons, List.nodup_cons] at hnodup
    rcases List.mem_cons.1 h with heq | hrest
    · cases heq
      simp [get?]
    · have hne : key ≠ shape := by
        rintro rfl
        exact hnodup.1 (List.mem_map_of_mem hrest)
      simpa [get?, hne] using ih hnodup.2 hrest

theorem exists_get?_of_mem (h : shape ∈ m.shapes) : ∃ a, m.get? shape = some a := by
  obtain ⟨entry, hentry, rfl⟩ := List.mem_map.1 h
  cases hfind : m.get? entry.1 with
  | some a => exact ⟨a, rfl⟩
  | none =>
    simp only [get?, Option.map_eq_none_iff, List.find?_eq_none] at hfind
    simpa using hfind entry hentry

end ShapeMap

namespace Emitter

variable {e e' : Emitter} {direction : Direction} {shape : Shape}

/-- No shape is in the cache without a routine. -/
def Backed (e : Emitter) : Prop :=
  ∀ shape ∈ e.shapes, ∃ direction id, e.find? shape direction = some id

theorem Backed.reserve (h : e.Backed) (shape : Shape) (direction : Direction) (cause : StubCause) :
    (e.reserve shape direction cause).Backed := by
  intro other hother
  simp only [find?, Emitter.reserve, RoutineCache.get?_insert]
  by_cases hshape : shape = other
  · exact ⟨direction, e.nextId, if_pos ⟨hshape, rfl⟩⟩
  · have hold : other ∈ e.shapes :=
      (ShapeMap.mem_shapes_update.1 hother).resolve_left (Ne.symm hshape)
    obtain ⟨turn, id, hid⟩ := h other hold
    exact ⟨turn, id, by rw [if_neg (fun heq => hshape heq.1)]; exact hid⟩

/-- Only a reservation puts a shape into the cache, and it puts its routine there, too. -/
theorem Completes.backed {task : Task} {answer : Answer}
    (h : Completes direction task e answer e') (he : e.Backed) : e'.Backed := by
  induction h with
  | @built shape _ _ _ _ _ ih =>
    rw [settle_eq]
    exact ih (he.reserve shape direction .pending)
  | member _ _ ihOperand ihRest => exact ihRest (ihOperand he)
  | call _ _ _ ih | lastMember _ ih | object _ _ ih | list _ ih | scalar _ _ ih => exact ih he
  | _ => exact he

end Emitter

namespace Generation

open Emitter

variable {s : Schema} {p q : Progress} {options : Options} {shape : Shape} {direction : Direction}

section Called

theorem Serves.backed {calls : List CallSite} (h : Serves s calls p q) (hp : p.emitter.Backed) :
    q.emitter.Backed := by
  induction h with
  | done => exact hp
  | refused _ _ ih => exact ih hp
  | emitted _ hroutine _ ih => exact ih (hroutine.backed hp)

/-- The cache covers the objects that have a routine, and no others. -/
theorem hasObject_called_iff (s : Schema) (name : String) :
    (called s).emitter.hasObject name = true ↔
      ∃ r ∈ (called s).emitter.routines, r.isFor name = true := by
  have hwell := (sound_called s).wellFormed
  constructor
  · intro h
    obtain ⟨nullable, hshape⟩ := (coversObject_iff _ _).1 h
    have hbacked : (called s).emitter.Backed := by
      apply ((serves_iff s _).2 rfl).backed
      simp [Backed, Emitter.shapes, Emitter.ofSchema, RoutineCache.empty, ShapeMap.shapes]
    obtain ⟨direction, id, hid⟩ := hbacked _ hshape
    obtain ⟨r, hr, hfor, -⟩ := Table.at_iff.1 ((hwell.cached _ _ _).1 hid)
    exact ⟨r, List.mem_of_getElem? hr, (r.isFor_iff name).2 ⟨nullable, hfor⟩⟩
  · rintro ⟨r, hr, hfor⟩
    obtain ⟨nullable, hshape⟩ := (r.isFor_iff name).1 hfor
    have hkey : (.object name nullable, r.direction) ∈
        (called s).emitter.routines.map Routine.key :=
      List.mem_map.2 ⟨r, hr, by rw [Routine.key, hshape]⟩
    exact hwell.hasObject hkey

/-- The shapes of the call sites that can be referenced, in the order in which they come first. -/
def calledShapes (s : Schema) : List Shape :=
  ((s.calls.filter fun call => s.checkReferences call.shape = .ok ()).map
    CallSite.shape).eraseDups

theorem eraseDups_concat (shapes : List Shape) (shape : Shape) :
    (shapes ++ [shape]).eraseDups =
      if shape ∈ shapes then shapes.eraseDups else shapes.eraseDups ++ [shape] := by
  rw [List.eraseDups_append]
  by_cases h : shape ∈ shapes <;> simp [List.removeAll, List.eraseDups_cons, h]

theorem nodup_eraseDups (shapes : List Shape) : shapes.eraseDups.Nodup := by
  induction shapes using List.reverseRecOn with
  | nil => exact List.nodup_nil
  | append_singleton shapes shape ih =>
    rw [eraseDups_concat]
    by_cases h : shape ∈ shapes
    · rwa [if_pos h]
    · rw [if_neg h, ← List.concat_eq_append, List.nodup_concat]
      exact ⟨by rwa [List.mem_eraseDups], ih⟩

theorem shapes_called (s : Schema) : (called s).entries.shapes = calledShapes s := by
  unfold called calledShapes
  induction s.calls using List.reverseRecOn with
  | nil => rfl
  | append_singleton calls call ih =>
    rw [List.foldl_concat, List.filter_append, List.map_append]
    cases href : s.checkReferences call.shape with
    | error e => simpa [addCall_of_error href, href] using ih
    | ok =>
      rw [addCall_of_ok href, Entries.assign, ShapeMap.shapes_update, ih]
      simp only [href, decide_true, List.filter_cons_of_pos, List.filter_nil, List.map_cons,
        List.map_nil, eraseDups_concat, List.mem_eraseDups]

theorem called_addCall_iff {call : CallSite} : Called (p.addCall s call) shape direction ↔
    Called p shape direction ∨
      ⟨direction, shape⟩ = call ∧ s.checkReferences shape = .ok () := by
  constructor
  · intro h
    cases href : s.checkReferences call.shape with
    | error e =>
      rw [addCall_of_error href] at h
      exact .inl h
    | ok =>
      rw [addCall_of_ok href] at h
      obtain ⟨entry, id, hentry, hid⟩ := h
      simp only [Entries.get?_assign] at hentry
      split at hentry
      · next hshape =>
        subst hshape
        cases hentry
        rw [Entry.get_set] at hid
        split at hid
        · next hdirection =>
          subst hdirection
          exact .inr ⟨rfl, href⟩
        · cases hold : p.entries.get? call.shape with
          | none => cases direction <;> simp [hold, Entry.get] at hid
          | some old => exact .inl ⟨old, id, hold, by simpa [hold] using hid⟩
      · exact .inl ⟨entry, id, hentry, hid⟩
  · rintro (h | ⟨rfl, href⟩)
    · exact h.addCall call
    · exact called_addCall href

/-- After the call sites there is an entry point in exactly the directions that were asked for. -/
theorem called_called_iff (s : Schema) (shape : Shape) (direction : Direction) :
    Called (called s) shape direction ↔
      ⟨direction, shape⟩ ∈ s.calls ∧ s.checkReferences shape = .ok () := by
  unfold called
  induction s.calls using List.reverseRecOn with
  | nil => simp [Called, ShapeMap.get?]
  | append_singleton calls call ih =>
    rw [List.foldl_concat, called_addCall_iff, ih]
    simp only [List.mem_append, List.mem_singleton, or_and_right]

end Called

section Unused

/-- The nullable shapes of the declared types, in order, for which the call sites have left no
routine, nullable or not. -/
def unusedShapes (s : Schema) (options : Options) : List Shape :=
  if options.stubUnused then
    (s.types.filter fun decl =>
      !(ofSchema s ⟨false⟩).codec.routines.any (·.isFor decl.name)).map fun decl =>
        .object decl.name true
  else []

theorem ofSchema_bare (s : Schema) : ofSchema s ⟨false⟩ =
    ⟨⟨(called s).emitter.routines, (called s).entries⟩, (called s).emitter.diagnostics⟩ := rfl

theorem hasObject_called_eq (s : Schema) (name : String) :
    (called s).emitter.hasObject name =
      (ofSchema s ⟨false⟩).codec.routines.any (·.isFor name) := by
  rw [Bool.eq_iff_iff, hasObject_called_iff, List.any_eq_true, ofSchema_bare]

theorem unusedShapes_eq (s : Schema) (options : Options) : unusedShapes s options =
    (unused s options).map fun decl => .object decl.name true := by
  simp only [unusedShapes, unused, unmet, hasObject_called_eq]
  split <;> rfl

theorem shapes_unusedEntries (next : Nat) (types : List Declaration) :
    (unusedEntries next types).shapes = types.map fun decl => .object decl.name true := by
  induction types generalizing next with
  | nil => rfl
  | cons decl rest ih => exact congrArg (_ :: ·) (ih (next + 2))

theorem exists_get_unusedEntries {next : Nat} {types : List Declaration} {key : Shape × Entry}
    (h : key ∈ unusedEntries next types) (direction : Direction) :
    ∃ id, key.2.get direction = some id := by
  induction types generalizing next with
  | nil => simp [unusedEntries] at h
  | cons decl rest ih =>
    rcases List.mem_cons.1 h with rfl | h
    · cases direction <;> exact ⟨_, rfl⟩
    · exact ih h

/-- A shape that a call site has entered is not for an unused type. -/
theorem notMem_unusedShapes (h : shape ∈ (called s).entries.shapes) (options : Options) :
    shape ∉ unusedShapes s options := by
  rw [unusedShapes_eq]
  intro hunused
  obtain ⟨decl, hdecl, rfl⟩ := List.mem_map.1 hunused
  obtain ⟨direction, hkey⟩ := (sound_called s).routine _ h
  have hmet := (sound_called s).wellFormed.hasObject hkey
  simp only [unused] at hdecl
  split at hdecl
  · simp [unmet, hmet] at hdecl
  · simp at hdecl

theorem shapes_ofSchema (s : Schema) (options : Options) :
    (ofSchema s options).codec.entries.shapes = calledShapes s ++ unusedShapes s options := by
  rw [ofSchema_eq, ShapeMap.shapes_append, shapes_unusedEntries, shapes_called, unusedShapes_eq]

theorem nodup_unusedShapes (s : Schema) (options : Options) :
    (unusedShapes s options).Nodup := by
  have hnames : ((unused s options).map Declaration.name).Nodup := by
    rw [unused]
    split
    · exact s.nodup.sublist (List.filter_sublist.map _)
    · exact List.nodup_nil
  have hmap : (unused s options).map (fun decl => Shape.object decl.name true) =
      ((unused s options).map Declaration.name).map fun name => .object name true := by
    rw [List.map_map]
    rfl
  rw [unusedShapes_eq, hmap]
  exact hnames.map fun name name' h => (Shape.object.inj h).1

theorem nodup_shapes_ofSchema (s : Schema) (options : Options) :
    (ofSchema s options).codec.entries.shapes.Nodup := by
  rw [shapes_ofSchema, List.nodup_append]
  refine ⟨nodup_eraseDups _, nodup_unusedShapes s options, ?_⟩
  rintro shape hcalled _ hunused rfl
  rw [← shapes_called] at hcalled
  exact notMem_unusedShapes hcalled options hunused

end Unused

/-- The shape is asked for in the direction by a call site that has an entry, or it has inert
routines. -/
def Enters (s : Schema) (options : Options) (shape : Shape) (direction : Direction) : Prop :=
  ⟨direction, shape⟩ ∈ s.calls ∧ s.checkReferences shape = .ok () ∨ shape ∈ unusedShapes s options

theorem entry?_ofSchema (s : Schema) (options : Options) (shape : Shape) :
    (ofSchema s options).codec.entry? shape = ((called s).entries.get? shape).or
      ((unusedEntries (called s).emitter.routines.length (unused s options)).get? shape) := by
  rw [ofSchema_eq, Codec.entry?, ShapeMap.get?_append]

theorem mem_unusedShapes_iff (next : Nat) : shape ∈ unusedShapes s options ↔
    ∃ entry, (unusedEntries next (unused s options)).get? shape = some entry := by
  rw [unusedShapes_eq, ← shapes_unusedEntries next]
  constructor
  · exact ShapeMap.exists_get?_of_mem
  · rintro ⟨entry, hentry⟩
    exact ShapeMap.mem_shapes_of_get? hentry

/-- The entry of an unused type leads somewhere in both directions. -/
theorem entryPoint_of_unused (h : shape ∈ unusedShapes s options) (direction : Direction) :
    ∃ entry id, (ofSchema s options).codec.entryPoint shape direction = .ok (entry, id) := by
  obtain ⟨entry, hentry⟩ := (mem_unusedShapes_iff (called s).emitter.routines.length).1 h
  obtain ⟨key, hkey, rfl⟩ := Option.map_eq_some_iff.1 hentry
  obtain ⟨id, hid⟩ := exists_get_unusedEntries (List.mem_of_find?_eq_some hkey) direction
  have hnone : (called s).entries.get? shape = none := by
    cases hcalled : (called s).entries.get? shape with
    | none => rfl
    | some entry =>
      exact absurd h (notMem_unusedShapes (ShapeMap.mem_shapes_of_get? hcalled) options)
  refine ⟨key.2, id, entryPoint_eq_ok_iff.2 ⟨?_, hid⟩⟩
  rw [entry?_ofSchema, hnone, Option.none_or, hentry]

/-- Entry points are for the shapes that enter, and for no others. -/
theorem entryPoint_iff : (∃ entry id,
    (ofSchema s options).codec.entryPoint shape direction = .ok (entry, id)) ↔
      Enters s options shape direction := by
  rw [Enters, ← called_called_iff]
  constructor
  · rintro ⟨entry, id, h⟩
    obtain ⟨hentry, hid⟩ := entryPoint_eq_ok_iff.1 h
    rw [entry?_ofSchema, Option.or_eq_some_iff] at hentry
    rcases hentry with hentry | ⟨-, hentry⟩
    · exact .inl ⟨entry, id, hentry, hid⟩
    · exact .inr ((mem_unusedShapes_iff _).2 ⟨entry, hentry⟩)
  · rintro (⟨entry, id, hentry, hid⟩ | hunused)
    · refine ⟨entry, id, entryPoint_eq_ok_iff.2 ⟨?_, hid⟩⟩
      rw [entry?_ofSchema, hentry, Option.some_or]
    · exact entryPoint_of_unused hunused direction

theorem entryPoint_eq_error (h : ¬ Enters s options shape direction) :
    (ofSchema s options).codec.entryPoint shape direction = .error (.noEntry shape direction) := by
  cases hpoint : (ofSchema s options).codec.entryPoint shape direction with
  | ok point => exact absurd (entryPoint_iff.1 ⟨point.1, point.2, hpoint⟩) h
  | error e =>
    simp only [Codec.entryPoint] at hpoint
    split at hpoint
    · exact hpoint.symm
    · split at hpoint
      · exact hpoint.symm
      · cases hpoint

theorem serialize_eq_noEntry_iff {v : Value} {other : Shape} {turn : Direction} :
    (ofSchema s options).codec.serialize shape v = .error (.noEntry other turn) ↔
      ¬ Enters s options shape .serialize ∧ other = shape ∧ turn = .serialize := by
  constructor
  · intro h
    by_cases henters : Enters s options shape .serialize
    · obtain ⟨entry, id, hpoint⟩ := entryPoint_iff.2 henters
      cases refusal_of_serialize hpoint h
    · simp only [Codec.serialize, entryPoint_eq_error henters, bind, Except.bind] at h
      cases h
      exact ⟨henters, rfl, rfl⟩
  · rintro ⟨henters, rfl, rfl⟩
    simp only [Codec.serialize, entryPoint_eq_error henters, bind, Except.bind]

theorem deserialize_eq_noEntry_iff {text : String} {other : Shape} {turn : Direction} :
    (ofSchema s options).codec.deserialize shape text = .error (.noEntry other turn) ↔
      ¬ Enters s options shape .deserialize ∧ other = shape ∧ turn = .deserialize := by
  constructor
  · intro h
    by_cases henters : Enters s options shape .deserialize
    · obtain ⟨entry, id, hpoint⟩ := entryPoint_iff.2 henters
      obtain ⟨_, _, herror, -⟩ := parse_of_deserialize hpoint h
      cases herror
    · simp only [Codec.deserialize, entryPoint_eq_error henters, bind, Except.bind] at h
      cases h
      exact ⟨henters, rfl, rfl⟩
  · rintro ⟨henters, rfl, rfl⟩
    simp only [Codec.deserialize, entryPoint_eq_error henters, bind, Except.bind]

/-- A codec leads every shape to routines of its own: those that were asked for, or inert ones. -/
structure Dispatches (s : Schema) (options : Options) (c : Codec) : Prop where
  shapes : c.entries.shapes = calledShapes s ++ unusedShapes s options
  nodup : c.entries.shapes.Nodup
  point : ∀ shape entry, (shape, entry) ∈ c.entries → ∀ direction,
    (entry.get direction).isSome = true ↔ Enters s options shape direction
  routine : ∀ shape entry, (shape, entry) ∈ c.entries → ∀ direction id,
    entry.get direction = some id →
      ∃ r, c.routine? id = some r ∧ r.shape = shape ∧ r.direction = direction
  serialize : ∀ shape v other turn, c.serialize shape v = .error (.noEntry other turn) ↔
    ¬ Enters s options shape .serialize ∧ other = shape ∧ turn = .serialize
  deserialize : ∀ shape text other turn, c.deserialize shape text = .error (.noEntry other turn) ↔
    ¬ Enters s options shape .deserialize ∧ other = shape ∧ turn = .deserialize

theorem dispatches_ofSchema (s : Schema) (options : Options) :
    Dispatches s options (ofSchema s options).codec where
  shapes := shapes_ofSchema s options
  nodup := nodup_shapes_ofSchema s options
  point := by
    intro shape entry hmem direction
    have hentry : (ofSchema s options).codec.entry? shape = some entry :=
      ShapeMap.get?_of_mem (nodup_shapes_ofSchema s options) hmem
    rw [← entryPoint_iff, Option.isSome_iff_exists]
    constructor
    · rintro ⟨id, hid⟩
      exact ⟨entry, id, entryPoint_eq_ok_iff.2 ⟨hentry, hid⟩⟩
    · rintro ⟨found, id, hpoint⟩
      obtain ⟨hfound, hid⟩ := entryPoint_eq_ok_iff.1 hpoint
      cases hentry.symm.trans hfound
      exact ⟨id, hid⟩
  routine := by
    intro shape entry hmem direction id hid
    have hentry : (ofSchema s options).codec.entry? shape = some entry :=
      ShapeMap.get?_of_mem (nodup_shapes_ofSchema s options) hmem
    rcases at_or_unused_of_entryPoint (entryPoint_eq_ok_iff.2 ⟨hentry, hid⟩) with hat | ⟨r, hr, -, hkey⟩
    · rw [ofSchema_eq]
      exact Table.at_iff.1 (hat.append _)
    · exact ⟨r, hr, hkey⟩
  serialize := fun _ _ _ _ => serialize_eq_noEntry_iff
  deserialize := fun _ _ _ _ => deserialize_eq_noEntry_iff

/-- What a generation with inert routines adds to one without: inert routines and entries that lead
to them, behind everything else, so that no declared type is left without a routine. -/
structure Appends (s : Schema) (bare full : Generation) : Prop where
  routines : ∃ more, full.codec.routines = bare.codec.routines ++ more ∧
    ∀ r ∈ more, r.body = .stub .unused
  entries : ∃ more, full.codec.entries = bare.codec.entries ++ more ∧
    ∀ key ∈ more, ∀ direction, ∃ id r, key.2.get direction = some id ∧
      full.codec.routine? id = some r ∧ r.body = .stub .unused
  diagnostics : full.diagnostics = bare.diagnostics
  covers : ∀ decl ∈ s.types, ∃ r ∈ full.codec.routines, r.isFor decl.name = true

theorem appends_ofSchema (s : Schema) : Appends s (ofSchema s ⟨false⟩) (ofSchema s ⟨true⟩) where
  routines := by
    rw [ofSchema_bare, ofSchema_eq]
    refine ⟨_, rfl, fun r hr => ?_⟩
    obtain ⟨_, -, _, _, rfl⟩ := mem_unusedRoutines hr
    rfl
  entries := by
    refine ⟨unusedEntries (called s).emitter.routines.length (unused s ⟨true⟩), ?_, ?_⟩
    · rw [ofSchema_bare, ofSchema_eq]
    intro key hkey direction
    obtain ⟨id, hid⟩ := exists_get_unusedEntries hkey direction
    have hnodup : (unusedEntries (called s).emitter.routines.length
        (unused s ⟨true⟩)).shapes.Nodup := by
      rw [shapes_unusedEntries, ← unusedShapes_eq]
      exact nodup_unusedShapes s ⟨true⟩
    obtain ⟨r, hr, hbody, -⟩ :=
      routine?_of_unusedEntries (ShapeMap.get?_of_mem hnodup hkey) hid
    exact ⟨id, r, hid, hr, hbody⟩
  diagnostics := by rw [ofSchema_bare, ofSchema_eq]
  covers := by
    intro decl hdecl
    rw [ofSchema_eq]
    cases hmet : (called s).emitter.hasObject decl.name with
    | true =>
      obtain ⟨r, hr, hfor⟩ := (hasObject_called_iff s decl.name).1 hmet
      exact ⟨r, List.mem_append_left _ hr, hfor⟩
    | false =>
      have hunused : decl ∈ unused s ⟨true⟩ := List.mem_filter.2 ⟨hdecl, by simp [hmet]⟩
      obtain ⟨r, hr, hshape⟩ :=
        exists_mem_unusedRoutines s (called s).emitter.routines.length hunused
      exact ⟨r, List.mem_append_right _ hr, (r.isFor_iff decl.name).2 ⟨true, hshape⟩⟩

/-- Every codec leads each shape to its own routines, and to none where it was not asked for them;
inert routines are appended to it without a change to what is there. -/
theorem dispatch_exact (s : Schema) (options : Options) :
    Dispatches s options (ofSchema s options).codec ∧
      Appends s (ofSchema s ⟨false⟩) (ofSchema s ⟨true⟩) :=
  ⟨dispatches_ofSchema s options, appends_ofSchema s⟩

end Generation

end ShapeCodec
