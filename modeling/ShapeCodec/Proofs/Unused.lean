import ShapeCodec.Proofs.Generation
/-! Declared types that no routine is for. On request each of them gets an inert routine in both
directions, behind the routines of the call sites, and an entry with these two, behind the other
entries. Nothing else comes after the call sites. -/
namespace ShapeCodec

/-- Inert, because the type was never asked for. -/
def Routine.isUnused (r : Routine) : Bool :=
  match r.body with
  | .stub .unused => true
  | _ => false

namespace Generation

open Emitter

/-- The inert routine of a type at a position. -/
def unusedRoutine (s : Schema) (name : String) (direction : Direction) (i : Nat) : Routine :=
  ⟨⟨i⟩, .object name true, direction, fieldCount? s (.object name true), .stub .unused⟩

/-- The inert routines of types, which take the positions from `next` on. -/
def unusedRoutines (s : Schema) : Nat → List Declaration → List Routine
  | _, [] => []
  | next, decl :: rest =>
    unusedRoutine s decl.name .serialize next :: unusedRoutine s decl.name .deserialize (next + 1) ::
      unusedRoutines s (next + 2) rest

/-- The entries with these routines. -/
def unusedEntries : Nat → List Declaration → Entries
  | _, [] => []
  | next, decl :: rest =>
    (.object decl.name true, ⟨some ⟨next⟩, some ⟨next + 1⟩, .null⟩) :: unusedEntries (next + 2) rest

/-- The types that no routine is for. -/
def unmet (p : Progress) (types : List Declaration) : List Declaration :=
  types.filter fun decl => !p.emitter.hasObject decl.name

variable {s : Schema} {p : Progress} {decl : Declaration} {types : List Declaration} {next : Nat}
  {r : Routine}

section Table

theorem length_unusedRoutines (s : Schema) (next : Nat) (types : List Declaration) :
    (unusedRoutines s next types).length = 2 * types.length := by
  induction types generalizing next with
  | nil => rfl
  | cons decl rest ih =>
    simp only [unusedRoutines, List.length_cons, ih]
    omega

theorem mem_unusedRoutines (h : r ∈ unusedRoutines s next types) :
    ∃ decl ∈ types, ∃ direction i, r = unusedRoutine s decl.name direction i := by
  induction types generalizing next with
  | nil => simp [unusedRoutines] at h
  | cons decl rest ih =>
    simp only [unusedRoutines, List.mem_cons] at h
    rcases h with h | h | h
    · exact ⟨decl, List.mem_cons_self, _, _, h⟩
    · exact ⟨decl, List.mem_cons_self, _, _, h⟩
    · obtain ⟨other, hother, hr⟩ := ih h
      exact ⟨other, List.mem_cons_of_mem decl hother, hr⟩

theorem isUnused_of_mem (h : r ∈ unusedRoutines s next types) : r.isUnused = true := by
  obtain ⟨_, -, _, _, rfl⟩ := mem_unusedRoutines h
  rfl

/-- Each of the types has its routines there. -/
theorem exists_mem_unusedRoutines (s : Schema) (next : Nat) (h : decl ∈ types) :
    ∃ r ∈ unusedRoutines s next types, r.shape = .object decl.name true := by
  induction types generalizing next with
  | nil => simp at h
  | cons head rest ih =>
    rcases List.mem_cons.1 h with rfl | h
    · exact ⟨_, List.mem_cons_self, rfl⟩
    · obtain ⟨r, hr, hshape⟩ := ih (next + 2) h
      exact ⟨r, List.mem_cons_of_mem _ (List.mem_cons_of_mem _ hr), hshape⟩

/-- The entries lead to the inert routines of their types. -/
theorem routine_of_unusedEntries (s : Schema) {shape : Shape} {entry : Entry}
    {direction : Direction} {id : RoutineId}
    (hentry : (unusedEntries next types).get? shape = some entry)
    (hid : entry.get direction = some id) :
    ∃ i name, shape = .object name true ∧ id.index = next + i ∧
      (unusedRoutines s next types)[i]? = some (unusedRoutine s name direction (next + i)) := by
  induction types generalizing next with
  | nil => simp [unusedEntries, ShapeMap.get?] at hentry
  | cons decl rest ih =>
    by_cases hshape : Shape.object decl.name true = shape
    · obtain rfl : ⟨some ⟨next⟩, some ⟨next + 1⟩, .null⟩ = entry := by
        simpa [unusedEntries, ShapeMap.get?, hshape] using hentry
      cases direction with
      | serialize =>
        cases hid
        exact ⟨0, decl.name, hshape.symm, rfl, rfl⟩
      | deserialize =>
        cases hid
        exact ⟨1, decl.name, hshape.symm, rfl, rfl⟩
    · have hrest : (unusedEntries (next + 2) rest).get? shape = some entry := by
        simpa [unusedEntries, ShapeMap.get?, hshape] using hentry
      obtain ⟨i, name, hname, hindex, hr⟩ := ih hrest
      refine ⟨i + 2, name, hname, by omega, ?_⟩
      rw [Nat.add_comm i 2, ← Nat.add_assoc]
      simpa [unusedRoutines, Nat.add_comm 2 i] using hr

end Table

section Adding

theorem coversObject_iff (cache : RoutineCache) (name : String) :
    cache.coversObject name = true ↔ ∃ nullable, .object name nullable ∈ cache.entries.shapes := by
  simp only [RoutineCache.coversObject, List.any_eq_true, ShapeMap.shapes, List.mem_map]
  constructor
  · rintro ⟨⟨shape, entry⟩, hentry, h⟩
    cases shape with
    | object other nullable =>
      obtain rfl : other = name := by simpa using h
      exact ⟨nullable, _, hentry, rfl⟩
    | _ => simp at h
  · rintro ⟨nullable, ⟨shape, entry⟩, hentry, rfl⟩
    exact ⟨_, hentry, by simp⟩

/-- A new routine for an object covers the object, and no other. -/
theorem hasObject_reserve {e : Emitter} {name other : String} (nullable : Bool)
    (direction : Direction) (cause : StubCause) (hne : other ≠ name) :
    (e.reserve (.object name nullable) direction cause).hasObject other = e.hasObject other := by
  apply Bool.eq_iff_iff.2
  simp only [hasObject, coversObject_iff, reserve, RoutineCache.insert, ShapeMap.mem_shapes_update,
    Shape.object.injEq, hne, false_and, false_or]

theorem find?_of_unmet (h : p.emitter.WellFormed) (hunmet : p.emitter.hasObject decl.name = false)
    (nullable : Bool) (direction : Direction) :
    p.emitter.find? (.object decl.name nullable) direction = none := by
  cases hfind : p.emitter.find? (.object decl.name nullable) direction with
  | none => rfl
  | some id =>
    have hmem := List.mem_of_getElem? ((h.cached _ direction id).1 hfind)
    simp [h.hasObject hmem] at hunmet

theorem stub_of_find?_eq_none {e : Emitter} {shape : Shape} {direction : Direction}
    (h : e.find? shape direction = none) (cause : StubCause) :
    Emitter.stub shape direction cause e = (e.nextId, e.reserve shape direction cause) := by
  rw [Emitter.stub, h]

/-- A type without a routine gets two at the end, and an entry at the end. -/
theorem addUnused_of_unmet (h : Entered p) (hunmet : p.emitter.hasObject decl.name = false) :
    p.addUnused decl = ⟨(p.emitter.reserve (.object decl.name true) .serialize .unused).reserve
        (.object decl.name true) .deserialize .unused,
      p.entries ++ unusedEntries p.emitter.routines.length [decl]⟩ := by
  have hwrite := find?_of_unmet h.wellFormed hunmet true .serialize
  have hread : (p.emitter.reserve (.object decl.name true) .serialize .unused).find?
      (.object decl.name true) .deserialize = none := by
    rw [find?, reserve, RoutineCache.get?_insert, if_neg (by simp)]
    exact find?_of_unmet h.wellFormed hunmet true .deserialize
  have hnew : .object decl.name true ∉ p.entries.shapes := fun hmem => by
    obtain ⟨direction, hkey⟩ := h.routine _ hmem
    simp [h.wellFormed.hasObject hkey] at hunmet
  simp only [Progress.addUnused, hunmet, Bool.false_eq_true, if_false,
    stub_of_find?_eq_none hwrite, stub_of_find?_eq_none hread, ShapeMap.insert,
    ShapeMap.update_of_notMem hnew]
  simp [unusedEntries, nextId, reserve]

theorem unusedEntries_cons (next : Nat) (decl : Declaration) (rest : List Declaration) :
    unusedEntries next (decl :: rest) =
      unusedEntries next [decl] ++ unusedEntries (next + 2) rest := rfl

/-- The types that no routine is for get theirs, in order; the others are passed over. -/
theorem foldl_addUnused (h : Entered p) (hschema : p.emitter.schema = s)
    (htypes : ∀ decl ∈ types, decl ∈ s.types) (hnodup : (types.map Declaration.name).Nodup) :
    (types.foldl Progress.addUnused p).emitter.routines = p.emitter.routines ++
        unusedRoutines s p.emitter.routines.length (unmet p types) ∧
      (types.foldl Progress.addUnused p).entries = p.entries ++
        unusedEntries p.emitter.routines.length (unmet p types) ∧
      (types.foldl Progress.addUnused p).emitter.diagnostics = p.emitter.diagnostics := by
  induction types generalizing p with
  | nil => simp [unmet, unusedRoutines, unusedEntries]
  | cons decl rest ih =>
    obtain ⟨hfresh, hnodup⟩ := List.nodup_cons.1 hnodup
    have htail : ∀ d ∈ rest, d ∈ s.types := fun d hd => htypes d (List.mem_cons_of_mem decl hd)
    rw [List.foldl_cons]
    cases hmet : p.emitter.hasObject decl.name with
    | true =>
      have hsame : p.addUnused decl = p := by simp [Progress.addUnused, hmet]
      have hrest : unmet p (decl :: rest) = unmet p rest := by simp [unmet, hmet]
      rw [hsame, hrest]
      exact ih h hschema htail hnodup
    | false =>
      have hadd := addUnused_of_unmet h hmet
      obtain ⟨hroutines, hentries, hdiagnostics⟩ :=
        ih (addUnused_extends h (htypes decl List.mem_cons_self)).1 (by rw [hadd]; exact hschema)
          htail hnodup
      -- the names of the other types differ, so that they have met as many routines as before
      have hrest : unmet (p.addUnused decl) rest = unmet p rest := by
        apply List.filter_congr
        intro d hd
        have hne : d.name ≠ decl.name := fun heq => hfresh (heq ▸ List.mem_map_of_mem hd)
        rw [hadd, hasObject_reserve _ _ _ hne, hasObject_reserve _ _ _ hne]
      have hfirst : unmet p (decl :: rest) = decl :: unmet p rest := by simp [unmet, hmet]
      rw [hroutines, hentries, hdiagnostics, hrest, hfirst, hadd]
      refine ⟨?_, ?_, rfl⟩
      · simp [reserve, unusedRoutines, unusedRoutine, nextId, hschema]
      · rw [unusedEntries_cons _ decl (unmet p rest), ← List.append_assoc]
        simp [reserve]

end Adding

/-- The types that get inert routines in a generation. -/
def unused (s : Schema) (options : Options) : List Declaration :=
  if options.stubUnused then unmet (called s) s.types else []

/-- A generation consists of what the call sites leave behind and of the inert routines. -/
theorem ofSchema_eq (s : Schema) (options : Options) : ofSchema s options =
    ⟨⟨(called s).emitter.routines ++
          unusedRoutines s (called s).emitter.routines.length (unused s options),
        (called s).entries ++
          unusedEntries (called s).emitter.routines.length (unused s options)⟩,
      (called s).emitter.diagnostics⟩ := by
  have hsound := sound_called s
  by_cases h : options.stubUnused = true
  · obtain ⟨hroutines, hentries, hdiagnostics⟩ :=
      foldl_addUnused hsound.toEntered hsound.schema (fun _ hd => hd) s.nodup
    simp only [ofSchema, unused, h, if_true]
    exact congrArg₂ Generation.mk (congrArg₂ Codec.mk hroutines hentries) hdiagnostics
  · simp [ofSchema, called, unused, h, unusedRoutines, unusedEntries]

/-- The entry of an unused type leads to an inert routine for its shape and direction. -/
theorem routine?_of_unusedEntries {s : Schema} {options : Options} {shape : Shape}
    {direction : Direction} {entry : Entry} {id : RoutineId}
    (hentry : (unusedEntries (called s).emitter.routines.length (unused s options)).get? shape =
      some entry)
    (hid : entry.get direction = some id) :
    ∃ r, (ofSchema s options).codec.routine? id = some r ∧ r.body = .stub .unused ∧
      r.shape = shape ∧ r.direction = direction := by
  obtain ⟨i, name, rfl, hindex, hr⟩ := routine_of_unusedEntries s hentry hid
  let inert := unusedRoutine s name direction ((called s).emitter.routines.length + i)
  refine ⟨inert, ?_, rfl, rfl, rfl⟩
  rw [ofSchema_eq, Codec.routine?, hindex, List.getElem?_append_right (Nat.le_add_right _ i),
    Nat.add_sub_cancel_left]
  exact hr

/-- An entry point leads to a routine of the call sites for its shape and direction, or else to an
inert one for these. -/
theorem at_or_unused_of_entryPoint {s : Schema} {options : Options} {shape : Shape}
    {direction : Direction} {entry : Entry} {id : RoutineId}
    (h : (ofSchema s options).codec.entryPoint shape direction = .ok (entry, id)) :
    Table.At (called s).emitter.routines id shape direction ∨
      ∃ r, (ofSchema s options).codec.machine.routine? id = some r ∧ r.body = .stub .unused ∧
        r.shape = shape ∧ r.direction = direction := by
  obtain ⟨hfound, hid⟩ := entryPoint_eq_ok_iff.1 h
  simp only [ofSchema_eq, Codec.entry?, ShapeMap.get?_append] at hfound
  cases hentry : (called s).entries.get? shape with
  | some own =>
    rw [hentry, Option.some_or, Option.some.injEq] at hfound
    subst hfound
    exact .inl (((sound_called s).entries shape own hentry).2.2 direction id hid)
  | none =>
    rw [hentry, Option.none_or] at hfound
    exact .inr (routine?_of_unusedEntries hfound hid)

theorem of_entryPoint {s : Schema} {options : Options} {shape : Shape} {direction : Direction}
    {entry : Entry} {id : RoutineId}
    (h : (ofSchema s options).codec.entryPoint shape direction = .ok (entry, id)) :
    Table.At (called s).emitter.routines id shape direction ∨
      ∃ r, (ofSchema s options).codec.machine.routine? id = some r ∧ r.body = .stub .unused := by
  rcases at_or_unused_of_entryPoint h with hat | ⟨r, hr, hbody, -⟩
  · exact .inl hat
  · exact .inr ⟨r, hr, hbody⟩

end Generation

end ShapeCodec
