import ShapeCodec.Proofs.Emission
/-! What a generation leaves behind: a faithful table with an entry for every call site whose shape
can be referenced, and behind it nothing but inert routines for types that were not called. -/
namespace ShapeCodec

open Emitter

theorem Entry.get_set (entry : Entry) (id : RoutineId) (direction other : Direction) :
    (entry.set id direction).get other =
      if direction = other then some id else entry.get other := by
  cases direction <;> cases other <;> rfl

theorem Entry.blank_set (entry : Entry) (id : RoutineId) (direction : Direction) :
    (entry.set id direction).blank = entry.blank := by
  cases direction <;> rfl

theorem Entries.get?_assign (shape other : Shape) (direction : Direction) (id : RoutineId)
    (blank : Value) (entries : Entries) :
    (entries.assign shape direction id blank).get? other =
      if shape = other then
        some (((entries.get? shape).getD ⟨none, none, blank⟩).set id direction)
      else entries.get? other :=
  ShapeMap.get?_update ..

namespace Generation

/-- Shapes with entries have routines. -/
structure Entered (p : Progress) : Prop where
  wellFormed : p.emitter.WellFormed
  routine : ∀ shape ∈ p.entries.shapes, ∃ direction,
    (shape, direction) ∈ p.emitter.routines.map Routine.key

/-- The state of a generation that has done some call sites. -/
structure Sound (s : Schema) (p : Progress) : Prop extends Entered p where
  schema : p.emitter.schema = s
  faithful : ∀ r ∈ p.emitter.routines, r.Faithful s p.emitter.routines
  warnings : (p.emitter.diagnostics.filter (·.severity = .warning)).Perm
    (p.emitter.routines.filterMap Routine.warning?)
  entries : ∀ shape entry, p.entries.get? shape = some entry →
    s.checkReferences shape = .ok () ∧ entry.blank = Progress.blankValue s shape ∧
      ∀ direction id, entry.get direction = some id →
        Table.At p.emitter.routines id shape direction

/-- The shape has an entry point in a direction. -/
def Called (p : Progress) (shape : Shape) (direction : Direction) : Prop :=
  ∃ entry id, p.entries.get? shape = some entry ∧ entry.get direction = some id

variable {s : Schema} {p : Progress}

theorem sound_start (s : Schema) : Sound s ⟨.ofSchema s, []⟩ := by
  refine ⟨⟨wellFormed_ofSchema s, by simp [ShapeMap.shapes]⟩, rfl, by simp [Emitter.ofSchema],
    by simp [Emitter.ofSchema], ?_⟩
  simp [ShapeMap.get?]

theorem severity_of_warning? {r : Routine} {d : Diagnostic} (h : r.warning? = some d) :
    d.severity = .warning := by
  unfold Routine.warning? at h
  split at h
  · cases h
    rfl
  · simp at h

/-- Growth of the table keeps everything but the entries, which have to be looked at. -/
theorem Sound.grows {root : Shape} {direction : Direction} {e : Emitter} {entries : Entries}
    (h : Sound s p) (hwell : e.WellFormed) (hgrows : Grows root direction p.emitter e)
    (hroutine : ∀ shape ∈ entries.shapes, ∃ direction,
      (shape, direction) ∈ e.routines.map Routine.key)
    (hentries : ∀ shape entry, entries.get? shape = some entry →
      s.checkReferences shape = .ok () ∧ entry.blank = Progress.blankValue s shape ∧
        ∀ direction id, entry.get direction = some id →
          Table.At e.routines id shape direction) : Sound s ⟨e, entries⟩ := by
  obtain ⟨new, said, hemits⟩ := hgrows
  refine ⟨⟨hwell, hroutine⟩, hemits.schema.trans h.schema, ?_, ?_, hentries⟩
  · intro r hr
    simp only [hemits.routines, List.mem_append] at hr
    rcases hr with hr | hr
    · simpa only [hemits.routines] using (h.faithful r hr).append new
    · exact h.schema ▸ hemits.faithful r hr
  · have hsaid : said.filter (·.severity = .warning) = said := by
      refine List.filter_eq_self.2 fun d hd => ?_
      obtain ⟨r, -, hr⟩ := List.mem_filterMap.1 (hemits.warnings.mem_iff.1 hd)
      simp [severity_of_warning? hr]
    simp only [hemits.diagnostics, hemits.routines, List.filter_append, List.filterMap_append,
      hsaid]
    exact h.warnings.append hemits.warnings

theorem addCall_of_error {call : CallSite} {err : ShapeError}
    (href : s.checkReferences call.shape = .error err) :
    p.addCall s call =
      ⟨p.emitter.report ⟨.error, .callSite call.direction call.shape, err⟩, p.entries⟩ := by
  rw [Progress.addCall, href]

theorem addCall_of_ok {call : CallSite} (href : s.checkReferences call.shape = .ok ()) :
    p.addCall s call =
      ⟨(emit call.shape call.direction p.emitter).2,
        p.entries.assign call.shape call.direction (emit call.shape call.direction p.emitter).1
          (Progress.blankValue s call.shape)⟩ := by
  simp only [Progress.addCall, href]
  rfl

theorem Sound.addCall (h : Sound s p) (call : CallSite) : Sound s (p.addCall s call) := by
  cases href : s.checkReferences call.shape with
  | error err =>
    rw [addCall_of_error href]
    refine ⟨⟨h.wellFormed.report _, h.routine⟩, h.schema, h.faithful, ?_, h.entries⟩
    simpa [report] using h.warnings
  | ok =>
    rw [addCall_of_ok href]
    obtain ⟨hwell, hgrows, hat⟩ := emit_answers h.wellFormed call.shape call.direction
    refine h.grows hwell hgrows (fun shape hshape => ?_) fun shape entry hentry => ?_
    · rcases ShapeMap.mem_shapes_update.1 hshape with rfl | hshape
      · exact ⟨call.direction, List.mem_of_getElem? hat⟩
      · exact (h.routine shape hshape).imp fun _ hmem => hgrows.keys_subset hmem
    rw [Entries.get?_assign] at hentry
    split at hentry
    · next hshape =>
      subst hshape
      cases hentry
      refine ⟨href, ?_, fun direction id hid => ?_⟩
      · rw [Entry.blank_set]
        cases hold : p.entries.get? call.shape with
        | none => rfl
        | some old => exact (h.entries _ _ hold).2.1
      · rw [Entry.get_set] at hid
        split at hid
        · next hdirection =>
          cases hid
          exact hdirection ▸ hat
        · cases hold : p.entries.get? call.shape with
          | none => cases direction <;> simp [hold, Entry.get] at hid
          | some old => exact hgrows.at ((h.entries _ _ hold).2.2 _ _ (by simpa [hold] using hid))
    · obtain ⟨href, hblank, hat⟩ := h.entries shape entry hentry
      exact ⟨href, hblank, fun direction id hid => hgrows.at (hat direction id hid)⟩

theorem called_addCall {call : CallSite} (href : s.checkReferences call.shape = .ok ()) :
    Called (p.addCall s call) call.shape call.direction := by
  rw [addCall_of_ok href]
  exact ⟨_, _, by rw [Entries.get?_assign, if_pos rfl], by rw [Entry.get_set, if_pos rfl]⟩

theorem Called.addCall {shape : Shape} {direction : Direction} (h : Called p shape direction)
    (call : CallSite) : Called (p.addCall s call) shape direction := by
  obtain ⟨entry, id, hentry, hid⟩ := h
  cases href : s.checkReferences call.shape with
  | error err => exact addCall_of_error href ▸ ⟨entry, id, hentry, hid⟩
  | ok =>
    rw [addCall_of_ok href]
    simp only [Called, Entries.get?_assign]
    split
    · next hshape =>
      subst hshape
      simp only [hentry, Option.getD_some, Option.some.injEq, exists_and_left, exists_eq_left',
        Entry.get_set]
      split
      · exact ⟨_, rfl⟩
      · exact ⟨id, hid⟩
    · exact ⟨entry, id, hentry, hid⟩

/-- All call sites done: the state is sound, and those whose shape can be referenced are entered. -/
theorem sound_foldl (calls : List CallSite) (h : Sound s p) :
    Sound s (calls.foldl (Progress.addCall s) p) ∧
      (∀ shape direction, Called p shape direction →
        Called (calls.foldl (Progress.addCall s) p) shape direction) ∧
      ∀ call ∈ calls, s.checkReferences call.shape = .ok () →
        Called (calls.foldl (Progress.addCall s) p) call.shape call.direction := by
  induction calls generalizing p with
  | nil => exact ⟨h, fun _ _ hcalled => hcalled, by simp⟩
  | cons call rest ih =>
    obtain ⟨hsound, hkept, hrest⟩ := ih (h.addCall call)
    refine ⟨hsound, fun shape direction hcalled => hkept _ _ (hcalled.addCall call), ?_⟩
    intro other hother href
    rcases List.mem_cons.1 hother with rfl | hother
    · exact hkept _ _ (called_addCall href)
    · exact hrest other hother href

/-- `q` comes from `p` by appending routines, and entries for shapes that can be referenced. -/
def Extends (s : Schema) (p q : Progress) : Prop :=
  ∃ routines entries, q.emitter.routines = p.emitter.routines ++ routines ∧
    q.entries = p.entries ++ entries ∧ q.emitter.diagnostics = p.emitter.diagnostics ∧
    ∀ entry ∈ entries, s.checkReferences entry.1 = .ok ()

theorem extends_refl (s : Schema) (p : Progress) : Extends s p p :=
  ⟨[], [], by simp, by simp, rfl, by simp⟩

theorem Extends.trans {q r : Progress} (h : Extends s p q) (h' : Extends s q r) :
    Extends s p r := by
  obtain ⟨routines, entries, hroutines, hentries, hdiagnostics, href⟩ := h
  obtain ⟨routines', entries', hroutines', hentries', hdiagnostics', href'⟩ := h'
  refine ⟨routines ++ routines', entries ++ entries', ?_, ?_, hdiagnostics'.trans hdiagnostics, ?_⟩
  · rw [hroutines', hroutines, List.append_assoc]
  · rw [hentries', hentries, List.append_assoc]
  · intro entry hentry
    rcases List.mem_append.1 hentry with hentry | hentry
    · exact href entry hentry
    · exact href' entry hentry

theorem addUnused_extends {decl : Declaration} (h : Entered p) (hdecl : decl ∈ s.types) :
    Entered (p.addUnused decl) ∧ Extends s p (p.addUnused decl) := by
  unfold Progress.addUnused
  split
  · exact ⟨h, extends_refl s p⟩
  · next hcovered =>
    obtain ⟨hwell, hwrite, hwriteSaid, -⟩ :=
      stub_answers h.wellFormed (.object decl.name true) .serialize .unused
    obtain ⟨hwell', hread, hreadSaid, hat⟩ :=
      stub_answers hwell (.object decl.name true) .deserialize .unused
    have hroutines := hwrite.trans hread
    have hnew : .object decl.name true ∉ p.entries.shapes := fun hmem =>
      let ⟨_, hkey⟩ := h.routine _ hmem
      hcovered (h.wellFormed.hasObject hkey)
    refine ⟨⟨hwell', fun shape hshape => ?_⟩, _, _, hroutines.choose_spec.symm,
      ShapeMap.update_of_notMem hnew _ _, hreadSaid.trans hwriteSaid, ?_⟩
    · rcases ShapeMap.mem_shapes_update.1 hshape with rfl | hshape
      · exact ⟨.deserialize, List.mem_of_getElem? hat⟩
      · exact (h.routine shape hshape).imp fun _ hmem => (hroutines.map Routine.key).subset hmem
    · have hdeclared : s.isDeclared decl.name = true :=
        (Schema.isDeclared_iff s decl.name).2 (List.mem_map_of_mem hdecl)
      intro entry hentry
      obtain rfl := List.mem_singleton.1 hentry
      simp [Schema.checkReferences, Shape.unsupportedText?, Shape.rootName?, hdeclared]

theorem extends_foldl (types : List Declaration) (h : Entered p)
    (htypes : ∀ decl ∈ types, decl ∈ s.types) :
    Extends s p (types.foldl Progress.addUnused p) := by
  induction types generalizing p with
  | nil => exact extends_refl s p
  | cons decl rest ih =>
    obtain ⟨hentered, hextends⟩ := addUnused_extends h (htypes decl List.mem_cons_self)
    exact hextends.trans (ih hentered fun d hd => htypes d (List.mem_cons_of_mem decl hd))

/-- The state after all call sites. -/
def called (s : Schema) : Progress :=
  s.calls.foldl (Progress.addCall s) ⟨.ofSchema s, []⟩

theorem sound_called (s : Schema) : Sound s (called s) :=
  (sound_foldl s.calls (sound_start s)).1

/-- What every request of a call site keeps true of the routines is true of them in the end. -/
theorem routines_called {P : Routine → Prop}
    (hemit : ∀ call ∈ s.calls, s.checkReferences call.shape = .ok () →
      ∀ e : Emitter, e.WellFormed → e.schema = s → (∀ r ∈ e.routines, P r) →
        ∀ r ∈ (emit call.shape call.direction e).2.routines, P r) :
    ∀ r ∈ (called s).emitter.routines, P r := by
  have hfold : ∀ (calls : List CallSite) (p : Progress), (∀ call ∈ calls, call ∈ s.calls) →
      Sound s p → (∀ r ∈ p.emitter.routines, P r) →
        ∀ r ∈ (calls.foldl (Progress.addCall s) p).emitter.routines, P r := by
    intro calls
    induction calls with
    | nil => exact fun p _ _ hp => hp
    | cons call rest ih =>
      intro p hcalls hsound hp
      have hmem := hcalls call List.mem_cons_self
      refine ih (p.addCall s call) (fun other h => hcalls other (List.mem_cons_of_mem call h))
        (hsound.addCall call) ?_
      cases href : s.checkReferences call.shape with
      | error err =>
        rw [addCall_of_error href]
        exact hp
      | ok =>
        rw [addCall_of_ok href]
        exact hemit call hmem href p.emitter hsound.wellFormed hsound.schema hp
  exact hfold s.calls _ (fun _ h => h) (sound_start s) (by simp [Emitter.ofSchema])

theorem ofSchema_extends (s : Schema) (options : Options) : ∃ done, Extends s (called s) done ∧
    ofSchema s options =
      ⟨⟨done.emitter.routines, done.entries⟩, done.emitter.diagnostics⟩ := by
  have hsound := sound_called s
  by_cases h : options.stubUnused = true
  · exact ⟨s.types.foldl Progress.addUnused (called s),
      extends_foldl s.types hsound.toEntered fun _ hd => hd, by simp [ofSchema, called, h]⟩
  · exact ⟨called s, extends_refl s _, by simp [ofSchema, called, h]⟩

theorem entryPoint_eq_ok_iff {c : Codec} {shape : Shape} {direction : Direction} {entry : Entry}
    {id : RoutineId} : c.entryPoint shape direction = .ok (entry, id) ↔
      c.entry? shape = some entry ∧ entry.get direction = some id := by
  constructor
  · intro h
    simp only [Codec.entryPoint] at h
    split at h
    · cases h
    next found hfound =>
      split at h
      · cases h
      next hid =>
        cases h
        exact ⟨hfound, hid⟩
  · rintro ⟨hentry, hid⟩
    simp [Codec.entryPoint, hentry, hid]

/-- A call site whose shape can be referenced has an entry point into a faithful table, which what
else there is in the codec comes after. -/
theorem entryPoint_of_call (options : Options) {shape : Shape} {direction : Direction}
    (hcall : ⟨direction, shape⟩ ∈ s.calls) (href : s.checkReferences shape = .ok ()) :
    ∃ table more entry id, (ofSchema s options).codec.routines = table ++ more ∧
      (∀ r ∈ table, r.Faithful s table) ∧
      ((ofSchema s options).warnings = [] → ∀ r ∈ table, r.warning? = none) ∧
      (ofSchema s options).codec.entryPoint shape direction = .ok (entry, id) ∧
      entry.blank = Progress.blankValue s shape ∧ Table.At table id shape direction := by
  obtain ⟨hsound, -, hcalled⟩ := sound_foldl s.calls (sound_start s)
  obtain ⟨entry, id, hentry, hid⟩ := hcalled _ hcall href
  obtain ⟨done, ⟨routines, entries, hroutines, hentries, hdiagnostics, -⟩, hdone⟩ :=
    ofSchema_extends s options
  obtain ⟨-, hblank, hat⟩ := hsound.entries shape entry hentry
  have hfound : Codec.entry? (ofSchema s options).codec shape = some entry := by
    simp only [hdone, Codec.entry?, hentries, ShapeMap.get?_append]
    rw [called, hentry, Option.some_or]
  refine ⟨_, routines, entry, id, by rw [hdone]; exact hroutines, hsound.faithful, ?_,
    entryPoint_eq_ok_iff.2 ⟨hfound, hid⟩, hblank, hat direction id hid⟩
  intro hwarnings
  have hperm := hsound.warnings
  have hnil : (ofSchema s options).warnings = [] := hwarnings
  simp only [warnings, hdone, hdiagnostics, called] at hnil
  rw [hnil] at hperm
  simpa using hperm.symm.eq_nil

/-- A shape that cannot be referenced has no entry. -/
theorem entryPoint_of_error (options : Options) {shape : Shape} {direction : Direction}
    {err : ShapeError} (href : s.checkReferences shape = .error err) :
    (ofSchema s options).codec.entryPoint shape direction = .error (.noEntry shape direction) := by
  have hsound := sound_called s
  obtain ⟨done, ⟨routines, entries, -, hentries, -, hmore⟩, hdone⟩ := ofSchema_extends s options
  have hcalled : (called s).entries.get? shape = none := by
    cases hentry : (called s).entries.get? shape with
    | none => rfl
    | some entry => simp [(hsound.entries shape entry hentry).1] at href
  have hfound : Codec.entry? (ofSchema s options).codec shape = none := by
    simp only [hdone, Codec.entry?, hentries, ShapeMap.get?_append, hcalled, Option.none_or]
    cases hentry : ShapeMap.get? entries shape with
    | none => rfl
    | some entry =>
      obtain ⟨found, hmem, rfl⟩ := List.mem_map.1 (ShapeMap.mem_shapes_of_get? hentry)
      simp [hmore found hmem] at href
  simp [Codec.entryPoint, hfound]

end Generation

end ShapeCodec
