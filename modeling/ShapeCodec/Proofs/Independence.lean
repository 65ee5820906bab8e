import ShapeCodec.Proofs.Calls
/-! Call sites do not influence each other. What a call site writes and reads depends on the
declared types alone, so two codecs for the same types agree on every call site they share: whatever
else was called, in whatever order, and wherever the routines ended up in their tables. -/
namespace ShapeCodec

/-- Where keys are distinct, what is found under one does not depend on the order. -/
theorem find?_of_perm {α β : Type} [DecidableEq β] {key : α → β} {l l' : List α} (h : l.Perm l')
    (hnodup : (l.map key).Nodup) (k : β) :
    l.find? (fun a => key a = k) = l'.find? (fun a => key a = k) := by
  cases hl : l.find? (fun a => key a = k) with
  | none =>
    have hnone : ∀ a ∈ l', key a ≠ k := by
      intro a ha
      simpa using List.find?_eq_none.1 hl a (h.mem_iff.2 ha)
    exact (List.find?_eq_none.2 (by simpa using hnone)).symm
  | some a =>
    have hkey : key a = k := by simpa using List.find?_some hl
    cases hl' : l'.find? (fun a => key a = k) with
    | none =>
      have ha := h.mem_iff.1 (List.mem_of_find?_eq_some hl)
      exact absurd hkey (by simpa using List.find?_eq_none.1 hl' a ha)
    | some b =>
      have hkey' : key b = k := by simpa using List.find?_some hl'
      have hb := h.mem_iff.2 (List.mem_of_find?_eq_some hl')
      rw [List.inj_on_of_nodup_map hnodup (List.mem_of_find?_eq_some hl) hb
        (hkey.trans hkey'.symm)]

namespace Schema

/-- Two schemas that look up the same types. Their call sites may differ. -/
structure Alike (s t : Schema) : Prop where
  lookup : s.type? = t.type?
  count : s.types.length = t.types.length

/-- The order of declarations does not matter, since no name is declared twice. -/
theorem alike_of_perm {s t : Schema} (h : s.types.Perm t.types) : Alike s t :=
  ⟨funext fun name => find?_of_perm h s.nodup name, h.length_eq⟩

namespace Alike

variable {s t : Schema}

theorem properties (h : Alike s t) : s.properties = t.properties := by
  funext name
  rw [Schema.properties, Schema.properties, h.lookup]

theorem checkReferences (h : Alike s t) : s.checkReferences = t.checkReferences := by
  funext shape
  unfold Schema.checkReferences isDeclared
  rw [h.lookup]

theorem layoutFault? (h : Alike s t) : s.layoutFault? = t.layoutFault? := by
  funext shape
  cases shape <;> simp only [Schema.layoutFault?, h.lookup, h.checkReferences]

theorem defaultWithin (h : Alike s t) (levels : Nat) :
    s.defaultWithin levels = t.defaultWithin levels := by
  induction levels with
  | zero =>
    funext visiting shape
    unfold Schema.defaultWithin
    rw [h.lookup]
  | succ levels ih =>
    funext visiting shape
    unfold Schema.defaultWithin
    simp only [h.lookup, ih]

theorem defaultValue (h : Alike s t) : s.defaultValue = t.defaultValue := by
  funext shape
  rw [Schema.defaultValue, Schema.defaultValue, h.count, h.defaultWithin]

theorem blankValue (h : Alike s t) :
    Generation.Progress.blankValue s = Generation.Progress.blankValue t := by
  funext shape
  rw [Generation.Progress.blankValue, Generation.Progress.blankValue, h.defaultValue]

theorem routineFault? (h : Alike s t) : s.routineFault? = t.routineFault? := by
  funext direction shape
  unfold Schema.routineFault?
  rw [h.layoutFault?, h.defaultValue]

theorem accept (h : Alike s t) : Direct.accept s = Direct.accept t := by
  funext shape value
  unfold Direct.accept
  rw [h.lookup]

theorem writeValue (h : Alike s t) : Direct.writeValue s = Direct.writeValue t := by
  funext write shape value
  unfold Direct.writeValue
  rw [h.properties]

theorem write (h : Alike s t) (levels : Nat) : Direct.write s levels = Direct.write t levels := by
  induction levels with
  | zero =>
    funext shape value
    unfold Direct.write
    rw [h.routineFault?]
  | succ levels ih =>
    funext shape value
    unfold Direct.write
    simp only [h.routineFault?, h.accept, h.writeValue, ih]

theorem readValue (h : Alike s t) : Direct.readValue s = Direct.readValue t := by
  funext read shape
  have hdefaults : Direct.defaults s = Direct.defaults t := by
    funext properties
    rw [Direct.defaults, Direct.defaults, h.blankValue]
  unfold Direct.readValue
  rw [h.properties, hdefaults]

theorem read (h : Alike s t) (levels : Nat) : Direct.read s levels = Direct.read t levels := by
  induction levels with
  | zero =>
    funext shape
    unfold Direct.read
    rw [h.routineFault?]
  | succ levels ih =>
    funext shape
    unfold Direct.read
    simp only [h.routineFault?, h.readValue, ih]

theorem serialize (h : Alike s t) : Direct.serialize s = Direct.serialize t := by
  funext shape v
  rw [Direct.serialize, Direct.serialize, h.write]

theorem deserialize (h : Alike s t) : Direct.deserialize s = Direct.deserialize t := by
  funext shape text
  rw [Direct.deserialize, Direct.deserialize, h.blankValue, h.read]

end Alike

end Schema

namespace Codec

/-- Two codecs give the same answers for a shape in a direction, errors included. -/
def Agree (c d : Codec) (shape : Shape) : Direction → Prop
  | .serialize => ∀ v, c.serialize shape v = d.serialize shape v
  | .deserialize => ∀ text, c.deserialize shape text = d.deserialize shape text

end Codec

namespace Generation

/-- Codecs for the same types agree on the call sites they share. Neither the other call sites nor
the options nor the order of declarations can be told from an answer. -/
theorem calls_independent {s t : Schema} (htypes : s.types.Perm t.types)
    (options options' : Options) {shape : Shape} {direction : Direction}
    (hs : ⟨direction, shape⟩ ∈ s.calls) (ht : ⟨direction, shape⟩ ∈ t.calls) :
    (ofSchema s options).codec.Agree (ofSchema t options').codec shape direction := by
  have halike := Schema.alike_of_perm htypes
  cases href : s.checkReferences shape with
  | error e =>
    have href' : t.checkReferences shape = .error e := halike.checkReferences ▸ href
    cases direction with
    | serialize =>
      intro v
      rw [serialize_of_error options href, serialize_of_error options' href']
    | deserialize =>
      intro text
      rw [deserialize_of_error options href, deserialize_of_error options' href']
  | ok =>
    have href' : t.checkReferences shape = .ok () := halike.checkReferences ▸ href
    cases direction with
    | serialize =>
      intro v
      rw [serialize_of_call options hs href, serialize_of_call options' ht href',
        halike.serialize]
    | deserialize =>
      intro text
      rw [deserialize_of_call options hs href, deserialize_of_call options' ht href',
        halike.deserialize]

/-- A type that can be read, with photos that cannot. -/
def album : Declaration :=
  ⟨"Album", [⟨"title", .string, true, true⟩,
    ⟨"photos", .list (.object "Photo" true) true, true, true⟩]⟩

def photo : Declaration :=
  ⟨"Photo", [⟨"ratio", .unsupported "float", true, true⟩,
    ⟨"album", .object "Album" true, true, true⟩]⟩

theorem album_valid : album.Valid := by decide +kernel

theorem photo_valid : photo.Valid := by decide +kernel

def albumFirst : Schema where
  types := [album, photo]
  calls := [⟨.deserialize, .object "Album" true⟩]
  valid := by simpa using ⟨album_valid, photo_valid⟩
  nodup := by decide +kernel

/-- The same types the other way round, and more call sites, one of them for an unknown type. -/
def photoFirst : Schema where
  types := [photo, album]
  calls := [⟨.serialize, .object "Ghost" true⟩, ⟨.serialize, .object "Album" false⟩,
    ⟨.deserialize, .list (.object "Photo" true) true⟩, ⟨.deserialize, .object "Album" true⟩]
  valid := by simpa using ⟨photo_valid, album_valid⟩
  nodup := by decide +kernel

theorem calls_independent_album :
    ((ofSchema albumFirst ⟨false⟩).codec.entry? (.object "Album" true)).bind Entry.read =
      some ⟨0⟩ ∧
    ((ofSchema photoFirst ⟨true⟩).codec.entry? (.object "Album" true)).bind Entry.read =
      some ⟨5⟩ ∧
    (ofSchema albumFirst ⟨false⟩).codec.Agree (ofSchema photoFirst ⟨true⟩).codec
      (.object "Album" true) .deserialize :=
  ⟨by decide +kernel, by decide +kernel, calls_independent (.swap _ _ []) ⟨false⟩ ⟨true⟩
    (by simp [albumFirst]) (by simp [photoFirst])⟩

end Generation

end ShapeCodec
