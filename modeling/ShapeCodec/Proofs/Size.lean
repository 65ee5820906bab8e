import Mathlib.Data.Finset.Prod
import ShapeCodec.Proofs.Unbounded
import ShapeCodec.Proofs.Unused
/-! The size of a generated table. A schema mentions finitely many shapes, and the effective shape of
a property and the elements of a list are among them again. The routines of the call sites have
distinct keys made of these shapes; what comes behind them are the two inert routines of each type
that has no others. -/
namespace ShapeCodec

namespace Schema

/-- The shapes of the call sites and of all properties, and the shapes of the elements inside. -/
def scope (s : Schema) : List Shape :=
  (s.calls.flatMap fun call => call.shape.parts) ++
    s.types.flatMap fun decl => decl.properties.flatMap fun p => p.effectiveShape.parts

theorem closure_subset_scope {s : Schema} {call : CallSite} (hcall : call ∈ s.calls) :
    s.closure call.shape ⊆ s.scope := by
  intro shape hshape
  rw [closure, List.mem_append] at hshape
  rw [scope, List.mem_append]
  rcases hshape with hshape | hshape
  · exact .inl (List.mem_flatMap.2 ⟨call, hcall, hshape⟩)
  · exact .inr hshape

end Schema

/-- Whether the routine is for the object `name`, nullable or not. -/
def Routine.isFor (r : Routine) (name : String) : Bool :=
  match r.shape with
  | .object other _ => other = name
  | _ => false

theorem Routine.isFor_iff (r : Routine) (name : String) :
    r.isFor name = true ↔ ∃ nullable, r.shape = .object name nullable := by
  unfold Routine.isFor
  split <;> simp_all

/-- Whether a type has routines, all of them inert. -/
def Codec.onlyUnused (c : Codec) (decl : Declaration) : Bool :=
  c.routines.any (·.isFor decl.name) &&
    c.routines.all fun r => !r.isFor decl.name || r.isUnused

namespace Generation

/-- The end of a generation whose call sites are done. -/
def finish (s : Schema) (options : Options) (done : Progress) : Generation :=
  let finished := if options.stubUnused then s.types.foldl Progress.addUnused done else done
  ⟨⟨finished.emitter.routines, finished.entries⟩, finished.emitter.diagnostics⟩

theorem shape_mem_scope (s : Schema) : ∀ r ∈ (called s).emitter.routines, r.shape ∈ s.scope := by
  apply routines_called
  intro call hcall _ e hwell hschema hold r hr
  obtain ⟨-, ⟨new, said, hemits⟩, -⟩ := Emitter.emit_answers hwell call.shape call.direction
  rw [hemits.routines, List.mem_append] at hr
  rcases hr with hr | hr
  · exact hold r hr
  · have hclosure := (hemits.scope r hr).2
    rw [hschema] at hclosure
    exact Schema.closure_subset_scope hcall hclosure

/-- The keys of the routines are distinct pairs of a shape and one of the two directions. -/
theorem length_called_le (s : Schema) :
    (called s).emitter.routines.length ≤ 2 * s.scope.toFinset.card := by
  have hnodup := (sound_called s).wellFormed.nodup
  let directions : Finset Direction := {.serialize, .deserialize}
  have hsubset : ((called s).emitter.routines.map Routine.key).toFinset ⊆
      s.scope.toFinset ×ˢ directions := by
    intro key hkey
    obtain ⟨r, hr, rfl⟩ := List.mem_map.1 (List.mem_toFinset.1 hkey)
    apply Finset.mem_product.2
    constructor
    · exact List.mem_toFinset.2 (shape_mem_scope s r hr)
    · simp only [Routine.key, directions]
      cases r.direction <;> decide
  calc (called s).emitter.routines.length
      = ((called s).emitter.routines.map Routine.key).toFinset.card := by
        rw [List.toFinset_card_of_nodup hnodup, List.length_map]
    _ ≤ (s.scope.toFinset ×ˢ directions).card := Finset.card_le_card hsubset
    _ = s.scope.toFinset.card * 2 := Finset.card_product _ _
    _ = 2 * s.scope.toFinset.card := Nat.mul_comm _ _

/-- A type that gets inert routines has no others. -/
theorem onlyUnused_of_unused {s : Schema} {options : Options} {decl : Declaration}
    (hdecl : decl ∈ unused s options) :
    (ofSchema s options).codec.onlyUnused decl = true := by
  have hunmet : decl ∈ unmet (called s) s.types := by
    rw [unused] at hdecl
    split at hdecl
    · exact hdecl
    · simp at hdecl
  have hmissing : (called s).emitter.hasObject decl.name = false := by
    simpa using (List.mem_filter.1 hunmet).2
  simp only [ofSchema_eq, Codec.onlyUnused, Bool.and_eq_true, List.any_eq_true, List.all_eq_true,
    List.mem_append]
  constructor
  · obtain ⟨r, hr, hshape⟩ := exists_mem_unusedRoutines s (called s).emitter.routines.length hdecl
    exact ⟨r, .inr hr, (r.isFor_iff decl.name).2 ⟨true, hshape⟩⟩
  · rintro r (hr | hr)
    · -- a routine of the call sites for this type would have kept it from being unused
      have hother : r.isFor decl.name = false := by
        by_contra hfor
        rw [Bool.not_eq_false] at hfor
        obtain ⟨nullable, hshape⟩ := (r.isFor_iff decl.name).1 hfor
        have hkey : (.object decl.name nullable, r.direction) ∈
            (called s).emitter.routines.map Routine.key :=
          List.mem_map.2 ⟨r, hr, by rw [Routine.key, hshape]⟩
        simp [(sound_called s).wellFormed.hasObject hkey] at hmissing
      simp [hother]
    · simp [isUnused_of_mem hr]

theorem length_unused_le (s : Schema) (options : Options) :
    (unused s options).length ≤ s.types.countP (ofSchema s options).codec.onlyUnused := by
  have hsublist : (unused s options).Sublist s.types := by
    rw [unused]
    split
    · exact List.filter_sublist
    · exact List.nil_sublist _
  calc (unused s options).length
      = (unused s options).countP (ofSchema s options).codec.onlyUnused :=
        (List.countP_eq_length.2 fun _ hdecl => onlyUnused_of_unused hdecl).symm
    _ ≤ s.types.countP (ofSchema s options).codec.onlyUnused := hsublist.countP_le

/-- Generation ends, and its table is linear in the schema. The call sites are served by a run that
comes to an end by itself, and in one way only. There are at most two routines for each shape that
the schema mentions, and two more for each type that has inert ones only. All others are for shapes
that the schema mentions. -/
theorem emission_linear (s : Schema) (options : Options) :
    (∃ done, (∀ p, Serves s s.calls ⟨.ofSchema s, []⟩ p ↔ p = done) ∧
      ofSchema s options = finish s options done) ∧
    (ofSchema s options).codec.routines.length ≤
      2 * s.scope.toFinset.card + 2 * s.types.countP (ofSchema s options).codec.onlyUnused ∧
    ∀ r ∈ (ofSchema s options).codec.routines, r.isUnused = false → r.shape ∈ s.scope := by
  refine ⟨⟨called s, serves_iff s, rfl⟩, ?_, ?_⟩
  · have hcalled := length_called_le s
    have hunused := length_unused_le s options
    have hlength : (ofSchema s options).codec.routines.length =
        (called s).emitter.routines.length + 2 * (unused s options).length := by
      rw [ofSchema_eq, List.length_append, length_unusedRoutines]
    omega
  · intro r hr hused
    rw [ofSchema_eq, List.mem_append] at hr
    rcases hr with hr | hr
    · exact shape_mem_scope s r hr
    · rw [isUnused_of_mem hr] at hused
      cases hused

end Generation

end ShapeCodec
