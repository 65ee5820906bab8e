import ShapeCodec.Proofs.Direct.Failure
import ShapeCodec.Proofs.Unused
/-! What lies behind an entry point: a routine that writes or reads straight from the schema, or an
inert one. Either way only the value can make writing fail, and only the text reading. -/
namespace ShapeCodec.Generation

variable {s : Schema} {options : Options} {shape : Shape} {direction : Direction} {entry : Entry}
  {id : RoutineId}

theorem writeWithin_of_entryPoint
    (h : (ofSchema s options).codec.entryPoint shape .serialize = .ok (entry, id)) :
    (∀ levels, (ofSchema s options).codec.machine.writeWithin levels id =
      Direct.write s levels shape) ∨
    ∀ levels value, (ofSchema s options).codec.machine.writeWithin levels id value = pure () := by
  rcases of_entryPoint h with hat | ⟨r, hr, hbody⟩
  · refine .inl fun levels => ?_
    rw [ofSchema_eq]
    exact Direct.writeWithin_eq (sound_called s).faithful _ levels id shape hat
  · refine .inr fun levels value => ?_
    unfold Machine.writeWithin
    simp only [hr, hbody]

theorem readWithin_of_entryPoint
    (h : (ofSchema s options).codec.entryPoint shape .deserialize = .ok (entry, id)) :
    (∀ levels, (ofSchema s options).codec.machine.readWithin levels id =
      Direct.read s levels shape) ∨
    ∀ levels, (ofSchema s options).codec.machine.readWithin levels id = Machine.readInert := by
  rcases of_entryPoint h with hat | ⟨r, hr, hbody⟩
  · refine .inl fun levels => ?_
    rw [ofSchema_eq]
    exact Direct.readWithin_eq (sound_called s).faithful _ levels id shape hat
  · refine .inr fun levels => ?_
    unfold Machine.readWithin
    simp only [hr, hbody]

/-- All that can be said against a value is that the shape or the limit does not admit it. -/
theorem refusal_of_serialize
    (h : (ofSchema s options).codec.entryPoint shape .serialize = .ok (entry, id)) {v : Value}
    {e : CodecError} (herror : (ofSchema s options).codec.serialize shape v = .error e) :
    Direct.Refusal e := by
  have hblames : Direct.BlamesValue ((ofSchema s options).codec.machine.write id v) := by
    unfold Machine.write
    rcases writeWithin_of_entryPoint h with hwrite | hwrite
    · rw [hwrite]
      exact Direct.blamesValue_write s maxDepth shape v
    · rw [hwrite]
      exact Direct.blamesValue_pure ()
  simp only [Codec.serialize, h, bind, Except.bind, Codec.runWrite] at herror
  split at herror
  · cases herror
  · next hrun =>
    cases herror
    exact hblames "" e _ hrun

/-- All that can be said against a text is where it cannot be read. -/
theorem blamesText_of_entryPoint
    (h : (ofSchema s options).codec.entryPoint shape .deserialize = .ok (entry, id))
    (levels : Nat) :
    Direct.BlamesText ((ofSchema s options).codec.machine.readWithin levels id) := by
  rcases readWithin_of_entryPoint h with hread | hread
  · rw [hread]
    exact Direct.blamesText_read s levels shape
  · rw [hread]
    exact Direct.blamesText_readInert

theorem parse_of_deserialize
    (h : (ofSchema s options).codec.entryPoint shape .deserialize = .ok (entry, id))
    {text : String} {e : CodecError}
    (herror : (ofSchema s options).codec.deserialize shape text = .error e) :
    ∃ error c, e = .parse error ∧
      (ofSchema s options).codec.machine.read id (.ofText text) = .error e c := by
  simp only [Codec.deserialize, h, bind, Except.bind] at herror
  split at herror
  · cases herror
  · simp only [Codec.runRead] at herror
    split at herror
    · cases herror
    · next c hrun =>
      cases herror
      obtain ⟨error, herror⟩ := blamesText_of_entryPoint h maxDepth _ _ _ hrun
      exact ⟨error, c, herror, hrun⟩

end ShapeCodec.Generation
