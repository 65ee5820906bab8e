import ShapeCodec.Proofs.Calls
import ShapeCodec.Proofs.Direct.Delimiting
import ShapeCodec.Proofs.Direct.Failure
/-! Cut texts. A text from which a value was read is read alike however it goes on, so nothing that
stops short of the end of the value can be read at all. -/
namespace ShapeCodec

/-- What a step that ends by itself took decides what it does with any text in front of which it
stands, and it fails on all that is shorter. -/
theorem Delimits.truncated {α : Type} {x : Reading α} (hx : Delimits x)
    (hblames : Direct.BlamesText x) {text : String} {a : α} {c : Cursor}
    (h : x (.ofText text) = .ok a c) :
    ∃ taken : String, text.toList = taken.toList ++ c.rest ∧
      Text.utf8Length taken.toList = c.offset ∧
      (∀ more : String, x (.ofText (taken ++ more)) = .ok a ⟨c.offset, more.toList⟩) ∧
      ∀ before after : String, text = before ++ after →
        Text.utf8Length before.toList < c.offset →
          ∃ error c', x (.ofText before) = .error (.parse error) c' := by
  have hrun {taken rest : List Char} {b : α} (hconsumes : Consumes x taken rest b) :
      x ⟨0, taken ++ rest⟩ = .ok b ⟨Text.utf8Length taken, rest⟩ := by
    have hat := hconsumes.run 0
    rwa [Nat.zero_add] at hat
  obtain ⟨taken, -, hsplit, htaken⟩ := hx _ a c h
  have htext : text.toList = taken ++ c.rest := hsplit
  have hoffset : Text.utf8Length taken = c.offset := by
    have hwhole := hrun (htaken c.rest)
    rw [← htext] at hwhole
    have hsame := hwhole.symm.trans h
    rw [EStateM.Result.ok.injEq] at hsame
    exact congrArg Cursor.offset hsame.2
  refine ⟨String.ofList taken, by simpa using htext, by simpa using hoffset, ?_, ?_⟩
  · intro more
    rw [Cursor.ofText, String.toList_append, String.toList_ofList, hrun (htaken more.toList),
      hoffset]
  · intro before after hcut hshort
    cases hbefore : x (.ofText before) with
    | error e c' =>
      obtain ⟨error, rfl⟩ := hblames _ e c' hbefore
      exact ⟨error, c', rfl⟩
    | ok b c' =>
      -- a value in the shorter text would be the value of the whole text, and end too soon
      obtain ⟨early, -, hearly, hfront⟩ := hx _ b c' hbefore
      have hbegins : before.toList = early ++ c'.rest := hearly
      have hwhole := hrun (hfront (c'.rest ++ after.toList))
      rw [← List.append_assoc, ← hbegins, ← String.toList_append, ← hcut] at hwhole
      have hsame := hwhole.symm.trans h
      rw [EStateM.Result.ok.injEq] at hsame
      have hend : Text.utf8Length early = c.offset := congrArg Cursor.offset hsame.2
      rw [hbegins, Text.utf8Length_append] at hshort
      omega

namespace Generation

variable {s : Schema} {shape : Shape}

/-- The machine of a codec, started at the entry of a call site, reads straight from the schema. -/
theorem read_of_entryPoint (options : Options) {entry : Entry} {id : RoutineId}
    (hcall : ⟨.deserialize, shape⟩ ∈ s.calls)
    (hentry : (ofSchema s options).codec.entryPoint shape .deserialize = .ok (entry, id)) :
    s.checkReferences shape = .ok () ∧
      (ofSchema s options).codec.machine.read id = Direct.read s maxDepth shape := by
  cases href : s.checkReferences shape with
  | error err =>
    rw [entryPoint_of_error options href] at hentry
    cases hentry
  | ok =>
    obtain ⟨table, more, entry', id', htable, hfaithful, -, hentry', -, hat⟩ :=
      entryPoint_of_call options hcall href
    rw [hentry'] at hentry
    cases hentry
    refine ⟨rfl, ?_⟩
    rw [Codec.machine, htable, Machine.read,
      Direct.readWithin_eq hfaithful more maxDepth id shape hat]

/-- Values other than integers end by themselves, so that a cut is always noticed. What was read of
a text gives the same value at the same offset whatever follows it, and what is cut off before that
offset, be it inside a number, a word, a string or a member without a property, is no value. -/
theorem read_truncated (options : Options) {entry : Entry} {id : RoutineId} {text : String}
    {v : Value} {c : Cursor} (hcall : ⟨.deserialize, shape⟩ ∈ s.calls) (hint : shape ≠ .int)
    (hwarnings : (ofSchema s options).warnings = [])
    (hentry : (ofSchema s options).codec.entryPoint shape .deserialize = .ok (entry, id))
    (hread : (ofSchema s options).codec.machine.read id (.ofText text) = .ok v c) :
    ∃ taken : String, text.toList = taken.toList ++ c.rest ∧
      Text.utf8Length taken.toList = c.offset ∧
      (∀ more : String, (ofSchema s options).codec.machine.read id (.ofText (taken ++ more)) =
        .ok v ⟨c.offset, more.toList⟩) ∧
      ∀ before after : String, text = before ++ after →
        Text.utf8Length before.toList < c.offset →
          ∃ error c', (ofSchema s options).codec.machine.read id (.ofText before) =
            .error (.parse error) c' := by
  obtain ⟨href, hreader⟩ := read_of_entryPoint options hcall hentry
  have hbuildable := buildable_of_call options hcall href hwarnings
  rw [hreader] at hread ⊢
  exact (Direct.delimits_read hbuildable.fault hint maxDepth).truncated
    (Direct.blamesText_read s maxDepth shape) hread

/-- The second text is cut off inside a number that no property is for. -/
theorem read_truncated_family :
    (∀ more : String, (ofSchema .family ⟨false⟩).codec.machine.read ⟨3⟩
      (.ofText (" \x7b\"age\": 8, \"likes\": -1.5e, \"pets\": [\"]\"]\x7d" ++ more)) =
        .ok (.record "Person" [.null, .int 8, .null, .list [.str "]"]]) ⟨42, more.toList⟩) ∧
    ∃ error c', (ofSchema .family ⟨false⟩).codec.machine.read ⟨3⟩
      (.ofText " \x7b\"age\": 8, \"likes\": -1") = .error (.parse error) c' := by
  have hentry : (ofSchema .family ⟨false⟩).codec.entryPoint (.object "Person" false) .deserialize =
      .ok (⟨some ⟨0⟩, some ⟨3⟩, .record "Person" [.null, .int 0, .null, .list []]⟩, ⟨3⟩) := by
    decide +kernel
  have hread : (ofSchema .family ⟨false⟩).codec.machine.read ⟨3⟩
      (.ofText " \x7b\"age\": 8, \"likes\": -1.5e, \"pets\": [\"]\"]\x7d.") =
        .ok (.record "Person" [.null, .int 8, .null, .list [.str "]"]]) ⟨42, ['.']⟩ := by
    decide +kernel
  obtain ⟨taken, htaken, -, hmore, hshort⟩ := read_truncated ⟨false⟩ (by simp [Schema.family])
    (by decide) (by decide +kernel) hentry hread
  have htext : taken = " \x7b\"age\": 8, \"likes\": -1.5e, \"pets\": [\"]\"]\x7d" := by
    apply String.toList_inj.1
    exact List.append_cancel_right (htaken.symm.trans (by decide +kernel))
  rw [htext] at hmore
  refine ⟨hmore, hshort " \x7b\"age\": 8, \"likes\": -1" ".5e, \"pets\": [\"]\"]\x7d." ?_ ?_⟩
  · decide +kernel
  · decide +kernel

end Generation

end ShapeCodec
