import ShapeCodec.Proofs.Direct.Soundness
import ShapeCodec.Proofs.Direct.WireReading
import ShapeCodec.Proofs.Serialization
/-! Both directions together: what was written is read back as it was, and what was read, however
loosely it was put, can be written and is stable from then on. -/
namespace ShapeCodec

namespace Direct

variable {s : Schema} {shape : Shape} {v : Value} {text : String}

theorem isBlankText_wireText (hfits : Fits s shape v) :
    Codec.isBlankText (wireText s shape v) = false := by
  obtain ⟨c, hhead, hopens⟩ := wireText_begins hfits
  obtain ⟨tail, htext⟩ : ∃ tail, (wireText s shape v).toList = c :: tail :=
    ⟨_, List.eq_cons_of_mem_head? hhead⟩
  simp [Codec.isBlankText, htext, hopens.not_space]

/-- Wire text is read back as the value it stands for. -/
theorem deserialize_wireText (hbuildable : Buildable s .deserialize shape) (hfits : Fits s shape v)
    (hquoteless : v.Quoteless) (hnesting : nesting s shape v ≤ maxDepth) :
    deserialize s shape (wireText s shape v) = .ok v := by
  have hread := (read_consumes hbuildable maxDepth v [] hfits hquoteless hnesting
    (by simp [Stops])).run 0
  rw [List.append_nil] at hread
  simp [deserialize, isBlankText_wireText hfits, Cursor.ofText, hread]

/-- What is written for a value is read as that value, unless a string in it holds a quote. -/
theorem deserialize_of_serialize (hwritable : Buildable s .serialize shape)
    (hreadable : Buildable s .deserialize shape) (hquoteless : v.Quoteless)
    (h : serialize s shape v = .ok text) : deserialize s shape text = .ok v := by
  rw [serialize_eq_ok_iff hwritable] at h
  obtain ⟨hfits, hnesting, rfl⟩ := h
  exact deserialize_wireText hreadable hfits hquoteless hnesting

/-- Whatever a text is read as is good for the shape. -/
theorem good_of_deserialize (hbuildable : Buildable s .deserialize shape)
    (h : deserialize s shape text = .ok v) : Good s shape v := by
  unfold deserialize at h
  split at h
  · cases h
    exact fits_blankValue hbuildable
  · split at h
    · next hread =>
      cases h
      exact good_of_read hbuildable hread
    · cases h

end Direct

namespace Generation

variable {s : Schema} (options : Options) {shape : Shape} {v : Value} {text : String}

/-- What was written is read back as the very same value, unless a string in it holds a quote. -/
theorem deserialize_serialize (hwrite : ⟨.serialize, shape⟩ ∈ s.calls)
    (hread : ⟨.deserialize, shape⟩ ∈ s.calls) (href : s.checkReferences shape = .ok ())
    (hwarnings : (ofSchema s options).warnings = [])
    (hquoteless : ∀ content ∈ v.strings, '"' ∉ content.toList)
    (h : (ofSchema s options).codec.serialize shape v = .ok text) :
    (ofSchema s options).codec.deserialize shape text = .ok v := by
  rw [serialize_of_call options hwrite href,
    Direct.serialize_eq_ok_iff (buildable_of_call options hwrite href hwarnings)] at h
  obtain ⟨hfits, hnesting, rfl⟩ := h
  rw [deserialize_of_call options hread href]
  exact Direct.deserialize_wireText (buildable_of_call options hread href hwarnings) hfits
    hquoteless hnesting

theorem deserialize_serialize_family :
    (ofSchema .family ⟨false⟩).codec.deserialize (.object "Person" false)
      "\x7b\n\"name\": \"], null\",\n\"age\": -3,\n\"mother\": null,\n\"pets\": [\n]\n\x7d" =
        .ok (.record "Person" [.str "], null", .int (-3), .null, .list []]) :=
  deserialize_serialize ⟨false⟩ (by simp [Schema.family]) (by simp [Schema.family])
    (by decide +kernel) (by decide +kernel) (by decide +kernel) (by decide +kernel)

/-- Reading is sound and recoding is stable: a value that was read fits the shape, so that only the
limit can keep it from being written, and the text it is written as is read as the same value and
written as the same text again. -/
theorem recode_stable (hwrite : ⟨.serialize, shape⟩ ∈ s.calls)
    (hread : ⟨.deserialize, shape⟩ ∈ s.calls) (hwarnings : (ofSchema s options).warnings = [])
    (h : (ofSchema s options).codec.deserialize shape text = .ok v) :
    Fits s shape v ∧
      (∀ e, (ofSchema s options).codec.serialize shape v = .error e → e = .depthLimit maxDepth) ∧
      ∀ again, (ofSchema s options).codec.serialize shape v = .ok again →
        (ofSchema s options).codec.deserialize shape again = .ok v ∧
          ((ofSchema s options).codec.deserialize shape again >>=
            (ofSchema s options).codec.serialize shape) = .ok again := by
  cases href : s.checkReferences shape with
  | error e =>
    rw [deserialize_of_error options href] at h
    cases h
  | ok =>
    have hwritable := buildable_of_call options hwrite href hwarnings
    have hreadable := buildable_of_call options hread href hwarnings
    rw [deserialize_of_call options hread href] at h
    obtain ⟨hfits, hquoteless⟩ := Direct.good_of_deserialize hreadable h
    refine ⟨hfits, fun e he => ?_, fun again hagain => ?_⟩
    · rw [serialize_of_call options hwrite href] at he
      exact Direct.serialize_eq_error hwritable hfits he
    · have htext := hagain
      rw [serialize_of_call options hwrite href, Direct.serialize_eq_ok_iff hwritable] at htext
      obtain ⟨-, hnesting, rfl⟩ := htext
      have hback : (ofSchema s options).codec.deserialize shape (wireText s shape v) = .ok v := by
        rw [deserialize_of_call options hread href]
        exact Direct.deserialize_wireText hreadable hfits hquoteless hnesting
      rw [hback]
      exact ⟨rfl, hagain⟩

theorem recode_stable_family :
    Fits .family (.object "Person" false) (.record "Person" [.null, .int 8, .null, .list []]) ∧
      (ofSchema .family ⟨false⟩).codec.deserialize (.object "Person" false)
        "\x7b\n\"name\": null,\n\"age\": 8,\n\"mother\": null,\n\"pets\": [\n]\n\x7d" =
          .ok (.record "Person" [.null, .int 8, .null, .list []]) := by
  have hread : (ofSchema .family ⟨false⟩).codec.deserialize (.object "Person" false)
      " \x7b\"age\" :7 \"likes\":[1,\"]\"],\"age\": 8,\x7d x" =
        .ok (.record "Person" [.null, .int 8, .null, .list []]) := by
    decide +kernel
  have hstable := recode_stable ⟨false⟩ (by simp [Schema.family]) (by simp [Schema.family])
    (by decide +kernel) hread
  exact ⟨hstable.1, (hstable.2.2 _ (by decide +kernel)).1⟩

end Generation

end ShapeCodec
