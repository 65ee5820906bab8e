import ShapeCodec.Proofs.Calls
import ShapeCodec.Proofs.WireText
/-! What serialization answers: the wire text of a value that fits the shape of its call site, and
an error for any other value and for values that are nested too deeply. -/
namespace ShapeCodec

namespace Direct

variable {s : Schema} {shape : Shape} {v : Value} {text : String}

theorem serialize_eq_ok (h : serialize s shape v = .ok text) :
    write s maxDepth shape v "" = .ok () text := by
  unfold serialize at h
  split at h
  · next u written hwrite =>
    cases h
    exact hwrite
  · cases h

/-- Exactly the values that fit, within the limit, have a text. -/
theorem serialize_eq_ok_iff (hbuildable : Buildable s .serialize shape) :
    serialize s shape v = .ok text ↔
      Fits s shape v ∧ nesting s shape v ≤ maxDepth ∧ wireText s shape v = text := by
  constructor
  · intro h
    have hwrite := serialize_eq_ok h
    have hfits := fits_of_write hbuildable hwrite
    have htakes := write_takes hbuildable maxDepth v hfits
    have hnesting : nesting s shape v ≤ maxDepth := by
      by_contra hdeep
      obtain ⟨written, herror⟩ := htakes.tooFew (by omega) ""
      rw [herror] at hwrite
      cases hwrite
    rw [htakes.enough hnesting] at hwrite
    cases hwrite
    exact ⟨hfits, hnesting, by simp⟩
  · rintro ⟨hfits, hnesting, rfl⟩
    have htakes := write_takes hbuildable maxDepth v hfits
    simp [serialize, htakes.enough hnesting]

/-- A value that fits fails only at the limit. -/
theorem serialize_eq_error (hbuildable : Buildable s .serialize shape) (hfits : Fits s shape v)
    {e : CodecError} (h : serialize s shape v = .error e) : e = .depthLimit maxDepth := by
  have htakes := write_takes hbuildable maxDepth v hfits
  by_cases hnesting : nesting s shape v ≤ maxDepth
  · simp [serialize, htakes.enough hnesting] at h
  · obtain ⟨written, herror⟩ := htakes.tooFew (by omega) ""
    simp only [serialize, herror, Except.error.injEq] at h
    exact h.symm

end Direct

namespace Generation

/-- What a call site writes is the wire text of a value that fits its shape, within the limit. -/
theorem fits_of_serialize {s : Schema} (options : Options) {shape : Shape} {v : Value}
    {text : String} (hcall : ⟨.serialize, shape⟩ ∈ s.calls)
    (hwarnings : (ofSchema s options).warnings = [])
    (h : (ofSchema s options).codec.serialize shape v = .ok text) :
    Fits s shape v ∧ nesting s shape v ≤ maxDepth ∧ wireText s shape v = text := by
  cases href : s.checkReferences shape with
  | error e =>
    rw [serialize_of_error options href] at h
    cases h
  | ok =>
    have hbuildable := buildable_of_call options hcall href hwarnings
    rwa [serialize_of_call options hcall href, Direct.serialize_eq_ok_iff hbuildable] at h

theorem wireText_of_serialize {s : Schema} (options : Options) {shape : Shape} {v : Value}
    {text : String} (hcall : ⟨.serialize, shape⟩ ∈ s.calls)
    (hwarnings : (ofSchema s options).warnings = [])
    (h : (ofSchema s options).codec.serialize shape v = .ok text) :
    Fits s shape v ∧ wireText s shape v = text :=
  have hfits := fits_of_serialize options hcall hwarnings h
  ⟨hfits.1, hfits.2.2⟩

/-- The writer of a call site is correct and complete: it has an answer exactly for the values that
fit the shape and stay within the limit, provided that the shape can be referenced, and the answer
is the wire text. -/
theorem serialize_iff_fits {s : Schema} (options : Options) {shape : Shape}
    (hcall : ⟨.serialize, shape⟩ ∈ s.calls) (hwarnings : (ofSchema s options).warnings = [])
    (v : Value) (text : String) :
    (ofSchema s options).codec.serialize shape v = .ok text ↔
      s.checkReferences shape = .ok () ∧ Fits s shape v ∧ nesting s shape v ≤ maxDepth ∧
        wireText s shape v = text := by
  cases href : s.checkReferences shape with
  | error e => simp [serialize_of_error options href]
  | ok =>
    have hbuildable := buildable_of_call options hcall href hwarnings
    rw [serialize_of_call options hcall href, Direct.serialize_eq_ok_iff hbuildable]
    simp

theorem serialize_iff_fits_family :
    Fits .family (.object "Person" false) (.record "Person" [.str "Ann", .int 3, .null, .list []]) ∧
      nesting .family (.object "Person" false)
        (.record "Person" [.str "Ann", .int 3, .null, .list []]) ≤ maxDepth ∧
      wireText .family (.object "Person" false)
        (.record "Person" [.str "Ann", .int 3, .null, .list []]) =
          "\x7b\n\"name\": \"Ann\",\n\"age\": 3,\n\"mother\": null,\n\"pets\": [\n]\n\x7d" :=
  ((serialize_iff_fits ⟨false⟩ (by simp [Schema.family]) (by decide +kernel) _ _).1
    (by decide +kernel)).2

/-- A call site for a type that nobody declares. -/
def ghost : Schema :=
  Schema.empty.call .serialize (.object "Ghost" true)

/-- Null fits a nullable object of any name, and nothing warns about a call site that refers to an
undeclared one, but it has no entry. -/
theorem serialize_ghost : ⟨.serialize, .object "Ghost" true⟩ ∈ ghost.calls ∧
    (ofSchema ghost ⟨false⟩).warnings = [] ∧ Fits ghost (.object "Ghost" true) .null ∧
    nesting ghost (.object "Ghost" true) .null ≤ maxDepth ∧
    (ofSchema ghost ⟨false⟩).codec.serialize (.object "Ghost" true) .null =
      .error (.noEntry (.object "Ghost" true) .serialize) :=
  ⟨by simp [ghost, Schema.call, Schema.empty], by decide +kernel, .noObject, by decide +kernel,
    by decide +kernel⟩

end Generation

end ShapeCodec
