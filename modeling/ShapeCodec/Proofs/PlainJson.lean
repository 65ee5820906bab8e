import ShapeCodec.Proofs.Calls
import ShapeCodec.Proofs.Direct.JsonReading
import ShapeCodec.Proofs.Json.Parsing
/-! Two ways from JSON text to a value: parsing it and matching the tree with the shape, and the
reader of a call site. On text without escapes and repeated keys the second gives what the first
does, whenever the first gives a value. -/
namespace ShapeCodec

namespace Direct

variable {s : Schema} {shape : Shape} {text : String} {json : Json} {v : Value}

theorem isBlankText_of_begins {lead body trail : List Char}
    (htext : text.toList = lead ++ (body ++ trail)) (hbegins : Json.Begins body) :
    Codec.isBlankText text = false := by
  obtain ⟨c, hhead, hopens⟩ := hbegins
  obtain ⟨tail, rfl⟩ : ∃ tail, body = c :: tail := ⟨_, List.eq_cons_of_mem_head? hhead⟩
  simp [Codec.isBlankText, htext, hopens.not_space]

/-- The parser allows one level of nesting less than the reader, which the reader needs where a
null stands for an object or list. -/
theorem deserialize_of_parse (hbuildable : Buildable s .deserialize shape)
    (hparse : Json.parse text = .ok json) (hescape : '\\' ∉ text.toList)
    (hkeys : ∀ tree rest, Json.parseFirst text = .ok (tree, rest) → tree.DistinctKeys)
    (hv : Value.ofJson s json shape = .ok v) : deserialize s shape text = .ok v := by
  obtain ⟨tree, rest, hfirst, rfl, -, ⟨lead, body, trail, htext, hlead, hbody, htrail⟩, hnesting⟩ :=
    Json.parse_sound hparse
  have hdistinct := hkeys tree rest hfirst
  rw [Json.distinct_of_distinctKeys tree hdistinct] at hv
  have hclear : Clear Json.maxNesting tree body := by
    refine ⟨hbody, fun hmem => hescape ?_, hdistinct, hnesting⟩
    simp [htext, hmem]
  have hstops : Json.Number.Stops (trail ++ []) :=
    Json.Number.stops_blank htrail (by simp [Json.Number.Stops])
  rw [List.append_nil] at hstops
  have hread := (read_understands hbuildable Json.maxNesting tree body lead trail v hclear hv hlead
    hstops).run 0
  rw [List.append_assoc, ← htext] at hread
  have hdirect : read s maxDepth shape (.ofText text) =
      .ok v ⟨0 + Text.utf8Length (lead ++ body), trail⟩ := hread
  simp [deserialize, isBlankText_of_begins htext hbody.begins, hdirect]

end Direct

namespace Generation

/-- What a text without escapes and repeated keys stands for as plain JSON is what the reader of a
call site takes it for, provided that the shape can be referenced. Members that no property has, the
order of members, whitespace and missing nullable members make no difference. -/
theorem deserialize_of_ofJson {s : Schema} (options : Options) {shape : Shape} {text : String}
    {json : Json} {v : Value} (hcall : ⟨.deserialize, shape⟩ ∈ s.calls)
    (href : s.checkReferences shape = .ok ()) (hwarnings : (ofSchema s options).warnings = [])
    (hparse : Json.parse text = .ok json) (hescape : '\\' ∉ text.toList)
    (hkeys : ∀ tree rest, Json.parseFirst text = .ok (tree, rest) → tree.DistinctKeys)
    (hv : Value.ofJson s json shape = .ok v) :
    (ofSchema s options).codec.deserialize shape text = .ok v := by
  rw [deserialize_of_call options hcall href]
  exact Direct.deserialize_of_parse (buildable_of_call options hcall href hwarnings) hparse hescape
    hkeys hv

theorem deserialize_of_ofJson_family :
    (ofSchema .family ⟨false⟩).codec.deserialize (.object "Person" false)
      " \x7b\"likes\": [true, \x7b\"age\": null\x7d], \"age\" :8,\"pets\": [\"]\" , null]\n\x7d" =
        .ok (.record "Person" [.null, .int 8, .null, .list [.str "]", .null]]) := by
  have hparse : Json.parse
      " \x7b\"likes\": [true, \x7b\"age\": null\x7d], \"age\" :8,\"pets\": [\"]\" , null]\n\x7d" =
        .ok (.object [("likes", .array [.bool true, .object [("age", .null)]]),
          ("age", .number (.integer 8)), ("pets", .array [.string "]", .null])]) := by
    decide +kernel
  refine deserialize_of_ofJson ⟨false⟩ (by simp [Schema.family]) (by decide +kernel)
    (by decide +kernel) hparse (by decide +kernel) ?_ (by decide +kernel)
  intro tree rest hfirst
  have hfirst' : Json.parseFirst
      " \x7b\"likes\": [true, \x7b\"age\": null\x7d], \"age\" :8,\"pets\": [\"]\" , null]\n\x7d" =
        .ok (.object [("likes", .array [.bool true, .object [("age", .null)]]),
          ("age", .number (.integer 8)), ("pets", .array [.string "]", .null])], []) := by
    decide +kernel
  obtain ⟨rfl, -⟩ := Prod.mk.inj (Except.ok.inj (hfirst'.symm.trans hfirst))
  simp [Json.DistinctKeys, Json.DistinctKeysInItems, Json.DistinctKeysInMembers]

/-- A call site for a type that nobody declares. -/
def absent : Schema :=
  Schema.empty.call .deserialize (.object "Ghost" true)

/-- The plain JSON null stands for null at a nullable object of any name, and nothing warns about a
call site that refers to an undeclared one, but it has no entry. -/
theorem deserialize_ghost : ⟨.deserialize, .object "Ghost" true⟩ ∈ absent.calls ∧
    (ofSchema absent ⟨false⟩).warnings = [] ∧ Json.parse "null" = .ok .null ∧
    '\\' ∉ "null".toList ∧ Json.DistinctKeys .null ∧
    Value.ofJson absent .null (.object "Ghost" true) = .ok .null ∧
    (ofSchema absent ⟨false⟩).codec.deserialize (.object "Ghost" true) "null" =
      .error (.noEntry (.object "Ghost" true) .deserialize) :=
  ⟨by simp [absent, Schema.call, Schema.empty], by decide +kernel, by decide +kernel, by decide,
    trivial, by decide +kernel, by decide +kernel⟩

end Generation

end ShapeCodec
