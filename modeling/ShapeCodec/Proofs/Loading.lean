import ShapeCodec.Proofs.WireJson
/-! Loading written text again as plain JSON. The writer counts calls and the parser counts
brackets. A value makes at least one call for each bracket that it opens, so what is written within
the limit of the writer opens at most as many brackets as that limit; the limit of the parser is one
less. -/
namespace ShapeCodec

namespace Json

variable {α : Type} {text rest : List Char} {levels fewer : Nat} {json : Json}

section Fewer

/-- The second reader has the answers of the first, unless it runs out of levels. -/
def Curtails (read read' : List Char → Except SyntaxError (α × List Char)) : Prop :=
  ∀ text answer, read text = .ok answer →
    read' text = .ok answer ∨ read' text = .error .recursionLimit

variable {value value' : List Char → Except SyntaxError (Json × List Char)}

theorem arrayItems_curtails (hvalue : Curtails value value') (bound : Nat) (first : Bool) :
    Curtails (arrayItems value bound first) (arrayItems value' bound first) := by
  induction bound generalizing first with
  | zero => exact fun _ _ h => .inl h
  | succ bound ih =>
    intro text answer h
    rw [arrayItems, bind_eq_ok_iff] at h
    obtain ⟨⟨more, after⟩, hnext, h⟩ := h
    rw [arrayItems, hnext]
    cases more with
    | false => exact .inl h
    | true =>
      obtain ⟨⟨item, behind⟩, hitem, h⟩ := bind_eq_ok_iff.1 h
      obtain ⟨⟨items, last⟩, hitems, h⟩ := bind_eq_ok_iff.1 h
      simp only [bind, Except.bind]
      obtain hitem | hitem := hvalue _ _ hitem
      · obtain hitems | hitems := ih false _ _ hitems
        · simp only [hitem, hitems]
          exact .inl h
        · simp [hitem, hitems]
      · simp [hitem]

theorem objectMembers_curtails (hvalue : Curtails value value') (bound : Nat) (first : Bool) :
    Curtails (objectMembers value bound first) (objectMembers value' bound first) := by
  induction bound generalizing first with
  | zero => exact fun _ _ h => .inl h
  | succ bound ih =>
    intro text answer h
    rw [objectMembers, bind_eq_ok_iff] at h
    obtain ⟨⟨key?, after⟩, hnext, h⟩ := h
    rw [objectMembers, hnext]
    cases key? with
    | none => exact .inl h
    | some key =>
      obtain ⟨⟨⟨⟩, middle⟩, hcolon, h⟩ := bind_eq_ok_iff.1 h
      obtain ⟨⟨json, behind⟩, hjson, h⟩ := bind_eq_ok_iff.1 h
      obtain ⟨⟨members, last⟩, hmembers, h⟩ := bind_eq_ok_iff.1 h
      simp only [bind, Except.bind, hcolon]
      obtain hjson | hjson := hvalue _ _ hjson
      · obtain hmembers | hmembers := ih false _ _ hmembers
        · simp only [hjson, hmembers]
          exact .inl h
        · simp [hjson, hmembers]
      · simp [hjson]

theorem map_of_error {β : Type} {x : Except SyntaxError α} {e : SyntaxError} {g : α → β}
    (h : x = .error e) : x.map g = .error e := by
  rw [h, Except.map]

/-- With fewer levels to go the parser has the same answer, or none because they do not suffice. -/
theorem valueWithin_curtails (hle : fewer ≤ levels) :
    Curtails (valueWithin levels) (valueWithin fewer) := by
  induction fewer generalizing levels with
  | zero =>
    intro text answer h
    unfold valueWithin at h ⊢
    split at h
    case h_6 | h_7 => exact .inr rfl
    all_goals exact .inl h
  | succ fewer ih =>
    obtain ⟨below, rfl⟩ := Nat.exists_eq_add_of_le' hle
    have hbelow : Curtails (valueWithin (below + fewer)) (valueWithin fewer) :=
      ih (Nat.le_add_left fewer below)
    intro text answer h
    unfold valueWithin at h ⊢
    split at h
    case h_6 =>
      obtain ⟨read, hitems, h⟩ := map_eq_ok_iff.1 h
      obtain hitems | hitems := arrayItems_curtails hbelow _ _ _ _ hitems
      · exact .inl (map_eq_ok_iff.2 ⟨read, hitems, h⟩)
      · exact .inr (map_of_error hitems)
    case h_7 =>
      obtain ⟨read, hmembers, h⟩ := map_eq_ok_iff.1 h
      obtain hmembers | hmembers := objectMembers_curtails hbelow _ _ _ _ hmembers
      · exact .inl (map_eq_ok_iff.2 ⟨read, hmembers, h⟩)
      · exact .inr (map_of_error hmembers)
    all_goals exact .inl h

end Fewer

/-- What the parser makes of a text that is one value: a tree within its limit is the answer, and a
deeper one is refused for its depth. -/
theorem parse_eq_of_valueWithin {text : String} (hkeys : json.DistinctKeys)
    (h : ∀ levels, json.nesting ≤ levels → valueWithin levels text.toList = .ok (json, [])) :
    parse text = if json.nesting ≤ maxNesting then .ok json else .error .recursionLimit := by
  split
  · next hnesting =>
    rw [parse, parseFirst, h _ hnesting]
    exact congrArg Except.ok (distinct_of_distinctKeys json hkeys)
  · next hnesting =>
    have hcurtails := valueWithin_curtails (Nat.le_of_not_le hnesting)
    obtain hparse | hparse := hcurtails _ _ (h _ (Nat.le_refl _))
    · obtain ⟨-, -, -, -, -, hwithin⟩ := valueWithin_sound _ _ _ _ hparse
      exact absurd hwithin hnesting
    · rw [parse, parseFirst, hparse]
      rfl

end Json

namespace Value

variable (s : Schema)

mutual

/-- The plain JSON of a value repeats no key, whatever the schema calls its fields. -/
theorem distinctKeys_toJson : ∀ v : Value, (v.toJson s).DistinctKeys
  | null | int _ | str _ => trivial
  | list items => distinctKeysInItems_toJsonItems items
  | record type fields => distinctKeys_toJsonMembers type 0 [] fields .nil trivial

theorem distinctKeysInItems_toJsonItems :
    ∀ items : List Value, Json.DistinctKeysInItems (toJsonItems s items)
  | [] => trivial
  | item :: rest => ⟨distinctKeys_toJson item, distinctKeysInItems_toJsonItems rest⟩

theorem distinctKeys_toJsonMembers (type : String) (slot : Nat) (before : List (String × Json)) :
    ∀ fields : List Value, (before.map Prod.fst).Nodup → Json.DistinctKeysInMembers before →
      Json.DistinctKeys (.object (toJsonMembers s type slot before fields))
  | [], hnodup, hbefore => ⟨hnodup, hbefore⟩
  | field :: rest, hnodup, hbefore =>
    distinctKeys_toJsonMembers type (slot + 1) _ rest (Json.nodup_insertMember hnodup)
      (Json.distinctKeysInMembers_insertMember (distinctKeys_toJson field) hbefore)

end

end Value

section Nesting

variable {s : Schema} {levels : Nat} {shape element : Shape} {v : Value}
  {items fields : List Value} {properties : List Property}

theorem nesting_toJson_of_not_composite (hfits : Fits s shape v)
    (hshape : shape.isComposite = false) : (v.toJson s).nesting = 0 := by
  cases hfits with
  | record | list => cases hshape
  | _ => rfl

/-- A child opens brackets only if it is called for. -/
theorem nesting_toJson_child
    (hcall : ∀ shape v, Fits s shape v → nesting s shape v ≤ levels →
      (v.toJson s).nesting ≤ levels)
    (hfits : Fits s shape v)
    (h : (if shape.isComposite then nesting s shape v else 0) ≤ levels) :
    (v.toJson s).nesting ≤ levels := by
  split at h
  · exact hcall shape v hfits h
  · next hshape =>
    rw [nesting_toJson_of_not_composite hfits (Bool.not_eq_true _ ▸ hshape)]
    exact Nat.zero_le levels

theorem nestingOfMembers_toJson
    (hcall : ∀ shape v, Fits s shape v → nesting s shape v ≤ levels →
      (v.toJson s).nesting ≤ levels)
    (hfits : List.Forall₂ (fun p field => Fits s p.effectiveShape field) properties fields)
    (h : nestingOfMembers s properties fields ≤ levels) :
    Json.nestingOfMembers
      (List.zipWith (fun p field => (p.name, field.toJson s)) properties fields) ≤ levels := by
  induction hfits with
  | nil => exact Nat.zero_le levels
  | cons hfield _ ih =>
    rw [nestingOfMembers, Nat.max_le] at h
    exact Nat.max_le.2 ⟨nesting_toJson_child hcall hfield h.1, ih h.2⟩

theorem nestingOfItems_toJson
    (hcall : ∀ shape v, Fits s shape v → nesting s shape v ≤ levels →
      (v.toJson s).nesting ≤ levels)
    (hfits : ∀ item ∈ items, Fits s element item) (h : nestingOfItems s element items ≤ levels) :
    Json.nestingOfItems (Value.toJsonItems s items) ≤ levels := by
  induction items with
  | nil => exact Nat.zero_le levels
  | cons item items ih =>
    obtain ⟨hitem, hitems⟩ := List.forall_mem_cons.1 hfits
    rw [nestingOfItems, Nat.max_le] at h
    exact Nat.max_le.2 ⟨nesting_toJson_child hcall hitem h.1, ih hitems h.2⟩

/-- Every bracket of a value's JSON is opened by a call of its own. -/
theorem nesting_toJson_le (hfits : Fits s shape v) (h : nesting s shape v ≤ levels) :
    (v.toJson s).nesting ≤ levels := by
  induction levels generalizing shape v with
  | zero => exact absurd h (Nat.not_le.2 (Direct.nesting_pos s shape v))
  | succ levels ih =>
    cases hfits with
    | record hdecl hfields =>
      rw [nesting, Schema.properties_of_type? hdecl] at h
      rw [toJson_record hdecl hfields.length_eq]
      exact Nat.succ_le_succ (nestingOfMembers_toJson (fun _ _ => ih) hfields
        (Nat.le_of_succ_le_succ h))
    | list hitems =>
      rw [nesting] at h
      exact Nat.succ_le_succ (nestingOfItems_toJson (fun _ _ => ih) hitems
        (Nat.le_of_succ_le_succ h))
    | _ => exact Nat.zero_le _

/-- The whole of a wire text is parsed, or refused for its depth. -/
theorem parse_wireText (hfits : Fits s shape v) (hplain : v.Plain) :
    Json.parse (wireText s shape v) =
      if (v.toJson s).nesting ≤ Json.maxNesting then .ok (v.toJson s)
      else .error .recursionLimit := by
  refine Json.parse_eq_of_valueWithin (v.distinctKeys_toJson s) fun levels hnesting => ?_
  have hparse := parses_of_fits hfits hplain hnesting [] (by simp [Json.Number.Stops])
  rwa [List.append_nil] at hparse

end Nesting

namespace Generation

/-- What the parser makes of written text: at most `maxDepth` brackets are open at a time, and the
text is read back as the plain JSON of the value unless that is one more than the parser allows. -/
theorem parse_of_serialize {s : Schema} (options : Options) {shape : Shape} {v : Value}
    {text : String} (hcall : ⟨.serialize, shape⟩ ∈ s.calls)
    (hwarnings : (ofSchema s options).warnings = [])
    (hplain : ∀ content ∈ v.strings, ∀ c ∈ content.toList, Json.IsPlain c)
    (h : (ofSchema s options).codec.serialize shape v = .ok text) :
    (v.toJson s).nesting ≤ maxDepth ∧
      Json.parse text =
        if (v.toJson s).nesting ≤ Json.maxNesting then .ok (v.toJson s)
        else .error .recursionLimit := by
  obtain ⟨hfits, hnesting, rfl⟩ := fits_of_serialize options hcall hwarnings h
  exact ⟨nesting_toJson_le hfits hnesting, parse_wireText hfits hplain⟩

/-- A type whose records hold a list of further ones, and nothing else. -/
def tree : Schema where
  types := [⟨"Node", [⟨"children", .list (.object "Node" false) false, false, false⟩]⟩]
  calls := [⟨.serialize, .object "Node" false⟩]
  valid := by decide +kernel
  nodup := by decide +kernel

theorem parse_of_serialize_tree :
    (ofSchema tree ⟨false⟩).codec.serialize (.object "Node" false) (.record "Node" [.list []]) =
        .ok "\x7b\n\"children\": [\n]\n\x7d" ∧
      Json.parse "\x7b\n\"children\": [\n]\n\x7d" = .ok (.object [("children", .array [])]) := by
  have hwritten : (ofSchema tree ⟨false⟩).codec.serialize (.object "Node" false)
      (.record "Node" [.list []]) = .ok "\x7b\n\"children\": [\n]\n\x7d" := by
    decide +kernel
  have hparse := parse_of_serialize ⟨false⟩ (by simp [tree]) (by decide +kernel)
    (by simp [Value.strings, Value.stringsOfList]) hwritten
  exact ⟨hwritten, hparse.2⟩

/-- A record with so many further ones inside each other. -/
def chain : Nat → Value
  | 0 => .record "Node" [.list []]
  | below + 1 => .record "Node" [.list [chain below]]

theorem strings_chain (n : Nat) : (chain n).strings = [] := by
  induction n with
  | zero => rfl
  | succ n ih => simp [chain, Value.strings, Value.stringsOfList, ih]

theorem fits_chain (n : Nat) : Fits tree (.object "Node" false) (chain n) := by
  induction n with
  | zero => exact .record rfl (.cons (.list (by simp)) .nil)
  | succ n ih => exact .record rfl (.cons (.list (List.forall_mem_singleton.2 ih)) .nil)

/-- Each record takes a call, and so does its list. -/
theorem nesting_chain (n : Nat) : nesting tree (.object "Node" false) (chain n) = 2 * n + 2 := by
  have hproperties : tree.properties "Node" =
    [⟨"children", .list (.object "Node" false) false, false, false⟩] := by decide +kernel
  induction n with
  | zero => decide +kernel
  | succ n ih =>
    simp [chain, nesting, nestingOfMembers, nestingOfItems, hproperties, Property.effectiveShape,
      Shape.withNullable, Shape.isNullable, Shape.isComposite, ih]
    omega

theorem nesting_toJson_chain (n : Nat) : ((chain n).toJson tree).nesting = 2 * n + 2 := by
  induction n with
  | zero => decide +kernel
  | succ n ih =>
    simp [chain, Value.toJson, Value.toJsonMembers, Value.toJsonItems, Json.insertMember,
      Json.nesting, Json.nestingOfMembers, Json.nestingOfItems, ih]
    omega

/-- 64 records inside each other, with their lists, are written, but not parsed. -/
theorem recursionLimit_chain : ∃ text,
    (ofSchema tree ⟨false⟩).codec.serialize (.object "Node" false) (chain 63) = .ok text ∧
      Json.parse text = .error .recursionLimit := by
  have hcall : ⟨.serialize, .object "Node" false⟩ ∈ tree.calls := by simp [tree]
  have href : tree.checkReferences (.object "Node" false) = .ok () := by decide +kernel
  have hbuildable := buildable_of_call ⟨false⟩ hcall href (by decide +kernel)
  refine ⟨wireText tree (.object "Node" false) (chain 63), ?_, ?_⟩
  · rw [serialize_of_call ⟨false⟩ hcall href, Direct.serialize_eq_ok_iff hbuildable, nesting_chain]
    exact ⟨fits_chain 63, by decide, rfl⟩
  · rw [parse_wireText (fits_chain 63) (by simp [Value.Plain, strings_chain]), nesting_toJson_chain]
    rfl

end Generation

end ShapeCodec
