import ShapeCodec.Proofs.Direct.WireReading
import ShapeCodec.Proofs.Json.Keys
import ShapeCodec.Proofs.Json.Parsing
import ShapeCodec.Proofs.Serialization
import ShapeCodec.Value.Json
/-! Wire text is JSON text as long as no string in it needs an escape: the parser reads it as the
plain JSON of the value, to its last character, and the parser is sound. -/
namespace ShapeCodec

namespace Json

variable {c : Char} {text rest blanks content : List Char} {levels : Nat}

section Tokens

theorem nextChar_of_blank (fault : SyntaxError) (hblanks : Blank blanks)
    (hc : Text.isSpace c = false) : nextChar fault (blanks ++ c :: rest) = .ok (c, rest) := by
  have hhead : ∀ d ∈ (c :: rest).head?, Text.isSpace d = false := by simpa using hc
  rw [nextChar, (Consumes.takeWhile_of_span hblanks hhead).2]

theorem stringContent_of_plain (hplain : ∀ c ∈ content, IsPlain c) (bound : Nat)
    (hbound : content.length < bound) :
    stringContent bound (content ++ '"' :: rest) = .ok (content, rest) := by
  induction content generalizing bound with
  | nil =>
    obtain ⟨bound, rfl⟩ := Nat.exists_eq_add_of_lt hbound
    rfl
  | cons c content ih =>
    obtain ⟨bound, rfl⟩ := Nat.exists_eq_add_of_lt hbound
    obtain ⟨⟨hquote, hbackslash, hcontrol⟩, hplain⟩ := List.forall_mem_cons.1 hplain
    have hmore := ih hplain ((c :: content).length + bound) (by simp; omega)
    rw [List.cons_append, stringContent, if_neg hquote, if_neg hbackslash,
      if_neg (Nat.not_lt.2 hcontrol), hmore]
    rfl

theorem stringText_of_plain (hplain : ∀ c ∈ content, IsPlain c) :
    stringText (content ++ '"' :: rest) = .ok (String.ofList content, rest) := by
  rw [stringText, stringContent_of_plain hplain _ (by simp)]
  rfl

theorem head_append_of_blank (hblanks : Blank blanks) : head (blanks ++ text) = head text := by
  simp only [head, nextChar, List.dropWhile_append_of_pos hblanks]

theorem valueWithin_append_of_blank (hblanks : Blank blanks) :
    valueWithin levels (blanks ++ text) = valueWithin levels text := by
  unfold valueWithin
  rw [head_append_of_blank hblanks]

theorem valueWithin_null (levels : Nat) (rest : List Char) :
    valueWithin levels ('n' :: 'u' :: 'l' :: 'l' :: rest) = .ok (.null, rest) := by
  unfold valueWithin
  rfl

theorem valueWithin_string (levels : Nat) (rest : List Char) (hplain : ∀ c ∈ content, IsPlain c) :
    valueWithin levels ('"' :: (content ++ '"' :: rest)) =
      .ok (.string (String.ofList content), rest) := by
  have hhead : head ('"' :: (content ++ '"' :: rest)) =
      (stringText (content ++ '"' :: rest)).map fun answer => (.string answer.1, answer.2) := rfl
  unfold valueWithin
  rw [hhead, stringText_of_plain hplain]
  rfl

theorem head_number (hc : c = '-' ∨ c.isDigit = true) :
    head (c :: text) = (Number.read (c :: text)).map fun (n, rest) => (.number n, rest) := by
  have hspace : Text.isSpace c = false := by
    rcases hc with rfl | hc
    · rfl
    · exact Opens.not_space (.inr hc)
  have hnext : nextChar .eofInValue (c :: text) = .ok (c, text) :=
    nextChar_of_blank _ blank_nil hspace
  rw [head, hnext]
  simp only [bind, Except.bind]
  split
  case h_7 => rw [if_pos hc]
  all_goals exact absurd hc (by decide)

theorem valueWithin_number (levels : Nat) {n : Number} (hc : c = '-' ∨ c.isDigit = true)
    (hread : Number.read (c :: text) = .ok (n, rest)) :
    valueWithin levels (c :: text) = .ok (.number n, rest) := by
  unfold valueWithin
  rw [head_number hc, hread]
  rfl

theorem valueWithin_array {items : List Json}
    (h : arrayItems (valueWithin levels) text.length true text = .ok (items, rest)) :
    valueWithin (levels + 1) ('[' :: text) = .ok (.array items, rest) := by
  have hhead : head ('[' :: text) = .ok (.array, text) := rfl
  unfold valueWithin
  rw [hhead]
  simp only [h]
  rfl

theorem valueWithin_object {members : List (String × Json)}
    (h : objectMembers (valueWithin levels) text.length true text = .ok (members, rest)) :
    valueWithin (levels + 1) ('\x7b' :: text) = .ok (.object members, rest) := by
  have hhead : head ('\x7b' :: text) = .ok (.object, text) := rfl
  unfold valueWithin
  rw [hhead]
  simp only [h]
  rfl

end Tokens

section Lines

variable {first : Bool}

/-- What stands in front of a line of wire text, or of the bracket behind the last. -/
def front (first last : Bool) : List Char :=
  if first then ['\n'] else (Wire.separator last).toList

theorem nextItem_close : nextItem first (front first true ++ ']' :: rest) = .ok (false, rest) := by
  cases first <;> rfl

theorem nextItem_front (hbegins : Begins text) :
    nextItem first (front first false ++ text) = .ok (true, text) := by
  obtain ⟨c, hhead, hopens⟩ := hbegins
  obtain ⟨tail, rfl⟩ : ∃ tail, text = c :: tail := ⟨_, List.eq_cons_of_mem_head? hhead⟩
  have hnext (fault : SyntaxError) : nextChar fault (['\n'] ++ c :: tail) = .ok (c, tail) :=
    nextChar_of_blank fault blank_newline hopens.not_space
  have hclose : c ≠ ']' := hopens.ne (by simp)
  cases first with
  | true =>
    rw [nextItem, front, if_pos rfl, hnext]
    simp only [bind, Except.bind, if_neg hclose, if_true]
  | false =>
    have hcomma : nextChar .eofInArray (front false false ++ c :: tail) =
      .ok (',', ['\n'] ++ c :: tail) := rfl
    rw [nextItem, hcomma]
    simp only [bind, Except.bind, hnext, if_neg hclose]
    rfl

theorem nextKey_close :
    nextKey first (front first true ++ '\x7d' :: rest) = .ok (none, rest) := by
  cases first <;> rfl

theorem nextKey_front (hplain : ∀ c ∈ content, IsPlain c) :
    nextKey first (front first false ++ '"' :: (content ++ '"' :: rest)) =
      .ok (some (String.ofList content), rest) := by
  have hkey : (stringText (content ++ '"' :: rest)).map
      (fun answer => (some answer.1, answer.2)) = .ok (some (String.ofList content), rest) := by
    rw [stringText_of_plain hplain]
    rfl
  cases first <;> exact hkey

end Lines

end Json

section Value

open Json (valueWithin)

variable {s : Schema} {levels : Nat} {shape element : Shape} {v : Value}
  {rest : List Char} {items fields : List Value} {properties : List Property}

/-- No string of the value needs an escape. -/
def Value.Plain (v : Value) : Prop :=
  ∀ text ∈ v.strings, ∀ c ∈ text.toList, Json.IsPlain c

/-- The wire text is parsed as the plain JSON of the value. -/
def Parses (s : Schema) (levels : Nat) (shape : Shape) (v : Value) : Prop :=
  ∀ rest, Json.Number.Stops rest →
    valueWithin levels ((wireText s shape v).toList ++ rest) = .ok (v.toJson s, rest)

theorem stops_front (last : Bool) (rest : List Char) :
    Json.Number.Stops (Json.front false last ++ rest) := by
  cases last <;> simp [Json.front, Wire.separator, Json.Number.Stops] <;> decide

/-- A line with what follows it. -/
theorem lines_cons (line : String) (lines : List String) (last : Bool)
    (hlast : lines.isEmpty = last) (rest : List Char) : (Wire.lines (line :: lines)).toList ++ rest =
      line.toList ++ (Json.front false last ++ ((Wire.lines lines).toList ++ rest)) := by
  simp [Wire.lines, Json.front, hlast]

theorem arrayItems_wireItems (hfits : ∀ item ∈ items, Fits s element item)
    (hparses : ∀ item ∈ items, Parses s levels element item) (first : Bool) (bound : Nat)
    (hbound : items.length < bound) :
    Json.arrayItems (valueWithin levels) bound first (Json.front first items.isEmpty ++
      ((Wire.lines (wireItems s element items)).toList ++ ']' :: rest)) =
        .ok (Value.toJsonItems s items, rest) := by
  induction items generalizing first bound with
  | nil =>
    obtain ⟨bound, rfl⟩ := Nat.exists_eq_add_of_lt hbound
    have hclose : Json.nextItem first (Json.front first true ++
        ((Wire.lines (wireItems s element [])).toList ++ ']' :: rest)) = .ok (false, rest) :=
      Json.nextItem_close
    rw [Json.arrayItems, List.isEmpty_nil, hclose]
    rfl
  | cons item items ih =>
    obtain ⟨bound, rfl⟩ := Nat.exists_eq_add_of_lt hbound
    obtain ⟨hitem, hitems⟩ := List.forall_mem_cons.1 hfits
    obtain ⟨hparse, hparses⟩ := List.forall_mem_cons.1 hparses
    have hlast : (wireItems s element items).isEmpty = items.isEmpty := by
      cases items <;> rfl
    have hmore := ih hitems hparses false ((item :: items).length + bound) (by simp; omega)
    rw [wireItems, lines_cons _ _ _ hlast, List.isEmpty_cons, Json.arrayItems,
      Json.nextItem_front ((Direct.wireText_begins hitem).append _)]
    simp only [bind, Except.bind, hparse _ (stops_front _ _), hmore]
    rfl

/-- A key stands in front of a colon and a space. -/
theorem member_toList (name text : String) (rest : List Char) :
    ("\"" ++ name ++ "\": " ++ text).toList ++ rest =
      '"' :: (name.toList ++ '"' :: ':' :: ([' '] ++ (text.toList ++ rest))) := by
  simp

theorem objectMembers_wireMembers
    (hnames : ∀ p ∈ properties, ∀ c ∈ p.name.toList, Json.IsPlain c)
    (hparses : List.Forall₂ (fun p field => Parses s levels p.effectiveShape field)
      properties fields) (first : Bool) (bound : Nat) (hbound : properties.length < bound) :
    Json.objectMembers (valueWithin levels) bound first (Json.front first properties.isEmpty ++
      ((Wire.lines (wireMembers s properties fields)).toList ++ '\x7d' :: rest)) =
        .ok (List.zipWith (fun p field => (p.name, field.toJson s)) properties fields, rest) := by
  induction hparses generalizing first bound with
  | nil =>
    obtain ⟨bound, rfl⟩ := Nat.exists_eq_add_of_lt hbound
    have hclose : Json.nextKey first (Json.front first true ++
        ((Wire.lines (wireMembers s [] [])).toList ++ '\x7d' :: rest)) = .ok (none, rest) :=
      Json.nextKey_close
    rw [Json.objectMembers, List.isEmpty_nil, hclose]
    rfl
  | @cons p field properties fields hparse hparses ih =>
    obtain ⟨bound, rfl⟩ := Nat.exists_eq_add_of_lt hbound
    obtain ⟨hname, hnames⟩ := List.forall_mem_cons.1 hnames
    have hlast : (wireMembers s properties fields).isEmpty = properties.isEmpty := by
      cases hparses <;> rfl
    have hmore := ih hnames false ((p :: properties).length + bound) (by simp; omega)
    have hcolon (rest : List Char) : Json.colon (':' :: rest) = .ok ((), rest) := rfl
    rw [wireMembers, lines_cons _ _ _ hlast, member_toList, List.isEmpty_cons, Json.objectMembers,
      Json.nextKey_front hname]
    simp only [bind, Except.bind, hcolon, Json.valueWithin_append_of_blank Json.blank_space,
      hparse _ (stops_front _ _), hmore, String.ofList_toList]
    rfl

theorem toJsonMembers_eq {type : String} {decl : Declaration} (hdecl : s.type? type = some decl)
    (done : List Property) (hsplit : decl.properties = done ++ properties)
    (hlength : properties.length = fields.length) (before : List (String × Json))
    (hbefore : before.map Prod.fst = done.map Property.name) :
    Value.toJsonMembers s type done.length before fields =
      before ++ List.zipWith (fun p field => (p.name, field.toJson s)) properties fields := by
  induction fields generalizing properties done before with
  | nil =>
    obtain rfl := List.eq_nil_of_length_eq_zero hlength
    simp [Value.toJsonMembers]
  | cons field fields ih =>
    obtain ⟨p, properties, rfl⟩ := List.exists_cons_of_length_eq_add_one hlength
    have hname : Value.fieldName s type done.length = p.name := by
      simp [Value.fieldName, hdecl, hsplit]
    have hnodup := (s.valid decl (List.mem_of_find?_eq_some hdecl)).nodup
    have hfresh : p.name ∉ before.map Prod.fst := by
      rw [hsplit, List.map_append, List.map_cons, List.nodup_append] at hnodup
      rw [hbefore]
      exact fun hmem => hnodup.2.2 _ hmem _ List.mem_cons_self rfl
    have hmore := ih (done ++ [p]) (by simpa using hsplit) (Nat.succ.inj hlength)
      (before ++ [(p.name, field.toJson s)]) (by simp [hbefore])
    rw [List.length_append, List.length_singleton] at hmore
    rw [Value.toJsonMembers, hname, Json.insertMember_of_notMem hfresh, hmore]
    simp

theorem toJson_record {name : String} {decl : Declaration} (hdecl : s.type? name = some decl)
    (hlength : decl.properties.length = fields.length) :
    (Value.record name fields).toJson s =
      .object (List.zipWith (fun p field => (p.name, field.toJson s)) decl.properties fields) := by
  have hmembers := toJsonMembers_eq hdecl [] (by simp) hlength [] rfl
  rw [List.nil_append, List.length_nil] at hmembers
  rw [Value.toJson, hmembers]

theorem isPlain_of_isNameRest {c : Char} (h : isNameRest c = true) : Json.IsPlain c := by
  refine ⟨?_, ?_, ?_⟩
  · rintro rfl
    exact absurd h (by decide)
  · rintro rfl
    exact absurd h (by decide)
  · change (decide ('A'.val ≤ c.val ∧ c.val ≤ 'Z'.val) || ('a'.val ≤ c.val && c.val ≤ 'z'.val) ||
      ('0'.val ≤ c.val && c.val ≤ '9'.val) || c == '_') = true at h
    simp only [Bool.or_eq_true, Bool.and_eq_true, decide_eq_true_eq, beq_iff_eq] at h
    rcases h with ((⟨h, -⟩ | ⟨h, -⟩) | ⟨h, -⟩) | rfl
    · exact Nat.le_trans (by decide) h
    · exact Nat.le_trans (by decide) h
    · exact Nat.le_trans (by decide) h
    · decide

theorem isPlain_of_isIdentifier {name : String} (h : isIdentifier name = true) :
    ∀ c ∈ name.toList, Json.IsPlain c :=
  fun c hc => isPlain_of_isNameRest (isNameRest_of_isIdentifier h c hc)

theorem toJsonItems_eq_map (s : Schema) (items : List Value) :
    Value.toJsonItems s items = items.map (Value.toJson s) := by
  induction items with
  | nil => rfl
  | cons item items ih => rw [Value.toJsonItems, ih, List.map_cons]

theorem forall₂_parses
    (hparses : ∀ shape v, Fits s shape v → v.Plain → (v.toJson s).nesting ≤ levels →
      Parses s levels shape v)
    (hfits : List.Forall₂ (fun p field => Fits s p.effectiveShape field) properties fields)
    (hplain : ∀ field ∈ fields, field.Plain)
    (hnesting : Json.nestingOfMembers
      (List.zipWith (fun p field => (p.name, field.toJson s)) properties fields) ≤ levels) :
    List.Forall₂ (fun p field => Parses s levels p.effectiveShape field) properties fields := by
  induction hfits with
  | nil => exact .nil
  | cons hfield hfits ih =>
    obtain ⟨hhead, hplain⟩ := List.forall_mem_cons.1 hplain
    rw [List.zipWith_cons_cons, Json.nestingOfMembers, Nat.max_le] at hnesting
    exact .cons (hparses _ _ hfield hhead hnesting.1) (ih hplain hnesting.2)

theorem parses_int (s : Schema) (n : Int64) (levels : Nat) : Parses s levels .int (.int n) := by
  intro rest hstops
  obtain ⟨c, hhead, hc⟩ := Direct.begins_int n
  obtain ⟨tail, htail⟩ : ∃ tail, Decimal.ofInt n.toInt = c :: tail :=
    ⟨_, List.eq_cons_of_mem_head? hhead⟩
  have hread := Json.Number.read_ofInt n hstops
  rw [htail, List.cons_append] at hread
  simpa [wireText, Wire.int, Decimal.text, Value.toJson, htail] using
    Json.valueWithin_number levels hc hread

/-- The parser reads a record one level above its fields. -/
theorem parses_record {name : String} {nullable : Bool} {decl : Declaration}
    (hdecl : s.type? name = some decl)
    (hfields : List.Forall₂ (fun p field => Fits s p.effectiveShape field) decl.properties fields)
    (hparses : List.Forall₂ (fun p field => Parses s levels p.effectiveShape field)
      decl.properties fields) :
    Parses s (levels + 1) (.object name nullable) (.record name fields) := by
  intro rest _
  have hproperties := Schema.properties_of_type? hdecl
  have hvalid := s.valid decl (List.mem_of_find?_eq_some hdecl)
  have htext : (wireText s (.object name nullable) (.record name fields)).toList ++ rest =
      '\x7b' :: (Json.front true decl.properties.isEmpty ++
        ((Wire.lines (wireMembers s decl.properties fields)).toList ++ '\x7d' :: rest)) := by
    simp [wireText, hproperties, Json.front]
  rw [htext, toJson_record hdecl hfields.length_eq]
  refine Json.valueWithin_object (objectMembers_wireMembers
    (fun p hp => isPlain_of_isIdentifier (hvalid.property p hp)) hparses true _ ?_)
  have hlength := Direct.length_le_lines (wireMembers s decl.properties fields)
  rw [Direct.length_wireMembers hfields] at hlength
  simp only [List.length_append, List.length_cons]
  omega

theorem parses_list {nullable : Bool} (hitems : ∀ item ∈ items, Fits s element item)
    (hparses : ∀ item ∈ items, Parses s levels element item) :
    Parses s (levels + 1) (.list element nullable) (.list items) := by
  intro rest _
  have htext : (wireText s (.list element nullable) (.list items)).toList ++ rest =
      '[' :: (Json.front true items.isEmpty ++
        ((Wire.lines (wireItems s element items)).toList ++ ']' :: rest)) := by
    simp [wireText, Json.front]
  rw [htext, Value.toJson]
  refine Json.valueWithin_array (arrayItems_wireItems hitems hparses true _ ?_)
  have hlength := Direct.length_le_lines (wireItems s element items)
  rw [Direct.length_wireItems] at hlength
  simp only [List.length_append, List.length_cons]
  omega

theorem parses_of_fits (hfits : Fits s shape v) (hplain : v.Plain)
    (hnesting : (v.toJson s).nesting ≤ levels) : Parses s levels shape v := by
  induction levels using Nat.strongRecOn generalizing shape v with
  | ind levels ih =>
    cases hfits with
    | @int n => exact parses_int s n levels
    | @string text =>
      intro rest _
      have htext := hplain text (by simp [Value.strings])
      simpa [wireText, Wire.str, Value.toJson] using
        Json.valueWithin_string levels rest htext
    | @record name nullable decl fields hdecl hfields =>
      rw [toJson_record hdecl hfields.length_eq] at hnesting
      obtain ⟨below, rfl⟩ : ∃ below, levels = below + 1 := ⟨levels - 1, by
        rw [Json.nesting] at hnesting
        omega⟩
      have hparses := forall₂_parses (fun _ _ => ih below (Nat.lt_succ_self below)) hfields
        (Value.forall_strings_record.1 hplain) (Nat.le_of_succ_le_succ hnesting)
      exact parses_record hdecl hfields hparses
    | @list element nullable items hitems =>
      rw [Value.toJson] at hnesting
      obtain ⟨below, rfl⟩ : ∃ below, levels = below + 1 := ⟨levels - 1, by
        rw [Json.nesting] at hnesting
        omega⟩
      have hbelow := Json.nestingOfItems_le.1 (Nat.le_of_succ_le_succ hnesting)
      rw [toJsonItems_eq_map, List.forall_mem_map] at hbelow
      have hparses : ∀ item ∈ items, Parses s below element item := fun item hitem =>
        ih below (Nat.lt_succ_self below) (hitems item hitem)
          (Value.forall_strings_list.1 hplain item hitem) (hbelow item hitem)
      exact parses_list hitems hparses
    | _ =>
      intro rest _
      simpa [wireText, Wire.str, Value.toJson] using Json.valueWithin_null levels rest

/-- The parser takes the whole of a wire text, which makes it a document. -/
theorem document_wireText (hfits : Fits s shape v) (hplain : v.Plain) :
    Json.Document (v.toJson s) (wireText s shape v).toList := by
  have hparse := parses_of_fits hfits hplain (Nat.le_refl _) [] (by simp [Json.Number.Stops])
  rw [List.append_nil] at hparse
  obtain ⟨lead, body, htext, hlead, hbody, -⟩ := Json.valueWithin_sound _ _ _ _ hparse
  exact ⟨lead, body, [], htext, hlead, hbody, Json.blank_nil⟩

end Value

namespace Generation

/-- Written text is a JSON document for the plain JSON of the value, unless a string in it needs an
escape, and the parser reads it as that if it may nest as deeply. -/
theorem serialize_document {s : Schema} (options : Options) {shape : Shape} {v : Value}
    {text : String} (hcall : ⟨.serialize, shape⟩ ∈ s.calls)
    (hwarnings : (ofSchema s options).warnings = [])
    (hplain : ∀ content ∈ v.strings, ∀ c ∈ content.toList, Json.IsPlain c)
    (h : (ofSchema s options).codec.serialize shape v = .ok text) :
    Json.Document (v.toJson s) text.toList ∧
      ∀ levels, (v.toJson s).nesting ≤ levels →
        Json.valueWithin levels text.toList = .ok (v.toJson s, []) := by
  obtain ⟨hfits, rfl⟩ := wireText_of_serialize options hcall hwarnings h
  refine ⟨document_wireText hfits hplain, fun levels hnesting => ?_⟩
  have hparse := parses_of_fits hfits hplain hnesting [] (by simp [Json.Number.Stops])
  rwa [List.append_nil] at hparse

theorem serialize_document_family :
    Json.Document (.object [("name", .string "], null"), ("age", .number (.integer (-3))),
        ("mother", .null), ("pets", .array [.string "Rex"])])
      "\x7b\n\"name\": \"], null\",\n\"age\": -3,\n\"mother\": null,\n\"pets\": [\n\"Rex\"\n]\n\x7d".toList := by
  have hwritten : (ofSchema .family ⟨false⟩).codec.serialize (.object "Person" false)
      (.record "Person" [.str "], null", .int (-3), .null, .list [.str "Rex"]]) =
        .ok "\x7b\n\"name\": \"], null\",\n\"age\": -3,\n\"mother\": null,\n\"pets\": [\n\"Rex\"\n]\n\x7d" := by
    decide +kernel
  have hdocument := serialize_document ⟨false⟩ (by simp [Schema.family]) (by decide +kernel)
    (by simp [Value.strings, Value.stringsOfList, Json.IsPlain]) hwritten
  exact hdocument.1

end Generation

end ShapeCodec
