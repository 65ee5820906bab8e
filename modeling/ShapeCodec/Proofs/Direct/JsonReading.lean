import ShapeCodec.Proofs.Direct.WireReading
import ShapeCodec.Proofs.Json.Keys
import ShapeCodec.Proofs.Skipping
import ShapeCodec.Value.Json
/-! Reading JSON text straight from the schema. Text without escapes and repeated keys is read as
the value that its JSON value stands for, if it stands for one: members may come in any order, with
others between them, and nullable ones may be missing. -/
namespace ShapeCodec

namespace Value

variable {s : Schema} {json : Json} {v : Value} {element : Shape} {name : String} {nullable : Bool}
  {members : List (String × Json)} {items : List Json} {values : List Value}

theorem ofJson_int (h : ofJson s json .int = .ok v) :
    ∃ k, json = .number (.integer k) ∧ Scan.inRange k = true ∧ v = .int (Int64.ofInt k) := by
  cases json with
  | number n =>
    cases n with
    | integer k =>
      simp only [ofJson, ofNumber] at h
      split at h
      · next hrange =>
        cases h
        exact ⟨k, rfl, hrange, rfl⟩
      · cases h
    | float x => simp [ofJson, ofNumber] at h
  | _ => simp [ofJson, ofMissing, Shape.isNullable] at h

theorem ofJson_string (h : ofJson s json .string = .ok v) :
    json = .null ∧ v = .null ∨ ∃ text, json = .string text ∧ v = .str text := by
  cases json with
  | null =>
    simp only [ofJson, ofMissing, Shape.isNullable, if_true, Except.ok.injEq] at h
    exact .inl ⟨rfl, h.symm⟩
  | string text =>
    simp only [ofJson, Except.ok.injEq] at h
    exact .inr ⟨text, rfl, h.symm⟩
  | _ => simp [ofJson] at h

theorem ofMissing_eq_ok {shape : Shape} (h : ofMissing shape = .ok v) :
    shape.isNullable = true ∧ v = .null := by
  unfold ofMissing at h
  split at h
  · next hnullable =>
    cases h
    exact ⟨hnullable, rfl⟩
  · cases h

theorem forall₂_of_ofItems (h : ofItems s items element = .ok values) :
    List.Forall₂ (fun item value => ofJson s item element = .ok value) items values := by
  induction items generalizing values with
  | nil =>
    cases h
    exact .nil
  | cons item items ih =>
    rw [ofItems, Json.bind_eq_ok_iff] at h
    obtain ⟨value, hvalue, h⟩ := h
    rw [Json.bind_eq_ok_iff] at h
    obtain ⟨rest, hrest, h⟩ := h
    cases h
    exact .cons hvalue (ih hrest)

theorem ofJson_list (h : ofJson s json (.list element nullable) = .ok v) :
    json = .null ∧ nullable = true ∧ v = .null ∨
      ∃ items values, json = .array items ∧ v = .list values ∧
        List.Forall₂ (fun item value => ofJson s item element = .ok value) items values := by
  cases json with
  | null =>
    rw [ofJson] at h
    obtain ⟨hnullable, rfl⟩ := ofMissing_eq_ok h
    exact .inl ⟨rfl, hnullable, rfl⟩
  | array items =>
    rw [ofJson, Json.map_eq_ok_iff] at h
    obtain ⟨values, hvalues, rfl⟩ := h
    exact .inr ⟨items, values, rfl, rfl, forall₂_of_ofItems hvalues⟩
  | _ => simp [ofJson] at h

theorem lookup_ofMembers (s : Schema) (members : List (String × Json)) (key : String) :
    (ofMembers s members).lookup key =
      (members.lookup key).map fun json shape => ofJson s json shape := by
  induction members with
  | nil => rfl
  | cons member members ih =>
    obtain ⟨other, json⟩ := member
    rw [ofMembers, List.lookup_cons, List.lookup_cons]
    split
    · rfl
    · exact ih

/-- The field of a property: the member of its name, or null if there is none. -/
def FieldOf (s : Schema) (members : List (String × Json)) (p : Property) (field : Value) : Prop :=
  (∃ json, members.lookup p.name = some json ∧ ofJson s json p.effectiveShape = .ok field) ∨
    members.lookup p.name = none ∧ p.effectiveShape.isNullable = true ∧ field = .null

theorem ofJson_object (h : ofJson s json (.object name nullable) = .ok v) :
    json = .null ∧ nullable = true ∧ v = .null ∨
      ∃ members decl fields, json = .object members ∧ s.type? name = some decl ∧
        v = .record name fields ∧ List.Forall₂ (FieldOf s members) decl.properties fields := by
  cases json with
  | null =>
    rw [ofJson] at h
    obtain ⟨hnullable, rfl⟩ := ofMissing_eq_ok h
    exact .inl ⟨rfl, hnullable, rfl⟩
  | object members =>
    rw [ofJson] at h
    split at h
    · cases h
    · next decl hdecl =>
      rw [Json.map_eq_ok_iff] at h
      obtain ⟨fields, hfields, rfl⟩ := h
      refine .inr ⟨members, decl, fields, rfl, hdecl, rfl, (forall₂_of_mapM hfields).imp ?_⟩
      intro p field hfield
      rw [lookup_ofMembers] at hfield
      cases hlookup : members.lookup p.name with
      | some json => exact .inl ⟨json, hlookup, by simpa [hlookup] using hfield⟩
      | none => exact .inr ⟨hlookup, ofMissing_eq_ok (by simpa [hlookup] using hfield)⟩
  | _ => simp [ofJson] at h

end Value

namespace Direct

open Json (Blank Begins Opening Member Denotes)

/-- The text is a value without escapes and repeated keys, nested at most `levels` deep. -/
structure Clear (levels : Nat) (json : Json) (text : List Char) : Prop where
  denotes : Denotes json text
  escapeless : '\\' ∉ text
  distinct : json.DistinctKeys
  nesting : json.nesting ≤ levels

/-- A member whose key has no escapes and whose value is clear. -/
def ClearMember (levels : Nat) (member : String × Json) (text : List Char) : Prop :=
  Member (Clear levels) member text ∧ '\\' ∉ text

section Clear

variable {levels : Nat} {first : Bool} {text : List Char} {items : List Json}
  {members : List (String × Json)}

theorem clear_items (h : Json.Entries Denotes first items text) (hescape : '\\' ∉ text)
    (hdistinct : Json.DistinctKeysInItems items) (hnesting : Json.nestingOfItems items ≤ levels) :
    Json.Entries (Clear levels) first items text := by
  induction h with
  | nil hblanks => exact .nil hblanks
  | cons hopening hbody _ ih =>
    simp only [List.mem_append, not_or] at hescape
    rw [Json.nestingOfItems, Nat.max_le] at hnesting
    exact .cons hopening ⟨hbody, hescape.2.1, hdistinct.1, hnesting.1⟩
      (ih hescape.2.2 hdistinct.2 hnesting.2)

theorem clear_members (h : Json.Entries (Member Denotes) first members text) (hescape : '\\' ∉ text)
    (hdistinct : Json.DistinctKeysInMembers members)
    (hnesting : Json.nestingOfMembers members ≤ levels) :
    Json.Entries (ClearMember levels) first members text := by
  induction h with
  | nil hblanks => exact .nil hblanks
  | cons hopening hbody _ ih =>
    cases hbody with
    | mk hname hblanks hlead hvalue =>
      simp only [List.mem_append, not_or] at hescape
      rw [Json.nestingOfMembers, Nat.max_le] at hnesting
      have hmember := hescape.2.1
      simp only [List.mem_cons, List.mem_append, not_or] at hmember
      exact .cons hopening ⟨.mk hname hblanks hlead
        ⟨hvalue, hmember.2.2.2.2.2.2, hdistinct.1, hnesting.1⟩, hescape.2.1⟩
        (ih hescape.2.2 hdistinct.2 hnesting.2)

theorem Clear.array (h : Clear levels (.array items) text) : ∃ below inner, levels = below + 1 ∧
    text = '[' :: (inner ++ [']']) ∧ Json.Entries (Clear below) true items inner := by
  obtain ⟨hdenotes, hescape, hdistinct, hnesting⟩ := h
  cases hdenotes with
  | @array _ inner hitems =>
    obtain ⟨below, rfl⟩ := Nat.exists_eq_add_of_le' (Nat.le_of_add_left_le hnesting)
    simp only [List.mem_cons, List.mem_append, not_or] at hescape
    exact ⟨below, inner, rfl, rfl, clear_items hitems hescape.2.1 hdistinct
      (Nat.le_of_succ_le_succ hnesting)⟩

theorem Clear.object (h : Clear levels (.object members) text) : ∃ below inner,
    levels = below + 1 ∧ text = '\x7b' :: (inner ++ ['\x7d']) ∧
      (members.map Prod.fst).Nodup ∧ Json.Entries (ClearMember below) true members inner := by
  obtain ⟨hdenotes, hescape, hdistinct, hnesting⟩ := h
  cases hdenotes with
  | @object _ inner hmembers =>
    obtain ⟨below, rfl⟩ := Nat.exists_eq_add_of_le' (Nat.le_of_add_left_le hnesting)
    simp only [List.mem_cons, List.mem_append, not_or] at hescape
    exact ⟨below, inner, rfl, rfl, hdistinct.1, clear_members hmembers hescape.2.1 hdistinct.2
      (Nat.le_of_succ_le_succ hnesting)⟩

end Clear

section Loop

variable {α β γ : Type} {entry : Reading β} {more : β → Reading α} {next : Reading α} {x : β}
  {finish b : α} {e : γ → List Char → Prop} {as : List γ} {lead text tail rest : List Char}
  {close : Char} {first : Bool}

theorem stops_entries (h : Json.Entries e false as tail) (hclose : close ∈ ['\x7d', ']'])
    (rest : List Char) : Json.Number.Stops (tail ++ close :: rest) := by
  cases h with
  | nil hblanks =>
    refine Json.Number.stops_blank hblanks ?_
    simp only [List.mem_cons, List.not_mem_nil, or_false] at hclose
    rcases hclose with rfl | rfl <;> simp [Json.Number.Stops] <;> decide
  | @cons _ _ body behind _ _ hopening _ _ =>
    cases hopening with
    | @later blanks lead hblanks _ =>
      have hcomma : Json.Number.Stops (',' :: (lead ++ (body ++ behind) ++ close :: rest)) := by
        simp [Json.Number.Stops]
        decide
      simpa using Json.Number.stops_blank hblanks hcomma

/-- Behind an entry the loop steps over a comma, and then stands where it would in front of a first
entry. -/
theorem behind_consumes (h : Json.Entries e false as tail) (hclose : close ∈ ['\x7d', ']'])
    (hnext : ∀ after, Json.Entries e true as after → Consumes next (after ++ [close]) rest b) :
    Consumes (do Scan.skipWhitespace; discard (Scan.tryChar ','); next : Reading α)
      (tail ++ [close]) rest b := by
  cases h with
  | nil hblanks =>
    have hspace : Text.isSpace close = false ∧ close ≠ ',' := by
      simp only [List.mem_cons, List.not_mem_nil, or_false] at hclose
      rcases hclose with rfl | rfl <;> decide
    have hskip : Consumes Scan.skipWhitespace tail ([close] ++ rest) () :=
      Consumes.skipWhitespace hblanks (by simpa using hspace.1)
    have hmiss : Consumes (Scan.tryChar ',') [] ([close] ++ rest) false :=
      Consumes.tryChar_miss (by simpa using hspace.2)
    refine hskip.lift.seq ?_
    refine hmiss.lift.discard.seq_nil ?_
    exact hnext [] (.nil Json.blank_nil)
  | @cons _ _ body behind _ _ hopening hbody hbehind =>
    cases hopening with
    | @later blanks lead hblanks hlead =>
      have htext : blanks ++ ',' :: lead ++ (body ++ behind) ++ [close] =
          blanks ++ ([','] ++ (lead ++ (body ++ behind) ++ [close])) := by
        simp
      have hskip : Consumes Scan.skipWhitespace blanks
          ([','] ++ (lead ++ (body ++ behind) ++ [close]) ++ rest) () :=
        Consumes.skipWhitespace hblanks (by simp [Text.isSpace])
      rw [htext]
      refine hskip.lift.seq ?_
      refine (Consumes.tryChar ',' _).lift.discard.seq ?_
      exact hnext _ (.cons (.first hlead) hbody hbehind)

/-- A round of the loop takes the first entry and goes on with the others. -/
theorem entry_consumes (hlead : Blank lead) (hbegins : Begins text)
    (htail : Json.Entries e false as tail) (hclose : close ∈ ['\x7d', ']'])
    (hentry : ∀ rest, Json.Number.Stops rest → Consumes entry text rest x)
    (hmore : ∀ after, Json.Entries e true as after →
      Consumes (more x) (after ++ [close]) rest b) :
    Consumes (round close finish entry more) (lead ++ (text ++ tail) ++ [close]) rest b := by
  have hstops := stops_entries htail hclose rest
  have hbehind := behind_consumes htail hclose hmore
  rw [List.append_assoc, List.append_assoc]
  refine round_consumes hbegins hclose (hentry _ ?_) hbehind hlead
  simpa using hstops

theorem length_le_of_entries (h : Json.Entries e first as text)
    (hentry : ∀ a body, e a body → Begins body) : as.length ≤ text.length := by
  induction h with
  | nil => simp
  | cons _ hbody _ ih =>
    have hpos := List.length_pos_of_ne_nil (hentry _ _ hbody).ne_nil
    simp only [List.length_cons, List.length_append]
    omega

end Loop

section Child

variable {s : Schema} {levels : Nat} {read : Shape → Reading Value} {shape : Shape}
  {text rest : List Char} {k : Int}

/-- Clear text is read as the value that its JSON value stands for. -/
def Understands (s : Schema) (levels : Nat) (read : Shape → Reading Value) (shape : Shape) : Prop :=
  ∀ json text lead rest v, Clear levels json text → Value.ofJson s json shape = .ok v →
    Blank lead → Json.Number.Stops rest → Consumes (read shape) (lead ++ text) rest v

theorem readInt_consumes (h : Json.Number.Denotes (.integer k) text)
    (hrange : Scan.inRange k = true) (hstops : Json.Number.Stops rest) :
    Consumes Scan.readInt text rest (Int64.ofInt k) := by
  cases h with
  | @integer negative whole hwhole hheld =>
    obtain ⟨c, run, rfl⟩ := List.exists_cons_of_ne_nil hwhole.1.1
    refine Consumes.readInt_run ?_ hwhole.1.2 hstops.not_digit hrange
    cases negative with
    | true => exact Consumes.tryChar '-' _
    | false =>
      refine Consumes.tryChar_miss ?_
      rintro _ ⟨⟩ rfl
      exact absurd (hwhole.1.2 '-' List.mem_cons_self) (by decide)

theorem readChild_understands (hbuildable : Buildable s .deserialize shape)
    (hread : shape.isComposite = true → Understands s levels read shape) :
    Understands s levels (readChild read) shape := by
  intro json text lead rest v hclear hv hlead hstops
  have hbegins := hclear.denotes.begins
  have hskip : Consumes Scan.skipWhitespace lead (text ++ rest) () :=
    Consumes.skipWhitespace hlead ((hbegins.append rest).forall fun c hc => hc.not_space)
  refine hskip.lift.seq ?_
  cases shape with
  | int =>
    obtain ⟨k, rfl, hrange, rfl⟩ := Value.ofJson_int hv
    cases hclear.denotes with
    | number hnumber =>
      obtain ⟨c, tail, rfl, hc⟩ := hnumber.isNumeral.starts
      have hnull : ∀ d ∈ (c :: tail ++ rest).head?, d ≠ 'n' := by
        rintro _ ⟨⟩ rfl
        exact absurd hc (by decide)
      exact notNull_consumes hnull (readInt_consumes hnumber hrange hstops).lift.map
  | string =>
    rcases Value.ofJson_string hv with ⟨rfl, rfl⟩ | ⟨content, rfl, rfl⟩
    · cases hclear.denotes with
      | null => exact null_consumes (Consumes.nothing _ rest)
    · obtain ⟨hdenotes, hescape, -, -⟩ := hclear
      cases hdenotes with
      | string hcontent =>
        simp only [List.mem_cons, List.mem_append, not_or] at hescape
        obtain ⟨rfl, hplain⟩ := hcontent.eq_text hescape.2.1
        have hquote := Json.quote_notMem_of_plain hplain
        exact notNull_consumes (by simp) (Consumes.readString hquote rest).lift.map
  | unsupported text => exact hbuildable.not_unsupported.elim
  | object name nullable => exact hread rfl json text [] rest v hclear hv Json.blank_nil hstops
  | list element nullable => exact hread rfl json text [] rest v hclear hv Json.blank_nil hstops

end Child

section Members

variable {s : Schema} {levels : Nat} {read : Shape → Reading Value} {properties : List Property}
  {fields slots : List Value} {members : List (String × Json)} {text rest : List Char}

/-- An object under way: the slots of properties that are not named any more have their fields, and
every other property is named by a member that stands for its field. -/
structure Filling (s : Schema) (properties : List Property) (fields slots : List Value)
    (members : List (String × Json)) : Prop where
  length : slots.length = fields.length
  settled : ∀ (i : Nat) (p : Property), properties[i]? = some p →
    p.name ∉ members.map Prod.fst → slots[i]? = fields[i]?
  named : ∀ member ∈ members, ∀ (i : Nat) (p : Property), properties[i]? = some p →
    p.name = member.1 →
      ∃ field, fields[i]? = some field ∧ Value.ofJson s member.2 p.effectiveShape = .ok field

theorem lookup_of_mem (hnodup : (members.map Prod.fst).Nodup) {member : String × Json}
    (h : member ∈ members) : members.lookup member.1 = some member.2 := by
  induction members with
  | nil => simp at h
  | cons other members ih =>
    rw [List.map_cons, List.nodup_cons] at hnodup
    rw [List.lookup_cons]
    rcases List.mem_cons.1 h with rfl | h
    · simp
    · have hne : (member.1 == other.1) = false :=
        beq_eq_false_iff_ne.2 fun heq => hnodup.1 (heq ▸ List.mem_map_of_mem h)
      rw [hne]
      exact ih hnodup.2 h

theorem filling_defaults (hnodup : (members.map Prod.fst).Nodup)
    (hfields : List.Forall₂ (Value.FieldOf s members) properties fields) :
    Filling s properties fields (defaults s properties) members where
  length := by simp [defaults, hfields.length_eq]
  settled i p hp hname := by
    obtain ⟨field, hfield, hfieldOf⟩ := getElem?_of_forall₂ hfields hp
    rcases hfieldOf with ⟨json, hlookup, -⟩ | ⟨-, hnullable, rfl⟩
    · obtain ⟨before, after, rfl, -⟩ := List.lookup_eq_some_iff.1 hlookup
      simp at hname
    · have hdefault : s.defaultValue p.effectiveShape = .ok .null :=
        Schema.defaultWithin_nullable hnullable
      simp [defaults, hp, hfield, Generation.Progress.blankValue, hdefault]
  named member hmember i p hp hname := by
    obtain ⟨field, hfield, hfieldOf⟩ := getElem?_of_forall₂ hfields hp
    refine ⟨field, hfield, ?_⟩
    have hmember := lookup_of_mem hnodup hmember
    rw [← hname] at hmember
    rcases hfieldOf with ⟨json, hlookup, hjson⟩ | ⟨hlookup, -⟩
    · rw [Option.some.inj (hmember.symm.trans hlookup)]
      exact hjson
    · cases hmember.symm.trans hlookup

theorem Filling.eq_fields (h : Filling s properties fields slots [])
    (hlength : properties.length = fields.length) : slots = fields := by
  refine List.ext_getElem? fun i => ?_
  cases hp : properties[i]? with
  | some p => exact h.settled i p hp (by simp)
  | none =>
    have hslots := h.length
    rw [List.getElem?_eq_none_iff] at hp
    rw [List.getElem?_eq_none (by omega), List.getElem?_eq_none (by omega)]

theorem mem_of_find?_zipIdx {name : String} {p : Property} {slot : Nat}
    (h : properties.zipIdx.find? (fun entry => entry.1.name = name) = some (p, slot)) :
    properties[slot]? = some p ∧ p.name = name :=
  ⟨List.mk_mem_zipIdx_iff_getElem?.1 (List.mem_of_find?_eq_some h), by
    simpa using List.find?_some h⟩

theorem Filling.set {member : String × Json} {p : Property} {slot : Nat} {field : Value}
    (h : Filling s properties fields slots (member :: members))
    (hnodup : (properties.map Property.name).Nodup) (hslot : properties[slot]? = some p)
    (hname : p.name = member.1) (hfield : fields[slot]? = some field) :
    Filling s properties fields (slots.set slot field) members where
  length := by rw [List.length_set, h.length]
  settled i q hq hnot := by
    by_cases heq : i = slot
    · subst heq
      have hlt : i < slots.length := h.length ▸ (List.getElem?_eq_some_iff.1 hfield).1
      rw [List.getElem?_set_self hlt, hfield]
    · rw [List.getElem?_set_ne (Ne.symm heq)]
      refine h.settled i q hq ?_
      rw [List.map_cons, List.mem_cons, not_or]
      refine ⟨fun hsame => heq ?_, hnot⟩
      have hi : (properties.map Property.name)[i]? = some q.name := by simp [hq]
      have hs : (properties.map Property.name)[slot]? = some p.name := by simp [hslot]
      have hlt := (List.getElem?_eq_some_iff.1 hi).1
      exact (List.getElem?_inj hlt hnodup).1 (by rw [hi, hs, hsame, hname])
  named other hother := h.named other (List.mem_cons_of_mem member hother)

theorem Filling.skip {member : String × Json}
    (h : Filling s properties fields slots (member :: members))
    (hname : ∀ p ∈ properties, p.name ≠ member.1) : Filling s properties fields slots members where
  length := h.length
  settled i p hp hnot := by
    refine h.settled i p hp ?_
    rw [List.map_cons, List.mem_cons, not_or]
    exact ⟨hname p (List.mem_of_getElem? hp), hnot⟩
  named other hother := h.named other (List.mem_cons_of_mem member hother)

/-- A member goes into the slot of its property, or is skipped if no property has its name. -/
theorem readMember_fills (hnodup : (properties.map Property.name).Nodup)
    (hchild : ∀ p ∈ properties, Understands s levels (readChild read) p.effectiveShape)
    {member : String × Json} (hfilling : Filling s properties fields slots (member :: members))
    (hmember : ClearMember levels member text) :
    ∃ slots', Filling s properties fields slots' members ∧
      ∀ rest, Json.Number.Stops rest →
        Consumes (readMember read properties slots) text rest slots' := by
  obtain ⟨hmember, hescape⟩ := hmember
  cases hmember with
  | @mk key name blanks lead body json hname hblanks hlead hclear =>
    simp only [List.mem_cons, List.mem_append, not_or] at hescape
    obtain ⟨rfl, hplain⟩ := hname.eq_text hescape.2.1
    have hquote := Json.quote_notMem_of_plain hplain
    cases hfind : properties.zipIdx.find? fun entry => entry.1.name = String.ofList key with
    | some entry =>
      obtain ⟨p, slot⟩ := entry
      obtain ⟨hslot, hname⟩ := mem_of_find?_zipIdx hfind
      obtain ⟨field, hfield, hjson⟩ := hfilling.named _ List.mem_cons_self slot p hslot hname
      refine ⟨_, hfilling.set hnodup hslot hname hfield, fun rest hstops => ?_⟩
      refine key_consumes hquote hblanks ?_
      rw [hfind]
      exact (hchild p (List.mem_of_getElem? hslot) _ _ _ rest _ hclear hjson hlead hstops).map
    | none =>
      have hnone : ∀ p ∈ properties, p.name ≠ String.ofList key := by
        intro p hp heq
        obtain ⟨slot, hslot⟩ := List.getElem?_of_mem hp
        have hmem := List.mk_mem_zipIdx_iff_getElem?.2 hslot
        simpa [heq] using List.find?_eq_none.1 hfind _ hmem
      refine ⟨slots, hfilling.skip hnone, fun rest hstops => ?_⟩
      refine key_consumes hquote hblanks ?_
      rw [hfind]
      have hescape := Json.escapesQuote_of_notMem hclear.escapeless
      have hskip := skipValue_consumes hclear.denotes.valueText hescape hlead fun _ => hstops
      rw [← List.append_nil (lead ++ body)]
      exact hskip.lift.seq (Consumes.nothing slots rest)

theorem begins_member {value : Json → List Char → Prop} {member : String × Json}
    (h : Member value member text) : Begins text := by
  cases h
  exact ⟨'"', rfl, .inl (by decide)⟩

theorem readMembers_fills (hnodup : (properties.map Property.name).Nodup)
    (hchild : ∀ p ∈ properties, Understands s levels (readChild read) p.effectiveShape)
    (hlength : properties.length = fields.length)
    (hfilling : Filling s properties fields slots members)
    (h : Json.Entries (ClearMember levels) true members text) (bound : Nat)
    (hbound : members.length < bound) :
    Consumes (readMembers read properties bound slots) (text ++ ['\x7d']) rest fields := by
  induction members generalizing text slots bound with
  | nil =>
    obtain ⟨bound, rfl⟩ := Nat.exists_eq_add_of_lt hbound
    cases h with
    | nil hblanks =>
      rw [hfilling.eq_fields hlength]
      exact close_consumes hblanks (by decide)
  | cons member members ih =>
    obtain ⟨bound, rfl⟩ := Nat.exists_eq_add_of_lt hbound
    cases h with
    | cons hopening hmember htail =>
      cases hopening with
      | first hlead =>
        obtain ⟨slots', hfilling, hread⟩ := readMember_fills hnodup hchild hfilling hmember
        exact entry_consumes hlead (begins_member hmember.1) htail (by decide) hread
          fun after hafter => ih hfilling hafter _ (by simp; omega)

end Members

section Items

variable {s : Schema} {levels : Nat} {read : Shape → Reading Value} {element : Shape}
  {items : List Json} {values : List Value} {text rest : List Char}

theorem readItems_understands (hchild : Understands s levels (readChild read) element)
    (hvalues : List.Forall₂ (fun item value => Value.ofJson s item element = .ok value)
      items values)
    (h : Json.Entries (Clear levels) true items text) (bound : Nat)
    (hbound : items.length < bound) :
    Consumes (readItems read element bound) (text ++ [']']) rest values := by
  induction hvalues generalizing text bound with
  | nil =>
    obtain ⟨bound, rfl⟩ := Nat.exists_eq_add_of_lt hbound
    cases h with
    | nil hblanks => exact close_consumes hblanks (by decide)
  | cons hvalue _ ih =>
    obtain ⟨bound, rfl⟩ := Nat.exists_eq_add_of_lt hbound
    cases h with
    | cons hopening hitem htail =>
      cases hopening with
      | first hlead =>
        exact entry_consumes hlead hitem.denotes.begins htail (by decide)
          (fun rest hstops => hchild _ _ [] rest _ hitem hvalue Json.blank_nil hstops)
          fun after hafter => (ih hafter _ (by simp; omega)).map

end Items

section Value

variable {s : Schema} {levels : Nat} {read : Shape → Reading Value} {shape : Shape}

/-- The reader of an array or object reads what is below it with one level less. -/
theorem readValue_understands (hbuildable : Buildable s .deserialize shape)
    (hread : ∀ below child, levels = below + 1 → Buildable s .deserialize child →
      Understands s below read child)
    {json : Json} {text rest : List Char} {v : Value} (hclear : Clear levels json text)
    (hv : Value.ofJson s json shape = .ok v) (hstops : Json.Number.Stops rest) :
    Consumes (readValue s read shape) text rest v := by
  have hchild {below : Nat} {child : Shape} (hlevels : levels = below + 1)
      (hchild : Buildable s .deserialize child) : Understands s below (readChild read) child :=
    readChild_understands hchild fun _ => hread below child hlevels hchild
  have hscalar (h : shape.isComposite = false) : Consumes (readChild read shape) text rest v :=
    readChild_understands hbuildable (fun hcomposite => by simp [h] at hcomposite)
      json text [] rest v hclear hv Json.blank_nil hstops
  cases shape with
  | object name nullable =>
    obtain ⟨rfl, rfl, rfl⟩ | ⟨members, decl, fields, rfl, hdecl, rfl, hfields⟩ :=
      Value.ofJson_object hv
    · cases hclear.denotes with
      | null => exact null_consumes (Consumes.nothing Value.null rest)
    · obtain ⟨below, inner, hlevels, rfl, hkeys, hmembers⟩ := hclear.object
      have hproperties := Schema.properties_of_type? hdecl
      have hvalid := s.valid decl (List.mem_of_find?_eq_some hdecl)
      have htext : '\x7b' :: (inner ++ ['\x7d']) = ['\x7b'] ++ (inner ++ ['\x7d']) := rfl
      simp only [readValue, hproperties]
      rw [htext]
      refine notNull_consumes (by simp) ?_
      refine (Consumes.expect '\x7b' _).lift.seq ?_
      refine Consumes.get_bind fun c hc => Consumes.map ?_
      have hcount := length_le_of_entries hmembers fun _ _ h => begins_member h.1
      have hbound : members.length < c.rest.length := by
        simp only [hc, List.length_append, List.length_cons]
        omega
      exact readMembers_fills hvalid.nodup
        (fun p hp => hchild hlevels (hbuildable.property (hproperties ▸ hp))) hfields.length_eq
        (filling_defaults hkeys hfields) hmembers _ hbound
  | list element nullable =>
    rcases Value.ofJson_list hv with ⟨rfl, rfl, rfl⟩ | ⟨items, values, rfl, rfl, hvalues⟩
    · cases hclear.denotes with
      | null => exact null_consumes (Consumes.nothing Value.null rest)
    · obtain ⟨below, inner, hlevels, rfl, hitems⟩ := hclear.array
      have htext : '[' :: (inner ++ [']']) = ['['] ++ (inner ++ [']']) := rfl
      simp only [readValue]
      rw [htext]
      refine notNull_consumes (by simp) ?_
      refine (Consumes.expect '[' _).lift.seq ?_
      refine Consumes.get_bind fun c hc => Consumes.map ?_
      have hcount := length_le_of_entries hitems fun _ _ h => h.denotes.begins
      have hbound : items.length < c.rest.length := by
        simp only [hc, List.length_append, List.length_cons]
        omega
      exact readItems_understands (hchild hlevels hbuildable.element) hvalues hitems _ hbound
  | _ => exact hscalar rfl

/-- Every nested value takes one level, and so does a null that is read by a routine of its own,
below the last nested one. -/
theorem read_understands (hbuildable : Buildable s .deserialize shape) (levels : Nat) :
    Understands s levels (Direct.read s (levels + 1)) shape := by
  induction levels using Nat.strongRecOn generalizing shape with
  | ind levels ih =>
    intro json text lead rest v hclear hv hlead hstops
    have hbegins := hclear.denotes.begins.append rest
    have hskip : Consumes Scan.skipWhitespace lead (text ++ rest) () :=
      Consumes.skipWhitespace hlead (hbegins.forall fun c hc => hc.not_space)
    unfold Direct.read
    simp only [hbuildable.fault, Option.isSome_none, Bool.false_eq_true, if_false]
    refine hskip.lift.seq ?_
    refine readValue_understands hbuildable (fun below child hlevels hchild => ?_) hclear hv hstops
    subst hlevels
    exact ih below (Nat.lt_succ_self below) hchild

end Value

end Direct

end ShapeCodec
