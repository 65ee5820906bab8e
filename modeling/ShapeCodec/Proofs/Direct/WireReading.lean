import ShapeCodec.Proofs.Consumption
import ShapeCodec.Proofs.Direct.Reader
import ShapeCodec.Proofs.Json.Grammar
import ShapeCodec.Proofs.WireText
/-! Reading wire text back: what was written for a value is read as that value, to its last
character and no further. -/
namespace ShapeCodec.Direct

open Json (Blank blank_nil blank_space blank_newline Opens Begins)

theorem begins_int (n : Int64) : ∃ c, (Decimal.ofInt n.toInt).head? = some c ∧
    (c = '-' ∨ c.isDigit = true) := by
  cases n.toInt with
  | ofNat k =>
    obtain ⟨c, run, hdigits, -, hrun⟩ := Consumes.digits_eq k
    exact ⟨c, by simp [Decimal.ofInt, hdigits], .inr (hrun c List.mem_cons_self)⟩
  | negSucc k => exact ⟨'-', rfl, .inl rfl⟩

theorem wireText_begins {s : Schema} {shape : Shape} {v : Value} (h : Fits s shape v) :
    Begins (wireText s shape v).toList := by
  cases h with
  | @int n =>
    obtain ⟨c, hhead, hc⟩ := begins_int n
    refine ⟨c, by simpa [wireText, Wire.int, Decimal.text] using hhead, ?_⟩
    rcases hc with rfl | hc
    · exact .inl (by decide)
    · exact .inr hc
  | string => exact ⟨'"', by simp [wireText, Wire.str], .inl (by decide)⟩
  | record hdecl hfields => exact ⟨'\x7b', by simp [wireText], .inl (by decide)⟩
  | list hitems => exact ⟨'[', by simp [wireText], .inl (by decide)⟩
  | _ => exact ⟨'n', by simp [wireText, Wire.str], .inl (by decide)⟩

/-- Text after which an integer has ended. -/
def Stops (rest : List Char) : Prop :=
  ∀ c ∈ rest.head?, c.isDigit = false

section Loop

variable {α β : Type} {entry : Reading β} {next : Reading α} {more : β → Reading α} {x : β}
  {finish b : α} {blanks tail rest : List Char} {close : Char}

/-- What follows a value on its line: a comma unless it is the last, and the end of the line. -/
theorem separator_consumes (last : Bool)
    (hnext : ∀ blanks, Blank blanks → Consumes next (blanks ++ tail) rest b)
    (hspace : ∀ c ∈ (tail ++ rest).head?, Text.isSpace c = false)
    (hcomma : ∀ c ∈ (tail ++ rest).head?, c ≠ ',') :
    Consumes (do Scan.skipWhitespace; discard (Scan.tryChar ','); next : Reading α)
      ((Wire.separator last).toList ++ tail) rest b := by
  cases last with
  | true =>
    have hskip : Consumes Scan.skipWhitespace ['\n'] (tail ++ rest) () :=
      Consumes.skipWhitespace (by simp [Text.isSpace]) hspace
    have hmiss := (Consumes.tryChar_miss hcomma).lift.discard
    refine hskip.lift.seq ?_
    refine hmiss.seq_nil ?_
    exact hnext [] blank_nil
  | false =>
    have hskip : Consumes Scan.skipWhitespace [] (',' :: '\n' :: tail ++ rest) () :=
      Consumes.skipWhitespace (by simp) (by simp [Text.isSpace])
    have hcomma := (Consumes.tryChar ',' (('\n' :: tail) ++ rest)).lift.discard
    refine hskip.lift.seq_nil ?_
    refine hcomma.seq ?_
    exact hnext ['\n'] blank_newline

/-- A round ends the loop at the closing bracket. -/
theorem close_consumes (hblanks : Blank blanks) (hclose : Text.isSpace close = false) :
    Consumes (round close finish entry more) (blanks ++ [close]) rest finish := by
  have hskip : Consumes Scan.skipWhitespace blanks ([close] ++ rest) () :=
    Consumes.skipWhitespace hblanks (by simpa using hclose)
  refine hskip.lift.seq (Consumes.get_bind fun c hc => ?_)
  rw [if_neg (by simp [Cursor.isExhausted, hc])]
  refine (Consumes.tryChar close ([] ++ rest)).lift.seq ?_
  exact Consumes.nothing finish rest

/-- What follows the value on a line: a bracket, or the next line. -/
theorem lines_head {lines : List String} (hlines : ∀ line ∈ lines, Begins line.toList)
    (hclose : close ∈ ['\x7d', ']']) (rest : List Char) :
    ∀ c ∈ ((Wire.lines lines).toList ++ [close] ++ rest).head?,
      Text.isSpace c = false ∧ c ≠ ',' := by
  cases lines with
  | nil =>
    rintro _ ⟨⟩
    simp only [List.mem_cons, List.not_mem_nil, or_false] at hclose
    rcases hclose with rfl | rfl <;> simp [Text.isSpace]
  | cons line lines =>
    have hbegins := (hlines line List.mem_cons_self).append
      ((Wire.separator lines.isEmpty).toList ++ (Wire.lines lines).toList ++ [close] ++ rest)
    have hhead := hbegins.forall (P := fun c => Text.isSpace c = false ∧ c ≠ ',')
      fun c hc => ⟨hc.not_space, hc.ne (by simp)⟩
    simpa [Wire.lines] using hhead

theorem stops_separator (last : Bool) (tail : List Char) :
    Stops ((Wire.separator last).toList ++ tail) := by
  cases last <;> simp [Wire.separator, Stops]

/-- Otherwise it takes an entry, and the loop goes on with what stands behind it. -/
theorem round_consumes {text : List Char} (hbegins : Begins text) (hclose : close ∈ ['\x7d', ']'])
    (hentry : Consumes entry text (tail ++ rest) x)
    (hbehind : Consumes (do Scan.skipWhitespace; discard (Scan.tryChar ','); more x : Reading α)
      tail rest b) (hblanks : Blank blanks) :
    Consumes (round close finish entry more) (blanks ++ (text ++ tail)) rest b := by
  have hopen := (hbegins.append tail).append rest
  have hskip := Consumes.skipWhitespace hblanks (hopen.forall fun c hc => hc.not_space)
  have hmiss := Consumes.tryChar_miss (hopen.forall fun c hc => hc.ne (d := close) (by grind))
  refine hskip.lift.seq (Consumes.get_bind fun c hc => ?_)
  rw [if_neg (by simp only [Cursor.isExhausted, hc, List.isEmpty_iff, hopen.ne_nil, not_false_iff])]
  refine hmiss.lift.seq_nil ?_
  exact hentry.seq hbehind

/-- An entry on a line of its own, before the other lines. -/
theorem line_consumes {line : String} {lines : List String}
    (hbegins : ∀ text ∈ line :: lines, Begins text.toList) (hclose : close ∈ ['\x7d', ']'])
    (hentry : ∀ rest, Stops rest → Consumes entry line.toList rest x)
    (hmore : ∀ blanks, Blank blanks →
      Consumes (more x) (blanks ++ ((Wire.lines lines).toList ++ [close])) rest b)
    (hblanks : Blank blanks) :
    Consumes (round close finish entry more)
      (blanks ++ ((Wire.lines (line :: lines)).toList ++ [close])) rest b := by
  obtain ⟨hline, hlines⟩ := List.forall_mem_cons.1 hbegins
  have hhead := lines_head hlines hclose rest
  have hseparator := separator_consumes lines.isEmpty hmore (fun c hc => (hhead c hc).1)
    fun c hc => (hhead c hc).2
  have htext : (Wire.lines (line :: lines)).toList ++ [close] = line.toList ++
      ((Wire.separator lines.isEmpty).toList ++ ((Wire.lines lines).toList ++ [close])) := by
    simp [Wire.lines]
  have hstops := stops_separator lines.isEmpty ((Wire.lines lines).toList ++ [close] ++ rest)
  rw [htext]
  refine round_consumes hline hclose (hentry _ ?_) hseparator hblanks
  simpa using hstops

end Loop

section Null

variable {α : Type} {onNull other : Reading α} {taken rest : List Char} {a : α}

theorem null_consumes (h : Consumes onNull [] rest a) :
    Consumes (do if ← Scan.tryNull then onNull else other : Reading α) nullWord rest a := by
  have hnull := (Consumes.tryNull ([] ++ rest)).lift
  have hrun := hnull.seq (f := fun null => if null then onNull else other) h
  exact hrun

theorem notNull_consumes (hhead : ∀ c ∈ (taken ++ rest).head?, c ≠ 'n')
    (h : Consumes other taken rest a) :
    Consumes (do if ← Scan.tryNull then onNull else other : Reading α) taken rest a := by
  have hmiss := (Consumes.tryNull_miss hhead).lift
  have hrun := hmiss.seq_nil (f := fun null => if null then onNull else other) h
  exact hrun

end Null

section Child

variable {s : Schema} {levels : Nat} {read : Shape → Reading Value} {shape : Shape} {v : Value}
  {rest blanks : List Char}

/-- Values that fit a shape are read back from their wire text. -/
def Rereads (s : Schema) (levels : Nat) (read : Shape → Reading Value) (shape : Shape) : Prop :=
  ∀ v rest, Fits s shape v → v.Quoteless → nesting s shape v ≤ levels → Stops rest →
    Consumes (read shape) (wireText s shape v).toList rest v

theorem readChild_consumes (hread : Rereads s levels read shape) (hfits : Fits s shape v)
    (hquoteless : v.Quoteless)
    (hnesting : (if shape.isComposite then nesting s shape v else 0) ≤ levels)
    (hstops : Stops rest) (hblanks : Blank blanks) :
    Consumes (readChild read shape) (blanks ++ (wireText s shape v).toList) rest v := by
  have hbegins := (wireText_begins hfits).append rest
  have hskip : Consumes Scan.skipWhitespace blanks ((wireText s shape v).toList ++ rest) () :=
    Consumes.skipWhitespace hblanks (hbegins.forall fun c hc => hc.not_space)
  refine hskip.lift.seq ?_
  cases shape with
  | int =>
    cases hfits with
    | @int n =>
      obtain ⟨c, hhead, hc⟩ := begins_int n
      have hnull : ∀ c ∈ (Decimal.ofInt n.toInt ++ rest).head?, c ≠ 'n' := by
        rw [List.head?_append, hhead]
        rintro _ ⟨⟩ rfl
        exact absurd hc (by decide)
      have hint := (Consumes.readInt n hstops).lift.map (g := Value.int)
      simpa [wireText, Wire.int, Decimal.text] using notNull_consumes hnull hint
  | string =>
    cases hfits with
    | @string text =>
      rw [Value.quoteless_str] at hquoteless
      have hnull : ∀ c ∈ ('"' :: text.toList ++ ['"'] ++ rest).head?, c ≠ 'n' := by simp
      have hstr := (Consumes.readString hquoteless rest).lift.map (g := Value.str)
      simpa [wireText, Wire.str] using notNull_consumes hnull hstr
    | noString =>
      simpa [wireText, Wire.str, nullWord] using null_consumes (Consumes.nothing Value.null rest)
  | unsupported text => cases hfits
  | object name nullable => exact hread v rest hfits hquoteless hnesting hstops
  | list element nullable => exact hread v rest hfits hquoteless hnesting hstops

end Child

section Members

variable {s : Schema} {levels : Nat} {read : Shape → Reading Value} {shape : Shape} {v : Value}
  {rest blanks : List Char} {properties before after : List Property} {p : Property}
  {fields defaults : List Value}

theorem find?_zipIdx (hnodup : ((before ++ p :: after).map Property.name).Nodup) :
    (before ++ p :: after).zipIdx.find? (fun entry => entry.1.name = p.name) =
      some (p, before.length) := by
  have hbefore : before.zipIdx.find? (fun entry => entry.1.name = p.name) = none := by
    rw [List.find?_eq_none]
    rintro ⟨q, slot⟩ hq
    simp only [List.map_append, List.map_cons, List.nodup_append] at hnodup
    have hmem := List.mem_map_of_mem (f := Property.name) (List.fst_mem_of_mem_zipIdx hq)
    simpa using hnodup.2.2 _ hmem _ List.mem_cons_self
  simp [List.zipIdx_append, List.find?_append, hbefore, List.zipIdx_cons]

/-- The key of a member with its colon. What is done behind it depends on the key. -/
theorem key_consumes {key tail : List Char} {slots slots' : List Value} (hkey : '"' ∉ key)
    (hblanks : Blank blanks)
    (h : Consumes (match properties.zipIdx.find? fun entry => entry.1.name = String.ofList key with
      | some (p, slot) => slots.set slot <$> readChild read p.effectiveShape
      | none => do
        Scan.skipValue
        pure slots : Reading (List Value)) tail rest slots') :
    Consumes (readMember read properties slots)
      ('"' :: (key ++ '"' :: (blanks ++ ':' :: tail))) rest slots' := by
  have htext : '"' :: (key ++ '"' :: (blanks ++ ':' :: tail)) =
      ('"' :: key ++ ['"']) ++ (blanks ++ ([':'] ++ tail)) := by
    simp
  have hskip : Consumes Scan.skipWhitespace blanks ([':'] ++ tail ++ rest) () :=
    Consumes.skipWhitespace hblanks (by simp [Text.isSpace])
  rw [htext]
  refine (Consumes.readString hkey _).lift.seq ?_
  refine hskip.lift.seq ?_
  exact (Consumes.expect ':' _).lift.seq h

theorem readMember_consumes {slots : List Value} {slot : Nat}
    (hfind : properties.zipIdx.find? (fun entry => entry.1.name = p.name) = some (p, slot))
    (hname : '"' ∉ p.name.toList) (hread : Rereads s levels read p.effectiveShape)
    (hfits : Fits s p.effectiveShape v) (hquoteless : v.Quoteless)
    (hnesting : (if p.effectiveShape.isComposite then nesting s p.effectiveShape v else 0) ≤ levels)
    (hstops : Stops rest) :
    Consumes (readMember read properties slots)
      ("\"" ++ p.name ++ "\": " ++ wireText s p.effectiveShape v).toList rest
      (slots.set slot v) := by
  have htext : ("\"" ++ p.name ++ "\": " ++ wireText s p.effectiveShape v).toList =
      '"' :: (p.name.toList ++ '"' :: ([] ++ ':' ::
        ([' '] ++ (wireText s p.effectiveShape v).toList))) := by
    simp
  rw [htext]
  refine key_consumes hname blank_nil ?_
  rw [String.ofList_toList, hfind]
  exact (readChild_consumes hread hfits hquoteless hnesting hstops blank_space).map

theorem wireMembers_begins (s : Schema) (properties : List Property) (fields : List Value) :
    ∀ line ∈ wireMembers s properties fields, Begins line.toList := by
  induction properties generalizing fields with
  | nil => simp [wireMembers]
  | cons p properties ih =>
    cases fields with
    | nil => simp [wireMembers]
    | cons field fields =>
      rw [wireMembers]
      exact List.forall_mem_cons.2 ⟨⟨'"', by simp, .inl (by decide)⟩, ih fields⟩

theorem readMembers_consumes (hnodup : (properties.map Property.name).Nodup)
    (hnames : ∀ p ∈ properties, '"' ∉ p.name.toList)
    (hread : ∀ p ∈ properties, Rereads s levels read p.effectiveShape)
    (hfits : List.Forall₂ (fun p field => Fits s p.effectiveShape field) after fields)
    (hquoteless : ∀ field ∈ fields, field.Quoteless)
    (hnesting : nestingOfMembers s after fields ≤ levels) (before : List Property)
    (hsplit : properties = before ++ after) (done : List Value)
    (hdone : done.length = before.length) (hdefaults : defaults.length = after.length)
    (bound : Nat) (hbound : after.length < bound) (hblanks : Blank blanks) :
    Consumes (readMembers read properties bound (done ++ defaults))
      (blanks ++ ((Wire.lines (wireMembers s after fields)).toList ++ ['\x7d'])) rest
      (done ++ fields) := by
  -- the slots of `before` hold what was read, those of `after` still hold defaults
  induction hfits generalizing before done defaults bound blanks with
  | nil =>
    obtain rfl := List.eq_nil_of_length_eq_zero hdefaults
    obtain ⟨bound, rfl⟩ := Nat.exists_eq_add_of_lt hbound
    exact close_consumes hblanks (by decide)
  | @cons p field after fields hp hrest ih =>
    obtain ⟨default, defaults, rfl⟩ := List.exists_cons_of_length_eq_add_one hdefaults
    obtain ⟨bound, rfl⟩ := Nat.exists_eq_add_of_lt hbound
    have hmem : p ∈ properties := by simp [hsplit]
    have hfind := find?_zipIdx (hsplit ▸ hnodup)
    rw [← hsplit] at hfind
    rw [nestingOfMembers, Nat.max_le] at hnesting
    have hset : (done ++ default :: defaults).set before.length field =
        (done ++ [field]) ++ defaults := by
      simp [← hdone]
    refine line_consumes (wireMembers_begins s (p :: after) (field :: fields)) (by decide)
      (fun rest hstops => readMember_consumes hfind (hnames p hmem) (hread p hmem) hp
        (hquoteless field List.mem_cons_self) hnesting.1 hstops) (fun blanks hblanks => ?_) hblanks
    rw [hset]
    have hmore := ih (fun f hf => hquoteless f (List.mem_cons_of_mem field hf)) hnesting.2
      (before ++ [p]) (by simpa using hsplit) (done ++ [field]) (by simp [hdone])
      (Nat.succ.inj hdefaults) ((p :: after).length + bound) (by simp; omega) hblanks
    simpa using hmore

end Members

section Items

variable {s : Schema} {levels : Nat} {read : Shape → Reading Value} {element : Shape}
  {rest blanks : List Char} {items : List Value}

theorem wireItems_begins (hfits : ∀ item ∈ items, Fits s element item) :
    ∀ line ∈ wireItems s element items, Begins line.toList := by
  induction items with
  | nil => simp [wireItems]
  | cons item items ih =>
    obtain ⟨hitem, hitems⟩ := List.forall_mem_cons.1 hfits
    rw [wireItems]
    exact List.forall_mem_cons.2 ⟨wireText_begins hitem, ih hitems⟩

theorem readItems_consumes (hread : Rereads s levels read element)
    (hfits : ∀ item ∈ items, Fits s element item) (hquoteless : ∀ item ∈ items, item.Quoteless)
    (hnesting : nestingOfItems s element items ≤ levels) (bound : Nat)
    (hbound : items.length < bound) (hblanks : Blank blanks) :
    Consumes (readItems read element bound)
      (blanks ++ ((Wire.lines (wireItems s element items)).toList ++ [']'])) rest items := by
  induction items generalizing bound blanks with
  | nil =>
    obtain ⟨bound, rfl⟩ := Nat.exists_eq_add_of_lt hbound
    exact close_consumes hblanks (by decide)
  | cons item items ih =>
    obtain ⟨bound, rfl⟩ := Nat.exists_eq_add_of_lt hbound
    have hbegins := wireItems_begins hfits
    obtain ⟨hitem, hitems⟩ := List.forall_mem_cons.1 hfits
    obtain ⟨hplain, hplains⟩ := List.forall_mem_cons.1 hquoteless
    rw [nestingOfItems, Nat.max_le] at hnesting
    refine line_consumes hbegins (by decide) (fun rest hstops =>
      readChild_consumes hread hitem hplain hnesting.1 hstops blank_nil) (fun blanks hblanks => ?_)
      hblanks
    exact (ih hitems hplains hnesting.2 _ (by simp; omega) hblanks).map

end Items

section Value

variable {s : Schema} {levels : Nat} {read : Shape → Reading Value} {shape : Shape}

theorem length_le_lines (lines : List String) :
    lines.length ≤ (Wire.lines lines).toList.length := by
  induction lines with
  | nil => simp
  | cons line lines ih =>
    have hseparator : 0 < (Wire.separator lines.isEmpty).toList.length := by
      cases lines.isEmpty <;> decide
    simp only [Wire.lines, String.toList_append, List.length_append, List.length_cons]
    omega

theorem length_wireMembers {s : Schema} {properties : List Property} {fields : List Value}
    (h : List.Forall₂ (fun p field => Fits s p.effectiveShape field) properties fields) :
    (wireMembers s properties fields).length = properties.length := by
  induction h with
  | nil => rfl
  | cons _ _ ih => simp [wireMembers, ih]

theorem length_wireItems (s : Schema) (element : Shape) (items : List Value) :
    (wireItems s element items).length = items.length := by
  induction items with
  | nil => rfl
  | cons item items ih => simp [wireItems, ih]

theorem quote_notMem {name : String} (h : isIdentifier name = true) : '"' ∉ name.toList := by
  unfold isIdentifier isName at h
  split at h
  · simp at h
  · next c rest hname =>
    simp only [hname, Bool.and_eq_true, List.all_eq_true] at h ⊢
    rintro (_ | ⟨_, hmem⟩)
    · exact absurd h.1 (by decide)
    · exact absurd (h.2 _ hmem) (by decide)

theorem readValue_consumes (hbuildable : Buildable s .deserialize shape)
    (hread : ∀ below, Buildable s .deserialize below → Rereads s levels read below) :
    Rereads s (levels + 1) (readValue s read) shape := by
  intro v rest hfits hquoteless hnesting hstops
  have hscalar (h : shape.isComposite = false) :
      Consumes (readChild read shape) (wireText s shape v).toList rest v :=
    readChild_consumes (hread shape hbuildable) hfits hquoteless (by simp [h]) hstops blank_nil
  cases hfits with
  | @record name nullable decl fields hdecl hfields =>
    have hproperties := Schema.properties_of_type? hdecl
    have hvalid := s.valid decl (List.mem_of_find?_eq_some hdecl)
    rw [Value.quoteless_record] at hquoteless
    simp only [nesting, hproperties] at hnesting
    have htext : (wireText s (.object name nullable) (.record name fields)).toList =
        ['\x7b'] ++ (['\n'] ++ ((Wire.lines (wireMembers s decl.properties fields)).toList ++
          ['\x7d'])) := by
      simp [wireText, hproperties]
    rw [htext]
    simp only [readValue, hproperties]
    refine notNull_consumes (by simp) ?_
    refine (Consumes.expect '\x7b' _).lift.seq ?_
    refine Consumes.get_bind fun c hc => Consumes.map ?_
    have hlength := length_le_lines (wireMembers s decl.properties fields)
    rw [length_wireMembers hfields] at hlength
    have hbound : decl.properties.length < c.rest.length := by
      simp only [hc, List.length_append, List.length_cons]
      omega
    exact readMembers_consumes hvalid.nodup (fun p hp => quote_notMem (hvalid.property p hp))
      (fun p hp => hread _ (hbuildable.property (hproperties ▸ hp))) hfields hquoteless
      (Nat.le_of_succ_le_succ hnesting) [] rfl [] rfl (List.length_map _) _ hbound blank_newline
  | @list element nullable items hitems =>
    rw [Value.quoteless_list] at hquoteless
    simp only [nesting] at hnesting
    have htext : (wireText s (.list element nullable) (.list items)).toList =
        ['['] ++ (['\n'] ++ ((Wire.lines (wireItems s element items)).toList ++ [']'])) := by
      simp [wireText]
    rw [htext]
    simp only [readValue]
    refine notNull_consumes (by simp) ?_
    refine (Consumes.expect '[' _).lift.seq ?_
    refine Consumes.get_bind fun c hc => Consumes.map ?_
    have hlength := length_le_lines (wireItems s element items)
    rw [length_wireItems] at hlength
    have hbound : items.length < c.rest.length := by
      simp only [hc, List.length_append, List.length_cons]
      omega
    exact readItems_consumes (hread _ hbuildable.element) hitems hquoteless
      (Nat.le_of_succ_le_succ hnesting) _ hbound blank_newline
  | noObject =>
    simp only [wireText, Wire.str, readValue, if_true]
    exact null_consumes (Consumes.nothing _ rest)
  | noList =>
    simp only [wireText, Wire.str, readValue, if_true]
    exact null_consumes (Consumes.nothing _ rest)
  | _ => exact hscalar rfl

/-- What was written for a value is read as that value. -/
theorem read_consumes (hbuildable : Buildable s .deserialize shape) (levels : Nat) :
    Rereads s levels (Direct.read s levels) shape := by
  induction levels generalizing shape with
  | zero =>
    intro v rest hfits hquoteless hnesting hstops
    have hpos := nesting_pos s shape v
    omega
  | succ levels ih =>
    intro v rest hfits hquoteless hnesting hstops
    have hbegins := (wireText_begins hfits).append rest
    have hskip : Consumes Scan.skipWhitespace [] ((wireText s shape v).toList ++ rest) () :=
      Consumes.skipWhitespace (by simp) (hbegins.forall fun c hc => hc.not_space)
    unfold Direct.read
    simp only [hbuildable.fault, Option.isSome_none, Bool.false_eq_true, if_false]
    refine hskip.lift.seq_nil ?_
    exact readValue_consumes hbuildable (fun below hbelow => ih hbelow) v rest hfits hquoteless
      hnesting hstops

end Value

end ShapeCodec.Direct
