import ShapeCodec.Proofs.Json.Numeral
import ShapeCodec.Proofs.Json.Syntax
/-! Skipping values of any kind. Only brackets and quotes are looked at, and yet JSON text in which
no quote is escaped is stepped over as a whole: its brackets match, also where a string holds some. -/
namespace ShapeCodec

open Json (Blank)

namespace Json

variable {c : Char} {content text : List Char} {n : Number}

/-- Without an escape a string stands for its own text. -/
theorem Content.eq_text (h : Content content text) (hescape : '\\' ∉ text) :
    content = text ∧ ∀ c ∈ text, IsPlain c := by
  induction h with
  | nil => simp
  | plain hplain _ ih =>
    simp only [List.mem_cons, not_or] at hescape
    obtain ⟨rfl, hall⟩ := ih hescape.2
    exact ⟨rfl, List.forall_mem_cons.2 ⟨hplain, hall⟩⟩
  | escaped _ _ _ => simp at hescape

theorem quote_notMem_of_plain (h : ∀ c ∈ text, IsPlain c) : '"' ∉ text :=
  fun hmem => (h _ hmem).1 rfl

theorem isNumberPart_of_isDigit (h : c.isDigit = true) : Scan.isNumberPart c = true := by
  simp [Scan.isNumberPart, h]

/-- A numeral begins with a sign or a digit, has a digit and only characters of numbers. -/
structure IsNumeral (text : List Char) : Prop where
  starts : ∃ c tail, text = c :: tail ∧ (c = '-' ∨ c.isDigit = true)
  digit : ∃ c ∈ text, c.isDigit = true
  parts : ∀ c ∈ text, Scan.isNumberPart c = true

theorem Digits.parts {run : List Char} (h : Digits run) : ∀ c ∈ run, Scan.isNumberPart c = true :=
  fun c hc => isNumberPart_of_isDigit (h.2 c hc)

theorem isNumeral_whole (negative : Bool) {whole : List Char} (hwhole : Whole whole)
    (more : List Char) (hmore : ∀ c ∈ more, Scan.isNumberPart c = true) :
    IsNumeral (minus negative ++ (whole ++ more)) := by
  obtain ⟨c, run, rfl⟩ := List.exists_cons_of_ne_nil hwhole.1.1
  have hdigit := hwhole.1.2 c List.mem_cons_self
  refine ⟨?_, ⟨c, by simp, hdigit⟩, ?_⟩
  · cases negative with
    | true => exact ⟨'-', _, rfl, .inl rfl⟩
    | false => exact ⟨c, _, rfl, .inr hdigit⟩
  · refine List.forall_mem_append.2 ⟨?_, List.forall_mem_append.2 ⟨hwhole.1.parts, hmore⟩⟩
    cases negative <;> simp [minus, Scan.isNumberPart]

theorem Fraction.parts (h : Fraction text) : ∀ c ∈ text, Scan.isNumberPart c = true := by
  cases h with
  | absent => simp
  | present hrun => exact List.forall_mem_cons.2 ⟨by decide, hrun.parts⟩

theorem Exponent.parts (h : Exponent text) : ∀ c ∈ text, Scan.isNumberPart c = true := by
  cases h with
  | absent => simp
  | present hmark hsign hrun =>
    refine List.forall_mem_cons.2 ⟨?_, List.forall_mem_append.2 ⟨?_, hrun.parts⟩⟩
    · rcases hmark with rfl | rfl <;> decide
    · simp only [List.mem_cons, List.not_mem_nil, or_false] at hsign
      rcases hsign with rfl | rfl | rfl <;> simp [Scan.isNumberPart]

theorem NumberText.isNumeral (h : NumberText text) : IsNumeral text := by
  cases h with
  | mk negative hwhole hfraction hexponent =>
    have hmore := List.forall_mem_append.2 ⟨hfraction.parts, hexponent.parts⟩
    simpa using isNumeral_whole negative hwhole _ hmore

theorem Number.Denotes.isNumeral (h : Number.Denotes n text) : IsNumeral text :=
  h.numberText.isNumeral

theorem ValueText.begins (h : ValueText text) : Begins text := by
  cases h with
  | number hnumber =>
    obtain ⟨c, tail, rfl, hc⟩ := hnumber.isNumeral.starts
    refine ⟨c, rfl, ?_⟩
    rcases hc with rfl | hc
    · exact .inl (by decide)
    · exact .inr hc
  | _ => exact ⟨_, rfl, .inl (by decide)⟩

theorem Denotes.begins {json : Json} (h : Denotes json text) : Begins text :=
  h.valueText.begins

end Json

section Brackets

/-- Inside brackets the scan passes over the text, and is then inside as many as before. -/
def Passes (text : List Char) : Prop :=
  ∀ depth offset rest, Scan.skipBrackets (depth + 1) none offset (text ++ rest) =
    Scan.skipBrackets (depth + 1) none (offset + Text.utf8Length text) rest

variable {a b content text : List Char} {c opening close : Char}

theorem passes_nil : Passes [] :=
  fun _ _ _ => rfl

theorem Passes.append (ha : Passes a) (hb : Passes b) : Passes (a ++ b) := by
  intro depth offset rest
  rw [List.append_assoc, ha, hb, Text.utf8Length_append, Nat.add_assoc]

theorem passes_char (hc : c ∉ ['"', '\x7b', '[', '\x7d', ']']) : Passes [c] := by
  intro depth offset rest
  simp only [List.mem_cons, List.not_mem_nil, or_false, not_or] at hc
  obtain ⟨hquote, hbrace, hbracket, hbrace', hbracket'⟩ := hc
  simp [Scan.skipBrackets, hquote, hbrace, hbracket, hbrace', hbracket', Text.utf8Length]

theorem passes_of_forall (h : ∀ c ∈ text, c ∉ ['"', '\x7b', '[', '\x7d', ']']) : Passes text := by
  induction text with
  | nil => exact passes_nil
  | cons c text ih =>
    obtain ⟨hc, htext⟩ := List.forall_mem_cons.1 h
    exact (passes_char hc).append (ih htext)

/-- Inside a string the scan goes on to the next quote. -/
theorem skipBrackets_content (h : '"' ∉ content) (depth : Nat) (start : Cursor) (offset : Nat)
    (rest : List Char) :
    Scan.skipBrackets depth (some start) offset (content ++ '"' :: rest) =
      Scan.skipBrackets depth none (offset + Text.utf8Length (content ++ ['"'])) rest := by
  induction content generalizing offset with
  | nil => simp [Scan.skipBrackets, Text.utf8Length]
  | cons c content ih =>
    simp only [List.mem_cons, not_or] at h
    rw [List.cons_append, Scan.skipBrackets, if_neg (Ne.symm h.1), ih h.2, List.cons_append,
      Text.utf8Length, Nat.add_assoc]

theorem passes_string (h : '"' ∉ content) : Passes ('"' :: (content ++ ['"'])) := by
  intro depth offset rest
  have htext : '"' :: (content ++ ['"']) ++ rest = '"' :: (content ++ '"' :: rest) := by simp
  rw [htext, Scan.skipBrackets]
  simp only [if_true, skipBrackets_content h, Text.utf8Length, Nat.add_assoc]

/-- Brackets are counted, whatever their kind. -/
theorem Passes.bracketed (h : Passes text) (hopening : opening ∈ ['\x7b', '['])
    (hclose : close ∈ ['\x7d', ']']) : Passes (opening :: (text ++ [close])) := by
  intro depth offset rest
  have htext : opening :: (text ++ [close]) ++ rest = opening :: (text ++ close :: rest) := by simp
  have hopen : Scan.skipBrackets (depth + 1) none offset (opening :: (text ++ close :: rest)) =
      Scan.skipBrackets (depth + 1 + 1) none (offset + opening.utf8Size)
        (text ++ close :: rest) := by
    simp only [List.mem_cons, List.not_mem_nil, or_false] at hopening
    rcases hopening with rfl | rfl <;> simp [Scan.skipBrackets]
  have hend (offset : Nat) : Scan.skipBrackets (depth + 1 + 1) none offset (close :: rest) =
      Scan.skipBrackets (depth + 1) none (offset + close.utf8Size) rest := by
    simp only [List.mem_cons, List.not_mem_nil, or_false] at hclose
    rcases hclose with rfl | rfl <;> simp [Scan.skipBrackets]
  rw [htext, hopen, h, hend]
  simp [Text.utf8Length, Text.utf8Length_append, Nat.add_assoc]

theorem passes_blank (h : Blank text) : Passes text := by
  refine passes_of_forall fun c hc hbracket => ?_
  have hspace := h c hc
  simp only [List.mem_cons, List.not_mem_nil, or_false] at hbracket
  rcases hbracket with rfl | rfl | rfl | rfl | rfl <;> exact absurd hspace (by decide)

theorem passes_parts (h : ∀ c ∈ text, Scan.isNumberPart c = true) : Passes text := by
  refine passes_of_forall fun c hc hbracket => ?_
  have hpart := h c hc
  simp only [List.mem_cons, List.not_mem_nil, or_false] at hbracket
  rcases hbracket with rfl | rfl | rfl | rfl | rfl <;> exact absurd hpart (by decide)

/-- If no quote is escaped from here on, the scan passes over the text, and none is escaped in what
comes behind. -/
def Skims (text : List Char) : Prop :=
  ∀ rest, Json.escapesQuote (text ++ rest) = false →
    Passes text ∧ Json.escapesQuote rest = false

theorem Skims.append (ha : Skims a) (hb : Skims b) : Skims (a ++ b) := by
  intro rest hescape
  rw [List.append_assoc] at hescape
  obtain ⟨hpasses, hescape⟩ := ha _ hescape
  obtain ⟨hpasses', hescape⟩ := hb _ hescape
  exact ⟨hpasses.append hpasses', hescape⟩

theorem Passes.skims (h : Passes text) (hescape : '\\' ∉ text) : Skims text := by
  intro rest hrest
  rw [Json.escapesQuote_append hescape] at hrest
  exact ⟨h, hrest⟩

theorem skims_blank (h : Blank text) : Skims text :=
  (passes_blank h).skims fun hescape => absurd (h _ hescape) (by decide)

theorem skims_parts (h : ∀ c ∈ text, Scan.isNumberPart c = true) : Skims text :=
  (passes_parts h).skims fun hescape => absurd (h _ hescape) (by decide)

theorem skims_string (h : Json.StringText text) : Skims ('"' :: (text ++ ['"'])) := by
  intro rest hescape
  rw [List.cons_append, List.append_assoc, Json.escapesQuote_cons (by decide)] at hescape
  obtain ⟨hquote, hescape⟩ := h.of_escapesQuote hescape
  exact ⟨passes_string hquote, by rwa [List.singleton_append,
    Json.escapesQuote_cons (by decide)] at hescape⟩

theorem Skims.bracketed (h : Skims text) (hopening : opening ∈ ['\x7b', '['])
    (hclose : close ∈ ['\x7d', ']']) : Skims (opening :: (text ++ [close])) := by
  have hne : opening ≠ '\\' ∧ close ≠ '\\' := by
    constructor <;> rintro rfl
    · exact absurd hopening (by decide)
    · exact absurd hclose (by decide)
  intro rest hescape
  rw [List.cons_append, List.append_assoc, Json.escapesQuote_cons hne.1] at hescape
  obtain ⟨hpasses, hescape⟩ := h _ hescape
  rw [List.singleton_append, Json.escapesQuote_cons hne.2] at hescape
  exact ⟨hpasses.bracketed hopening hclose, hescape⟩

theorem skims_opening {first : Bool} (h : Json.Opening first text) : Skims text := by
  cases h with
  | first hblanks => exact skims_blank hblanks
  | later hblanks hlead =>
    have hcomma : Skims [','] := (passes_char (by decide)).skims (by decide)
    exact (skims_blank hblanks).append (hcomma.append (skims_blank hlead))

mutual

/-- The brackets of a value match. -/
theorem skims_value {text : List Char} : Json.ValueText text → Skims text
  | .null => (passes_of_forall (by simp)).skims (by decide)
  | .true => (passes_of_forall (by simp)).skims (by decide)
  | .false => (passes_of_forall (by simp)).skims (by decide)
  | .number hnumber => skims_parts hnumber.isNumeral.parts
  | .string htext => skims_string htext
  | .array hitems => (skims_entries hitems).bracketed (by decide) (by decide)
  | .object hmembers => (skims_entries hmembers).bracketed (by decide) (by decide)

theorem skims_entries {named first : Bool} {text : List Char} :
    Json.EntriesText named first text → Skims text
  | .nil hblanks => skims_blank hblanks
  | .cons hopening hbody htail =>
    (skims_opening hopening).append ((skims_entry hbody).append (skims_entries htail))

theorem skims_entry {named : Bool} {text : List Char} : Json.EntryText named text → Skims text
  | .item hvalue => skims_value hvalue
  | .member hname hblanks hlead hvalue => by
    have hcolon : Skims [':'] := (passes_char (by decide)).skims (by decide)
    have hmember := (skims_string hname).append ((skims_blank hblanks).append
      (hcolon.append ((skims_blank hlead).append (skims_value hvalue))))
    simpa using hmember

end

end Brackets

section Value

variable {text lead rest : List Char} {json : Json}

theorem skipNumber_of_parts (hparts : ∀ c ∈ text, Scan.isNumberPart c = true)
    (hdigit : text.any Char.isDigit = true) (hrest : Json.Number.Stops rest) :
    Consumes Scan.skipNumber text rest () := by
  obtain ⟨htake, hdrop⟩ := Consumes.takeWhile_of_span hparts hrest
  constructor
  intro offset
  simp only [Scan.skipNumber, Cursor.skipWhile, htake, hdrop, hdigit, if_true]
  rfl

theorem skipNumber_consumes (htext : Json.IsNumeral text) (hrest : Json.Number.Stops rest) :
    Consumes Scan.skipNumber text rest () :=
  skipNumber_of_parts htext.parts (List.any_eq_true.2 htext.digit) hrest

theorem skipWord_null (rest : List Char) : Consumes Scan.skipWord nullWord rest () := by
  unfold Scan.skipWord
  refine (Consumes.tryWord nullWord ([] ++ rest)).seq ?_
  exact Consumes.nothing () rest

theorem skipWord_true (rest : List Char) :
    Consumes Scan.skipWord ['t', 'r', 'u', 'e'] rest () := by
  unfold Scan.skipWord
  refine (Consumes.tryWord_miss _ (by simp)).seq_nil ?_
  refine (Consumes.tryWord ['t', 'r', 'u', 'e'] ([] ++ rest)).seq ?_
  exact Consumes.nothing () rest

theorem skipWord_false (rest : List Char) :
    Consumes Scan.skipWord ['f', 'a', 'l', 's', 'e'] rest () := by
  unfold Scan.skipWord
  refine (Consumes.tryWord_miss _ (by simp)).seq_nil ?_
  refine (Consumes.tryWord_miss _ (by simp)).seq_nil ?_
  refine (Consumes.tryWord ['f', 'a', 'l', 's', 'e'] ([] ++ rest)).seq ?_
  exact Consumes.nothing () rest

/-- Steps over an object or list. -/
def skipNested : Scan Unit :=
  fun c => Scan.skipBrackets 0 none c.offset c.rest

theorem skipNested_consumes {opening close : Char} (h : Passes text)
    (hopening : opening ∈ ['\x7b', '[']) (hclose : close ∈ ['\x7d', ']']) :
    Consumes skipNested (opening :: (text ++ [close])) rest () := by
  constructor
  intro offset
  have htext : opening :: (text ++ [close]) ++ rest = opening :: (text ++ close :: rest) := by simp
  have hopen : Scan.skipBrackets 0 none offset (opening :: (text ++ close :: rest)) =
      Scan.skipBrackets 1 none (offset + opening.utf8Size) (text ++ close :: rest) := by
    simp only [List.mem_cons, List.not_mem_nil, or_false] at hopening
    rcases hopening with rfl | rfl <;> simp [Scan.skipBrackets]
  have hend (offset : Nat) : Scan.skipBrackets 1 none offset (close :: rest) =
      .ok () ⟨offset + close.utf8Size, rest⟩ := by
    simp only [List.mem_cons, List.not_mem_nil, or_false] at hclose
    rcases hclose with rfl | rfl <;> simp [Scan.skipBrackets]
  simp only [skipNested, htext, hopen, h 0, hend]
  simp [Text.utf8Length, Text.utf8Length_append, Nat.add_assoc]

/-- What skipping does in front of the first character of a value. -/
theorem skipValue_apply {c : Char} (hlead : Blank lead) (hspace : Text.isSpace c = false)
    (offset : Nat) (tail : List Char) :
    Scan.skipValue ⟨offset, lead ++ c :: tail⟩ =
      (if c = '"' then discard Scan.readString
        else if c = '\x7b' ∨ c = '[' then skipNested
        else if c = '-' ∨ c.isDigit then Scan.skipNumber
        else Scan.skipWord) ⟨offset + Text.utf8Length lead, c :: tail⟩ := by
  have hskip : Consumes Scan.skipWhitespace lead (c :: tail) () :=
    Consumes.skipWhitespace hlead (by simpa using hspace)
  exact Running.bind_of_ok (hskip.run offset)

theorem skipValue_of_head {c : Char} {tail : List Char} (hlead : Blank lead)
    (hspace : Text.isSpace c = false)
    (h : Consumes (if c = '"' then discard Scan.readString
      else if c = '\x7b' ∨ c = '[' then skipNested
      else if c = '-' ∨ c.isDigit then Scan.skipNumber
      else Scan.skipWord) (c :: tail) rest ()) :
    Consumes Scan.skipValue (lead ++ c :: tail) rest () := by
  constructor
  intro offset
  rw [List.append_assoc, List.cons_append, skipValue_apply hlead hspace, Text.utf8Length_append,
    ← Nat.add_assoc]
  exact h.run _

theorem skipValue_of_numeral (h : Json.IsNumeral text) (hlead : Blank lead)
    (hrest : Json.Number.Stops rest) : Consumes Scan.skipValue (lead ++ text) rest () := by
  have hnumber := skipNumber_consumes h hrest
  obtain ⟨c, tail, rfl, hc⟩ := h.starts
  have hne {d : Char} (hd : d ≠ '-' ∧ d.isDigit = false) : c ≠ d := by
    rintro rfl
    simp [hd] at hc
  have hspace : Text.isSpace c = false := Json.Opens.not_space <| by
    rcases hc with rfl | hc
    · exact .inl (by decide)
    · exact .inr hc
  have hquote : c ≠ '"' := hne (by decide)
  have hbracket : ¬ (c = '\x7b' ∨ c = '[') := not_or.2 ⟨hne (by decide), hne (by decide)⟩
  refine skipValue_of_head hlead hspace ?_
  rwa [if_neg hquote, if_neg hbracket, if_pos hc]

/-- A value is stepped over as a whole. A number has to end where it does, in front of what no
number has. -/
theorem skipValue_consumes (h : Json.ValueText text) (hescape : Json.escapesQuote text = false)
    (hlead : Blank lead) (hrest : Json.NumberText text → Json.Number.Stops rest) :
    Consumes Scan.skipValue (lead ++ text) rest () := by
  cases h with
  | null => exact skipValue_of_head hlead rfl (skipWord_null rest)
  | true => exact skipValue_of_head hlead rfl (skipWord_true rest)
  | false => exact skipValue_of_head hlead rfl (skipWord_false rest)
  | number hnumber => exact skipValue_of_numeral hnumber.isNumeral hlead (hrest hnumber)
  | string htext =>
    rw [Json.escapesQuote_cons (by decide)] at hescape
    have hquote := (htext.of_escapesQuote hescape).1
    exact skipValue_of_head hlead rfl (Consumes.readString hquote rest).discard
  | array hitems =>
    rw [Json.escapesQuote_cons (by decide)] at hescape
    have hpasses := (skims_entries hitems _ hescape).1
    exact skipValue_of_head hlead rfl (skipNested_consumes hpasses (by decide) (by decide))
  | object hmembers =>
    rw [Json.escapesQuote_cons (by decide)] at hescape
    have hpasses := (skims_entries hmembers _ hescape).1
    exact skipValue_of_head hlead rfl (skipNested_consumes hpasses (by decide) (by decide))

end Value

end ShapeCodec
