import ShapeCodec.Proofs.Json.Grammar
/-! JSON text by its form alone (RFC 8259), whether or not it stands for a value: half a surrogate
pair may be escaped here, and numbers may have any size. -/
namespace ShapeCodec.Json

/-- What stands between the quotes of a string. -/
inductive StringText : List Char → Prop
  | nil : StringText []
  | plain {c text} : IsPlain c → StringText text → StringText (c :: text)
  | short {letter text} : letter ∈ shortEscapes.map Prod.fst → StringText text →
      StringText ('\\' :: letter :: text)
  | unit {code digits text} : CodeUnit code digits → StringText text →
      StringText ('\\' :: 'u' :: (digits ++ text))

inductive NumberText : List Char → Prop
  | mk (negative : Bool) {whole fraction exponent} : Whole whole → Fraction fraction →
      Exponent exponent → NumberText (minus negative ++ whole ++ fraction ++ exponent)

mutual

/-- One value, without whitespace around it. -/
inductive ValueText : List Char → Prop
  | null : ValueText ['n', 'u', 'l', 'l']
  | true : ValueText ['t', 'r', 'u', 'e']
  | false : ValueText ['f', 'a', 'l', 's', 'e']
  | number {text} : NumberText text → ValueText text
  | string {text} : StringText text → ValueText ('"' :: (text ++ ['"']))
  | array {text} : EntriesText false true text → ValueText ('[' :: (text ++ [']']))
  | object {text} : EntriesText true true text → ValueText ('\x7b' :: (text ++ ['\x7d']))

/-- Entries up to a closing bracket, either all of them or those behind the first. -/
inductive EntriesText : Bool → Bool → List Char → Prop
  | nil {named first blanks} : Blank blanks → EntriesText named first blanks
  | cons {named first opening body tail} : Opening first opening → EntryText named body →
      EntriesText named false tail → EntriesText named first (opening ++ (body ++ tail))

/-- An item, or a member with its name. -/
inductive EntryText : Bool → List Char → Prop
  | item {body} : ValueText body → EntryText false body
  | member {name blanks lead body} : StringText name → Blank blanks → Blank lead →
      ValueText body → EntryText true ('"' :: (name ++ '"' :: (blanks ++ ':' :: (lead ++ body))))

end

section Denotes

variable {content text : List Char} {n : Number} {json : Json}

theorem Content.stringText (h : Content content text) : StringText text := by
  induction h with
  | nil => exact .nil
  | plain hplain _ ih => exact .plain hplain ih
  | escaped hescape _ ih =>
    cases hescape with
    | short hletter => exact .short (List.mem_map_of_mem hletter) ih
    | unit hcode _ _ => exact .unit hcode ih
    | pair hhigh _ hlow _ => simpa using StringText.unit hhigh (StringText.unit hlow ih)

theorem Number.Denotes.numberText (h : Number.Denotes n text) : NumberText text := by
  cases h with
  | integer negative hwhole _ => simpa using NumberText.mk negative hwhole .absent .absent
  | float x negative hwhole hfraction hexponent _ => exact .mk negative hwhole hfraction hexponent

theorem entriesText_of_entries {α : Type} {entry : α → List Char → Prop} {named first : Bool}
    {as : List α} (h : Entries entry first as text)
    (hentry : ∀ a ∈ as, ∀ body, entry a body → EntryText named body) :
    EntriesText named first text := by
  induction h with
  | nil hblanks => exact .nil hblanks
  | cons hopening hbody _ ih =>
    obtain ⟨hhead, htail⟩ := List.forall_mem_cons.1 hentry
    exact .cons hopening (hhead _ hbody) (ih htail)

/-- Text that stands for a value has the form of one. -/
theorem Denotes.valueText (h : Denotes json text) : ValueText text := by
  -- by the nesting of the value, since its items and members are derived inside their lists
  induction hnesting : json.nesting using Nat.strongRecOn generalizing json text with
  | ind levels ih =>
    subst hnesting
    cases h with
    | null => exact .null
    | true => exact .true
    | false => exact .false
    | number hnumber => exact .number hnumber.numberText
    | string hcontent => exact .string hcontent.stringText
    | array hitems =>
      refine .array (entriesText_of_entries hitems fun item hitem body hbody => .item ?_)
      have hlevel := nestingOfItems_le.1 (Nat.le_refl _) item hitem
      exact ih _ (Nat.lt_succ_of_le hlevel) hbody rfl
    | object hmembers =>
      refine .object (entriesText_of_entries hmembers fun member hmember body hbody => ?_)
      have hlevel := nestingOfMembers_le.1 (Nat.le_refl _) member hmember
      cases hbody with
      | mk hname hblanks hlead hvalue =>
        exact .member hname.stringText hblanks hlead (ih _ (Nat.lt_succ_of_le hlevel) hvalue rfl)

end Denotes

section Escape

/-- Some quote is escaped: a backslash stands in front of it that is not escaped itself. -/
def escapesQuote : List Char → Bool
  | c :: d :: rest =>
    if c = '\\' then d = '"' || escapesQuote rest else escapesQuote (d :: rest)
  | _ => false

variable {c : Char} {rest text : List Char}

theorem escapesQuote_cons (h : c ≠ '\\') : escapesQuote (c :: rest) = escapesQuote rest := by
  cases rest with
  | nil => rfl
  | cons d rest => rw [escapesQuote, if_neg h]

theorem escapesQuote_escape (c : Char) (rest : List Char) :
    escapesQuote ('\\' :: c :: rest) = (decide (c = '"') || escapesQuote rest) := by
  rw [escapesQuote, if_pos rfl]

theorem escapesQuote_append (h : '\\' ∉ text) (rest : List Char) :
    escapesQuote (text ++ rest) = escapesQuote rest := by
  induction text with
  | nil => rfl
  | cons c text ih =>
    simp only [List.mem_cons, not_or] at h
    rw [List.cons_append, escapesQuote_cons (Ne.symm h.1), ih h.2]

theorem escapesQuote_of_notMem (h : '\\' ∉ text) : escapesQuote text = false := by
  simpa [escapesQuote] using escapesQuote_append h []

theorem hexDigit_ne {digit : Nat} (h : hexValue? c = some digit) : c ≠ '"' ∧ c ≠ '\\' := by
  constructor <;> rintro rfl <;> simp [hexValue?] at h

theorem CodeUnit.plain {code : Nat} {digits : List Char} (h : CodeUnit code digits) :
    '"' ∉ digits ∧ '\\' ∉ digits := by
  have hplain {digits : List Char} {n : Nat} (h : hexNumber? n digits = some code) :
      '"' ∉ digits ∧ '\\' ∉ digits := by
    induction digits generalizing n with
    | nil => simp
    | cons c digits ih =>
      obtain ⟨digit, hdigit, hdigits⟩ := Option.bind_eq_some_iff.1 h
      obtain ⟨hquote, hescape⟩ := hexDigit_ne hdigit
      obtain ⟨hquotes, hescapes⟩ := ih hdigits
      exact ⟨by simp [hquotes, hquote.symm], by simp [hescapes, hescape.symm]⟩
  exact hplain h.2

/-- A string in which no quote is escaped ends at the next quote. -/
theorem StringText.of_escapesQuote (h : StringText text)
    (hescape : escapesQuote (text ++ rest) = false) :
    '"' ∉ text ∧ escapesQuote rest = false := by
  induction h with
  | nil => exact ⟨by simp, hescape⟩
  | plain hplain _ ih =>
    rw [List.cons_append, escapesQuote_cons hplain.2.1] at hescape
    obtain ⟨hquote, hrest⟩ := ih hescape
    exact ⟨by simp [hquote, hplain.1.symm], hrest⟩
  | short _ _ ih =>
    rw [List.cons_append, List.cons_append, escapesQuote_escape, Bool.or_eq_false_iff,
      decide_eq_false_iff_not] at hescape
    obtain ⟨hquote, hrest⟩ := ih hescape.2
    exact ⟨by simp [hquote, Ne.symm hescape.1], hrest⟩
  | unit hcode _ ih =>
    obtain ⟨hquotes, hescapes⟩ := hcode.plain
    rw [List.cons_append, List.cons_append, escapesQuote_escape, List.append_assoc,
      escapesQuote_append hescapes] at hescape
    obtain ⟨hquote, hrest⟩ := ih (by simpa using hescape)
    exact ⟨by simp [hquotes, hquote], hrest⟩

end Escape

end ShapeCodec.Json
