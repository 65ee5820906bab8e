import ShapeCodec.Shape.Expression
/-! The grammar of type expressions, and what their parser makes of it. Every expression of the
grammar is parsed as the shape that it stands for, the text of a shape among them, and whatever is
parsed names its object by a name that is no keyword. -/
namespace ShapeCodec

namespace Text

variable {text blanks lead trail : List Char}

/-- Nothing but blanks. -/
def Blanks (text : List Char) : Prop :=
  ∀ c ∈ text, isBlank c = true

theorem blanks_nil : Blanks [] := by
  simp [Blanks]

/-- Trimming takes nothing off the text. -/
structure Firm (text : List Char) : Prop where
  ne_nil : text ≠ []
  first : ∀ c ∈ text.head?, isBlank c = false
  last : ∀ c ∈ text.getLast?, isBlank c = false

theorem trimStart_append (hblanks : Blanks blanks) (hfirst : ∀ c ∈ text.head?, isBlank c = false) :
    trimStart (blanks ++ text) = text := by
  rw [trimStart, List.dropWhile_append_of_pos hblanks]
  cases text with
  | nil => rfl
  | cons c text => rw [List.dropWhile_cons_of_neg (by simp [hfirst c rfl])]

theorem trimEnd_append (hblanks : Blanks blanks) (hlast : ∀ c ∈ text.getLast?, isBlank c = false) :
    trimEnd (text ++ blanks) = text := by
  have hstart : trimStart (blanks.reverse ++ text.reverse) = text.reverse :=
    trimStart_append (by simpa [Blanks] using hblanks) (by simpa using hlast)
  rw [trimEnd, List.reverse_append]
  exact (congrArg List.reverse hstart).trans text.reverse_reverse

theorem Firm.trim (h : Firm text) (hlead : Blanks lead) (htrail : Blanks trail) :
    Text.trim (lead ++ text ++ trail) = text := by
  obtain ⟨c, rest, rfl⟩ := List.exists_cons_of_ne_nil h.ne_nil
  rw [Text.trim, List.append_assoc, trimStart_append hlead (by simpa using h.first),
    trimEnd_append htrail h.last]

theorem firm_concat {c : Char} (hne : text ≠ []) (hfirst : ∀ c ∈ text.head?, isBlank c = false)
    (hc : isBlank c = false) : Firm (text ++ [c]) := by
  obtain ⟨d, rest, rfl⟩ := List.exists_cons_of_ne_nil hne
  refine ⟨by simp, hfirst, ?_⟩
  · rw [List.getLast?_concat]
    rintro _ ⟨⟩
    exact hc

/-- The characters of names lie in a part of ASCII that has no blanks. -/
theorem isBlank_of_isNameRest {c : Char} (h : isNameRest c = true) : isBlank c = false := by
  have hrange : 48 ≤ c.toNat ∧ c.toNat ≤ 122 := by
    change (decide ('A'.val ≤ c.val ∧ c.val ≤ 'Z'.val) || ('a'.val ≤ c.val && c.val ≤ 'z'.val) ||
      ('0'.val ≤ c.val && c.val ≤ '9'.val) || c == '_') = true at h
    simp only [Bool.or_eq_true, Bool.and_eq_true, decide_eq_true_eq, beq_iff_eq,
      UInt32.le_iff_toNat_le] at h
    change 48 ≤ c.val.toNat ∧ c.val.toNat ≤ 122
    rcases h with ((⟨hlow, hhigh⟩ | ⟨hlow, hhigh⟩) | ⟨hlow, hhigh⟩) | rfl
    · exact ⟨Nat.le_trans (by decide) hlow, Nat.le_trans hhigh (by decide)⟩
    · exact ⟨Nat.le_trans (by decide) hlow, Nat.le_trans hhigh (by decide)⟩
    · exact ⟨Nat.le_trans (by decide) hlow, Nat.le_trans hhigh (by decide)⟩
    · decide
  simp only [isBlank, Bool.or_eq_false_iff, Bool.and_eq_false_iff, decide_eq_false_iff_not,
    beq_eq_false_iff_ne]
  omega

end Text

namespace Shape

open Text (Blanks Firm)

/-- The mark behind an expression, with the nullability it stands for. -/
inductive Mark : Bool → List Char → Prop
  | absent : Mark true []
  | nullable {blanks} : Blanks blanks → Mark true (blanks ++ ['?'])
  | nonNull {blanks} : Blanks blanks → Mark false (blanks ++ ['!'])

/-- Expressions and the shapes they stand for, given the shapes that names stand for with their
nullability: a name or a list of a further expression, with a mark. Blanks may stand between all
parts. -/
inductive Expression (meaning : String → Bool → Option Shape) : List Char → Shape → Prop
  | name {word nullable shape mark} : meaning word nullable = some shape → Mark nullable mark →
      Expression meaning (word.toList ++ mark) shape
  | list {behind lead text trail element nullable mark} : Blanks behind → Blanks lead →
      Expression meaning text element → Blanks trail → Mark nullable mark →
      Expression meaning
        (['l', 'i', 's', 't'] ++ behind ++ '<' :: (lead ++ text ++ trail) ++ ['>'] ++ mark)
        (.list element nullable)

variable {meaning other : String → Bool → Option Shape} {text body mark lead trail : List Char}
  {name word : String} {shape : Shape} {nullable : Bool}

theorem Expression.mono (h : Expression meaning text shape)
    (hmeaning : ∀ word nullable shape, meaning word nullable = some shape →
      other word nullable = some shape) : Expression other text shape := by
  induction h with
  | name hword hmark => exact .name (hmeaning _ _ _ hword) hmark
  | list hbehind hlead _ htrail hmark ih => exact .list hbehind hlead ih htrail hmark

section Names

/-- The words that stand for something other than an object of their name, or for nothing. -/
def keywords : List String :=
  ["int", "string", "list"] ++ reservedNames

theorem ofName?_of_notMem (hname : isIdentifier name = true) (hfree : name ∉ keywords)
    (nullable : Bool) : ofName? name nullable = some (.object name nullable) := by
  simp only [keywords, List.cons_append, List.nil_append, List.mem_cons, not_or] at hfree
  obtain ⟨hint, hstring, hlist, hreserved⟩ := hfree
  simp [ofName?, hname, hint, hstring, hlist, hreserved]

theorem isIdentifier_of_ofName? (h : ofName? word nullable = some shape) :
    isIdentifier word = true := by
  unfold ofName? at h
  split at h
  · cases h
  · next hname => simpa using hname

/-- A name stands for an object only if that is the object of the name. -/
theorem notMem_keywords_of_ofName? (h : ofName? word nullable = some shape)
    (hroot : shape.rootName? = some name) : word = name ∧ name ∉ keywords := by
  unfold ofName? at h
  split at h
  · cases h
  · split at h
    · cases h
      cases hroot
    · split at h
      · cases h
        cases hroot
      · split at h
        · cases h
        · cases h
          cases hroot
          simp_all [keywords]

theorem firm_of_isIdentifier (h : isIdentifier name = true) : Firm name.toList := by
  have hrest := isNameRest_of_isIdentifier h
  refine ⟨?_, fun c hc => ?_, fun c hc => ?_⟩
  · intro hempty
    simp [isIdentifier, hempty, isName] at h
  · exact Text.isBlank_of_isNameRest (hrest c (List.mem_of_mem_head? hc))
  · exact Text.isBlank_of_isNameRest (hrest c (List.mem_of_mem_getLast? hc))

theorem notMem_of_isIdentifier (h : isIdentifier name = true) {c : Char}
    (hc : isNameRest c = false) : c ∉ name.toList := by
  intro hmem
  rw [isNameRest_of_isIdentifier h c hmem] at hc
  cases hc

end Names

section Parser

/-- Nothing at the end of the text is taken for a mark or for blanks before one. -/
def Unmarked (text : List Char) : Prop :=
  ∀ c ∈ text.getLast?, c ≠ '?' ∧ c ≠ '!' ∧ Text.isBlank c = false

theorem splitMark_append (hbody : Unmarked body) (hmark : Mark nullable mark) :
    splitMark (body ++ mark) = (body, nullable) := by
  have hlast : ∀ c ∈ body.getLast?, Text.isBlank c = false := fun c hc => (hbody c hc).2.2
  cases hmark with
  | absent =>
    rw [List.append_nil]
    unfold splitMark
    split
    · next h => exact absurd rfl (hbody _ h).1
    · next h => exact absurd rfl (hbody _ h).2.1
    · rfl
  | nullable hblanks =>
    rw [splitMark, ← List.append_assoc, List.getLast?_concat, List.dropLast_concat,
      Text.trimEnd_append hblanks hlast]
    rfl
  | nonNull hblanks =>
    rw [splitMark, ← List.append_assoc, List.getLast?_concat, List.dropLast_concat,
      Text.trimEnd_append hblanks hlast]
    rfl

theorem splitBracket?_eq_none (h : '<' ∉ text) : splitBracket? text = none := by
  induction text with
  | nil => rfl
  | cons c text ih =>
    obtain ⟨hc, htext⟩ := not_or.1 (mt List.mem_cons.2 h)
    rw [splitBracket?, if_neg (Ne.symm hc), ih htext]
    rfl

theorem splitBracket?_append (h : '<' ∉ lead) :
    splitBracket? (lead ++ '<' :: text) = some (lead, text) := by
  induction lead with
  | nil => rfl
  | cons c lead ih =>
    obtain ⟨hc, hlead⟩ := not_or.1 (mt List.mem_cons.2 h)
    rw [List.cons_append, splitBracket?, if_neg (Ne.symm hc), ih hlead]
    rfl

theorem ofChars?_of_name (h : splitBracket? (splitMark text).1 = none) :
    ofChars? text = ofName? (String.ofList (splitMark text).1) (splitMark text).2 := by
  rw [ofChars?]
  split
  · rfl
  · next hsplit => cases h.symm.trans hsplit

theorem ofChars?_of_bracket {head inner : List Char}
    (h : splitBracket? (splitMark text).1 = some (head, inner)) :
    ofChars? text =
      if inner.getLast? = some '>' ∧ Text.trim head = ['l', 'i', 's', 't'] then
        (ofChars? (Text.trim inner.dropLast)).map (list · (splitMark text).2)
      else none := by
  rw [ofChars?]
  split
  · next hsplit => cases h.symm.trans hsplit
  · next hsplit =>
    cases h.symm.trans hsplit
    rfl

theorem Mark.firm (h : Mark nullable mark) (hbody : Firm body) : Firm (body ++ mark) := by
  have hconcat {blanks : List Char} {c : Char} (hc : Text.isBlank c = false) :
      Firm (body ++ (blanks ++ [c])) := by
    obtain ⟨d, rest, rfl⟩ := List.exists_cons_of_ne_nil hbody.ne_nil
    rw [← List.append_assoc]
    exact Text.firm_concat (by simp) hbody.first hc
  cases h with
  | absent => rwa [List.append_nil]
  | nullable => exact hconcat (by decide)
  | nonNull => exact hconcat (by decide)

/-- An expression has no blanks around it. -/
theorem Expression.firm (h : Expression ofName? text shape) : Firm text := by
  cases h with
  | name hword hmark => exact hmark.firm (firm_of_isIdentifier (isIdentifier_of_ofName? hword))
  | list _ _ _ _ hmark =>
    exact hmark.firm (Text.firm_concat (by simp) (by simp [Text.isBlank]) (by decide))

theorem unmarked_of_isIdentifier (h : isIdentifier name = true) : Unmarked name.toList := by
  intro c hc
  have hmem := List.mem_of_mem_getLast? hc
  refine ⟨?_, ?_, (firm_of_isIdentifier h).last c hc⟩
  · rintro rfl
    exact notMem_of_isIdentifier h (by decide) hmem
  · rintro rfl
    exact notMem_of_isIdentifier h (by decide) hmem

theorem unmarked_list (content : List Char) : Unmarked (content ++ ['>']) := by
  simp [Unmarked, Text.isBlank]

theorem trim_list {behind : List Char} (h : Blanks behind) :
    Text.trim (['l', 'i', 's', 't'] ++ behind) = ['l', 'i', 's', 't'] :=
  Firm.trim ⟨by simp, by simp [Text.isBlank], by simp [Text.isBlank]⟩ Text.blanks_nil h

theorem notMem_of_blanks {blanks : List Char} (h : Blanks blanks) {c : Char}
    (hc : Text.isBlank c = false) : c ∉ blanks := by
  intro hmem
  rw [h c hmem] at hc
  cases hc

/-- The parser gives every expression the shape that it stands for. -/
theorem Expression.ofChars? (h : Expression ofName? text shape) :
    Shape.ofChars? text = some shape := by
  induction h with
  | @name word nullable shape mark hword hmark =>
    have hname := isIdentifier_of_ofName? hword
    have hsplit := splitMark_append (unmarked_of_isIdentifier hname) hmark
    rw [ofChars?_of_name, hsplit, String.ofList_toList, hword]
    rw [hsplit]
    exact splitBracket?_eq_none (notMem_of_isIdentifier hname (by decide))
  | @list behind lead text trail element nullable mark hbehind hlead htext htrail hmark ih =>
    have hsplit := splitMark_append (unmarked_list
      (['l', 'i', 's', 't'] ++ behind ++ '<' :: (lead ++ text ++ trail))) hmark
    have hhead : '<' ∉ ['l', 'i', 's', 't'] ++ behind := by
      simpa using notMem_of_blanks hbehind (by decide)
    have hbracket : splitBracket? (splitMark (['l', 'i', 's', 't'] ++ behind ++
        '<' :: (lead ++ text ++ trail) ++ ['>'] ++ mark)).1 =
          some (['l', 'i', 's', 't'] ++ behind, lead ++ text ++ trail ++ ['>']) := by
      rw [hsplit, List.append_assoc, List.cons_append]
      exact splitBracket?_append hhead
    rw [ofChars?_of_bracket hbracket, hsplit, List.getLast?_concat, List.dropLast_concat,
      trim_list hbehind, htext.firm.trim hlead htrail, ih]
    rfl

/-- Blanks around an expression do not matter. -/
theorem Expression.ofText {expression : String} (h : Expression ofName? body shape)
    (hlead : Blanks lead) (htrail : Blanks trail)
    (htext : expression.toList = lead ++ body ++ trail) :
    Shape.ofText expression = shape := by
  rw [Shape.ofText, htext, h.firm.trim hlead htrail]
  simp [h.ofChars?]

/-- What is parsed has a root that may be declared and named. -/
theorem notMem_keywords_of_ofChars? (h : ofChars? text = some shape)
    (hroot : shape.rootName? = some name) : isIdentifier name = true ∧ name ∉ keywords := by
  fun_induction Shape.ofChars? text generalizing shape with
  | case1 text hsplit =>
    obtain ⟨rfl, hfree⟩ := notMem_keywords_of_ofName? h hroot
    exact ⟨isIdentifier_of_ofName? h, hfree⟩
  | case2 text head inner hsplit hlist ih =>
    obtain ⟨element, helement, rfl⟩ := Option.map_eq_some_iff.1 h
    exact ih helement hroot
  | case3 => cases h

end Parser

section Printing

theorem mark_text (nullable : Bool) : Mark nullable (if nullable then "" else "!").toList := by
  cases nullable with
  | true => exact .absent
  | false => exact .nonNull Text.blanks_nil

/-- The text of a shape is an expression for it, unless a part of it is unsupported or the name of
its object is a keyword. -/
theorem expression_text (hsupported : shape.unsupportedText? = none)
    (hroot : ∀ name, shape.rootName? = some name → isIdentifier name = true ∧ name ∉ keywords) :
    Expression ofName? shape.text.toList shape := by
  induction shape with
  | int =>
    have hint : ofName? "int" true = some .int := by decide
    exact .name hint .absent
  | string =>
    have hstring : ofName? "string" true = some .string := by decide
    exact .name hstring .absent
  | object name nullable =>
    obtain ⟨hname, hfree⟩ := hroot name rfl
    change Expression ofName? (name ++ if nullable then "" else "!").toList _
    rw [String.toList_append]
    exact .name (ofName?_of_notMem hname hfree nullable) (mark_text nullable)
  | list element nullable ih =>
    have helement := ih hsupported hroot
    have hlist := Expression.list Text.blanks_nil Text.blanks_nil helement Text.blanks_nil
      (mark_text nullable)
    change Expression ofName?
      ("list<" ++ element.text ++ ">" ++ if nullable then "" else "!").toList _
    simpa using hlist
  | unsupported text => cases hsupported

end Printing

end Shape

end ShapeCodec
