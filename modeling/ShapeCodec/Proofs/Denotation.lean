import ShapeCodec.Proofs.Checked.Expression
import ShapeCodec.Proofs.Expression
/-! What texts denote. A grammar with two levels, bases and their marks, gives some texts a shape;
the parser finds exactly these shapes, and takes every other text as a whole for an unsupported one.
The text of what it finds denotes the same shape again. -/
namespace ShapeCodec

namespace Text

variable {text : List Char}

theorem exists_trimStart (text : List Char) : ∃ lead, Blanks lead ∧ text = lead ++ trimStart text :=
  ⟨text.takeWhile isBlank, fun _ hc => List.mem_takeWhile_imp hc,
    List.takeWhile_append_dropWhile.symm⟩

theorem exists_trimEnd (text : List Char) :
    ∃ trail, Blanks trail ∧ text = trimEnd text ++ trail := by
  obtain ⟨lead, hlead, htext⟩ := exists_trimStart text.reverse
  refine ⟨lead.reverse, by simpa [Blanks] using hlead, ?_⟩
  have hreverse := congrArg List.reverse htext
  rwa [List.reverse_reverse, List.reverse_append] at hreverse

/-- Trimming takes off blanks only. -/
theorem exists_trim (text : List Char) :
    ∃ lead trail, Blanks lead ∧ Blanks trail ∧ text = lead ++ trim text ++ trail := by
  obtain ⟨lead, hlead, hstart⟩ := exists_trimStart text
  obtain ⟨trail, htrail, hend⟩ := exists_trimEnd (trimStart text)
  refine ⟨lead, trail, hlead, htrail, ?_⟩
  rw [List.append_assoc, trim, ← hend, ← hstart]

theorem not_blank_trimStart (text : List Char) :
    ∀ c ∈ (trimStart text).head?, isBlank c = false := by
  intro c hc
  have h := List.head?_dropWhile_not isBlank text
  rw [trimStart] at hc
  rw [hc] at h
  exact h

theorem not_blank_trim (text : List Char) : ∀ c ∈ (trim text).head?, isBlank c = false := by
  obtain ⟨trail, -, hend⟩ := exists_trimEnd (trimStart text)
  intro c hc
  refine not_blank_trimStart text c ?_
  rw [hend]
  exact List.mem_head?_append_of_mem_head? hc

/-- What is left has no blanks around it. -/
theorem firm_trim (h : trim text ≠ []) : Firm (trim text) := by
  refine ⟨h, not_blank_trim text, fun c hc => ?_⟩
  refine not_blank_trimStart (trimStart text).reverse c ?_
  rwa [trim, trimEnd, List.getLast?_reverse] at hc

theorem trim_trim (text : List Char) : trim (trim text) = trim text := by
  by_cases h : trim text = []
  · rw [h]
    rfl
  · simpa using (firm_trim h).trim blanks_nil blanks_nil

end Text

namespace Shape

open Text (Blanks Firm)

mutual

/-- A text is a base with a mark, which makes its object or its list nullable or not. -/
inductive Denotes : List Char → Shape → Prop
  | marked {body base nullable mark} : DenotesBase body base → Mark nullable mark →
      Denotes (body ++ mark) (base.withNullable nullable)

/-- A base is a name that is not reserved, or a list of a further text. Blanks may stand between
the parts. -/
inductive DenotesBase : List Char → Shape → Prop
  | int : DenotesBase ['i', 'n', 't'] .int
  | string : DenotesBase ['s', 't', 'r', 'i', 'n', 'g'] .string
  | object {name} : isIdentifier name = true → name ≠ "int" → name ≠ "string" → name ≠ "list" →
      name ∉ reservedNames → DenotesBase name.toList (.object name true)
  | list {behind lead text trail element} : Blanks behind → Blanks lead → Denotes text element →
      Blanks trail →
      DenotesBase (['l', 'i', 's', 't'] ++ behind ++ '<' :: (lead ++ text ++ trail) ++ ['>'])
        (.list element true)

end

variable {text body mark inner : List Char} {name word : String} {shape : Shape} {nullable : Bool}

section Complete

mutual

theorem expression_of_denotes {text : List Char} {shape : Shape} :
    Denotes text shape → Expression ofName? text shape
  | .marked hbase hmark => expression_of_base hbase hmark

theorem expression_of_base {body mark : List Char} {base : Shape} {nullable : Bool} :
    DenotesBase body base → Mark nullable mark →
      Expression ofName? (body ++ mark) (base.withNullable nullable)
  | .int, hmark =>
    have hint : ofName? "int" nullable = some .int := rfl
    .name hint hmark
  | .string, hmark =>
    have hstring : ofName? "string" nullable = some .string := rfl
    .name hstring hmark
  | .object hname hint hstring hlist hfree, hmark =>
    have hkeyword : _ ∉ keywords := by simp [keywords, hint, hstring, hlist, hfree]
    .name (ofName?_of_notMem hname hkeyword nullable) hmark
  | .list hbehind hlead htext htrail, hmark =>
    .list hbehind hlead (expression_of_denotes htext) htrail hmark

end

end Complete

section Sound

theorem exists_splitMark (text : List Char) :
    ∃ mark, text = (splitMark text).1 ++ mark ∧ Mark (splitMark text).2 mark := by
  have hsplit {c : Char} (h : text.getLast? = some c) :
      ∃ blanks, Blanks blanks ∧ text = Text.trimEnd text.dropLast ++ (blanks ++ [c]) := by
    obtain ⟨blanks, hblanks, hend⟩ := Text.exists_trimEnd text.dropLast
    refine ⟨blanks, hblanks, ?_⟩
    rw [← List.append_assoc, ← hend]
    exact (List.dropLast_append_getLast? c h).symm
  unfold splitMark
  split
  · next h =>
    obtain ⟨blanks, hblanks, htext⟩ := hsplit h
    exact ⟨blanks ++ ['?'], htext, .nullable hblanks⟩
  · next h =>
    obtain ⟨blanks, hblanks, htext⟩ := hsplit h
    exact ⟨blanks ++ ['!'], htext, .nonNull hblanks⟩
  · exact ⟨[], by simp, .absent⟩

/-- What a name stands for does not depend on its mark, except for the nullability. -/
theorem denotes_of_ofName? (h : ofName? word nullable = some shape) (hmark : Mark nullable mark) :
    Denotes (word.toList ++ mark) shape := by
  unfold ofName? at h
  split at h
  · cases h
  · next hname =>
    split at h
    · next hint =>
      subst hint
      cases h
      exact .marked .int hmark
    · next hint =>
      split at h
      · next hstring =>
        subst hstring
        cases h
        exact .marked .string hmark
      · next hstring =>
        split at h
        · cases h
        · next hlist =>
          obtain ⟨hlist, hfree⟩ := not_or.1 hlist
          cases h
          exact .marked (.object (by simpa using hname) hint hstring hlist hfree) hmark

/-- A head that is trimmed to the word starts with it, if it starts with no blank. -/
theorem exists_behind {head : List Char} (h : Text.trim head = ['l', 'i', 's', 't'])
    (hfirst : ∀ c ∈ head.head?, Text.isBlank c = false) :
    ∃ behind, Blanks behind ∧ head = ['l', 'i', 's', 't'] ++ behind := by
  obtain ⟨lead, trail, hlead, htrail, htext⟩ := Text.exists_trim head
  refine ⟨trail, htrail, ?_⟩
  cases lead with
  | nil => rw [htext, h]; rfl
  | cons c lead =>
    have hblank := hlead c List.mem_cons_self
    rw [hfirst c (by rw [htext]; rfl)] at hblank
    cases hblank

/-- What the parser finds, the text denotes. -/
theorem denotes_of_ofChars? (h : ofChars? text = some shape)
    (hfirst : ∀ c ∈ text.head?, Text.isBlank c = false) : Denotes text shape := by
  obtain ⟨mark, htext, hmark⟩ := exists_splitMark text
  fun_induction Shape.ofChars? text generalizing shape mark with
  | case1 text hsplit =>
    rw [htext]
    simpa using denotes_of_ofName? h hmark
  | case2 text head inner hsplit hlist ih =>
    obtain ⟨hlast, hhead⟩ := hlist
    obtain ⟨element, helement, rfl⟩ := Option.map_eq_some_iff.1 h
    obtain ⟨innerMark, hinner, hinnerMark⟩ := exists_splitMark (Text.trim inner.dropLast)
    have hdenotes := ih helement (Text.not_blank_trim _) innerMark hinner hinnerMark
    have hbody := append_of_splitBracket? hsplit
    obtain ⟨behind, hbehind, rfl⟩ := exists_behind hhead fun c hc => hfirst c (by
      rw [htext, hbody, List.append_assoc]
      exact List.mem_head?_append_of_mem_head? hc)
    obtain ⟨lead, trail, hlead, htrail, hdrop⟩ := Text.exists_trim inner.dropLast
    have hinner : inner = lead ++ Text.trim inner.dropLast ++ trail ++ ['>'] := by
      rw [← hdrop]
      exact (List.dropLast_append_getLast? '>' hlast).symm
    have hlist : (splitMark text).1 = ['l', 'i', 's', 't'] ++ behind ++
        '<' :: (lead ++ Text.trim inner.dropLast ++ trail) ++ ['>'] := by
      rw [hbody, List.append_assoc _ _ ['>']]
      exact congrArg (['l', 'i', 's', 't'] ++ behind ++ '<' :: ·) hinner
    have hbase := DenotesBase.list hbehind hlead hdenotes htrail
    rw [← hlist] at hbase
    have hmarked := Denotes.marked hbase hmark
    rwa [← htext] at hmarked
  | case3 => cases h

theorem supported_of_ofChars? (h : ofChars? text = some shape) : shape.unsupportedText? = none := by
  fun_induction Shape.ofChars? text generalizing shape with
  | case1 text hsplit =>
    unfold ofName? at h
    split at h
    · cases h
    · split at h
      · cases h
        rfl
      · split at h
        · cases h
          rfl
        · split at h
          · cases h
          · cases h
            rfl
  | case2 text head inner hsplit hlist ih =>
    obtain ⟨element, helement, rfl⟩ := Option.map_eq_some_iff.1 h
    have hsupported := ih helement
    exact hsupported
  | case3 => cases h

end Sound

/-- Where nothing is found in a text, it is unsupported as a whole. -/
theorem ofText_cases (text : String) :
    (∃ shape, ofChars? (Text.trim text.toList) = some shape ∧ ofText text = shape) ∨
      ofChars? (Text.trim text.toList) = none ∧
        ofText text = unsupported (String.ofList (Text.trim text.toList)) := by
  rw [ofText]
  cases ofChars? (Text.trim text.toList) with
  | none => exact .inr ⟨rfl, rfl⟩
  | some shape => exact .inl ⟨shape, rfl, rfl⟩

theorem denotes_iff (text : String) (shape : Shape) :
    Denotes (Text.trim text.toList) shape ↔
      ofText text = shape ∧ shape.unsupportedText? = none := by
  constructor
  · intro h
    have hparse := (expression_of_denotes h).ofChars?
    refine ⟨?_, supported_of_ofChars? hparse⟩
    rw [ofText, hparse]
    rfl
  · rintro ⟨rfl, hsupported⟩
    rcases ofText_cases text with ⟨shape, hparse, heq⟩ | ⟨-, heq⟩
    · rw [heq]
      exact denotes_of_ofChars? hparse (Text.not_blank_trim _)
    · rw [heq] at hsupported
      cases hsupported

/-- The text of what is found denotes it again. -/
theorem ofText_text (text : String) : ofText (ofText text).text = ofText text := by
  rcases ofText_cases text with ⟨shape, hparse, heq⟩ | ⟨hparse, heq⟩
  · rw [heq]
    have hexpression := expression_text (supported_of_ofChars? hparse)
      fun name hroot => notMem_keywords_of_ofChars? hparse hroot
    exact hexpression.ofText Text.blanks_nil Text.blanks_nil (by simp)
  · rw [heq, Shape.text, ofText, String.toList_ofList, Text.trim_trim, hparse]
    rfl

/-- The parser finds the shapes that trimmed texts denote by the grammar, and takes every other text
as a whole for an unsupported one. It never cuts a text apart inside a character or beyond its end,
and finds the same shape in the text of what it has found. -/
theorem ofText_exact (text : String) :
    (∀ shape, Denotes (Text.trim text.toList) shape ↔
      ofText text = shape ∧ shape.unsupportedText? = none) ∧
    ((∀ shape, ¬ Denotes (Text.trim text.toList) shape) →
      ofText text = unsupported (String.ofList (Text.trim text.toList))) ∧
    Checked.ofText text = .ok (ofText text) ∧
    ofText (ofText text).text = ofText text := by
  refine ⟨denotes_iff text, fun hnone => ?_, Checked.ofText_eq text, ofText_text text⟩
  rcases ofText_cases text with ⟨shape, hparse, heq⟩ | ⟨-, heq⟩
  · exact absurd (denotes_of_ofChars? hparse (Text.not_blank_trim _)) (hnone shape)
  · exact heq

end Shape

end ShapeCodec
