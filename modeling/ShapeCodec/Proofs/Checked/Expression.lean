import ShapeCodec.Proofs.Checked.Scan
import ShapeCodec.Shape.Expression
/-! Type expressions by byte offsets. The offset of the first opening bracket is looked for in the
body of an expression, and the body is cut there and behind the bracket once it has lost its closing
bracket, which makes it shorter. All cuts are between characters, and the pieces are those that the
parser splits off. -/
namespace ShapeCodec

namespace Text

variable {text before after body head inner : List Char} {offset : Nat} {c : Char}

/-- The byte offset of the first occurrence of a character. -/
def find? (c : Char) : List Char → Option Nat
  | [] => none
  | d :: rest => if d = c then some 0 else (find? c rest).map (d.utf8Size + ·)

/-- The text without its last character, if that is the one to be taken off. -/
def stripLast? (c : Char) (text : List Char) : Option (List Char) :=
  if text.getLast? = some c then some text.dropLast else none

theorem append_of_cut? (h : cut? offset text = some (before, after)) : text = before ++ after := by
  induction text generalizing offset before with
  | nil =>
    cases offset with
    | zero =>
      rw [cut?] at h
      cases h
      rfl
    | succ offset => cases h
  | cons c rest ih =>
    cases offset with
    | zero =>
      rw [cut?] at h
      cases h
      rfl
    | succ offset =>
      rw [cut?] at h
      split at h
      · cases h
      · obtain ⟨⟨before', after'⟩, hcut, hpieces⟩ := Option.map_eq_some_iff.1 h
        cases hpieces
        rw [ih hcut]
        rfl

theorem length_of_stripLast? (h : stripLast? c text = some inner) :
    inner.length < text.length := by
  unfold stripLast? at h
  split at h
  · next hlast =>
    cases h
    rw [← List.dropLast_append_getLast? c hlast]
    simp
  · cases h

/-- The offset is the length of what is split off before the bracket. -/
theorem find?_eq (body : List Char) :
    find? '<' body = (Shape.splitBracket? body).map fun pieces => utf8Length pieces.1 := by
  induction body with
  | nil => rfl
  | cons c rest ih =>
    rw [find?, Shape.splitBracket?]
    split
    · rfl
    · rw [ih, Option.map_map, Option.map_map]
      rfl

/-- The two cuts at a bracket, before and behind it. -/
theorem cuts_of_bracket (head inner : List Char) :
    cut? (utf8Length head) (head ++ '<' :: inner) = some (head, '<' :: inner) ∧
      cut? (utf8Length head + 1) (head ++ '<' :: inner) = some (head ++ ['<'], inner) := by
  have hbehind := cut?_append (head ++ ['<']) inner
  rw [utf8Length_append, List.append_assoc] at hbehind
  exact ⟨cut?_append head ('<' :: inner), hbehind⟩

theorem stripLast?_bracket (head inner : List Char) :
    stripLast? '>' (head ++ '<' :: inner) =
      if inner.getLast? = some '>' then some (head ++ '<' :: inner.dropLast) else none := by
  cases inner with
  | nil => simp [stripLast?]
  | cons c inner =>
    rw [stripLast?, List.getLast?_append_cons, List.getLast?_cons_cons,
      List.dropLast_append_cons, List.dropLast_cons_cons]

end Text

namespace Checked

/-- Reads a trimmed expression. -/
def ofChars? (text : List Char) : Except Trap (Option Shape) :=
  match Text.find? '<' (Shape.splitMark text).1 with
  | none => .ok (Shape.ofName? (String.ofList (Shape.splitMark text).1) (Shape.splitMark text).2)
  | some offset =>
    match _strip : Text.stripLast? '>' (Shape.splitMark text).1 with
    | none => .ok none
    | some inner =>
      match Text.cut? offset inner with
      | none => .error (.cut offset)
      | some (head, _) =>
        if Text.trim head = ['l', 'i', 's', 't'] then
          match _cut : Text.cut? (offset + 1) inner with
          | none => .error (.cut (offset + 1))
          | some (_, element) => (ofChars? (Text.trim element)).map fun shape? =>
              shape?.map (.list · (Shape.splitMark text).2)
        else .ok none
termination_by text.length
decreasing_by
  have cut := congrArg List.length (Text.append_of_cut? _cut)
  have strip := Text.length_of_stripLast? _strip
  have mark := Shape.length_splitMark_le text
  have blank := Text.length_trim_le element
  rw [List.length_append] at cut
  omega

/-- The shape that a text denotes. -/
def ofText (text : String) : Except Trap Shape :=
  let trimmed := Text.trim text.toList
  (ofChars? trimmed).map fun shape? => shape?.getD (.unsupported (String.ofList trimmed))

variable {text : List Char}

theorem ofChars?_of_name (h : Shape.splitBracket? (Shape.splitMark text).1 = none) :
    ofChars? text = .ok
      (Shape.ofName? (String.ofList (Shape.splitMark text).1) (Shape.splitMark text).2) := by
  rw [ofChars?, Text.find?_eq, h]
  rfl

/-- Both cuts go well. -/
theorem ofChars?_of_bracket {head inner : List Char}
    (h : Shape.splitBracket? (Shape.splitMark text).1 = some (head, inner)) :
    ofChars? text =
      if inner.getLast? = some '>' ∧ Text.trim head = ['l', 'i', 's', 't'] then
        (ofChars? (Text.trim inner.dropLast)).map fun shape? =>
          shape?.map (.list · (Shape.splitMark text).2)
      else .ok none := by
  have hbody := Shape.append_of_splitBracket? h
  have hstrip := Text.stripLast?_bracket head inner
  obtain ⟨hbefore, hbehind⟩ := Text.cuts_of_bracket head inner.dropLast
  rw [← hbody] at hstrip
  rw [ofChars?, Text.find?_eq, h]
  simp only [Option.map_some]
  by_cases hlast : inner.getLast? = some '>'
  · rw [if_pos hlast] at hstrip
    split
    · next hnone => cases hnone.symm.trans hstrip
    · next stripped hsome =>
      cases hsome.symm.trans hstrip
      simp only [hbefore, hlast, true_and]
      split
      · split
        · next hcut => cases hcut.symm.trans hbehind
        · next hcut =>
          cases hcut.symm.trans hbehind
          rfl
      · rfl
  · rw [if_neg hlast] at hstrip
    rw [if_neg fun h => hlast h.1]
    split
    · rfl
    · next hsome => cases hsome.symm.trans hstrip

/-- No cut of the parser goes wrong, and none of them changes what is read. -/
theorem ofChars?_eq (text : List Char) : ofChars? text = .ok (Shape.ofChars? text) := by
  fun_induction Shape.ofChars? text with
  | case1 text hsplit => exact ofChars?_of_name hsplit
  | case2 text head inner hsplit hlist ih =>
    rw [ofChars?_of_bracket hsplit, if_pos hlist, ih]
    rfl
  | case3 text head inner hsplit hlist => rw [ofChars?_of_bracket hsplit, if_neg hlist]

theorem ofText_eq (text : String) : ofText text = .ok (Shape.ofText text) := by
  rw [ofText, ofChars?_eq]
  rfl

end Checked

end ShapeCodec
