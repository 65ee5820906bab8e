import ShapeCodec.Proofs.Checked.Scan
/-! Skipping with checks. Inside an object or list the bytes are gone through one by one, a string
is stepped over as such, and a closing bracket takes one from the count of those that are open.
Skipping begins at an opening bracket, so a closing one is met only while some are open. -/
namespace ShapeCodec.Checked

variable {text : List Char} {c : Cursor} {d : Char} {tail : List Char}

/-- The piece that is looked through for a digit is cut out between two characters. -/
theorem mirrors_skipNumber : Mirrors text .parse (skipNumber text) Scan.skipNumber := by
  intro c hc
  obtain ⟨before, hbefore⟩ := hc.cut?
  have hbehind (offset : Nat) : cut c.offset text offset = .ok (before, c.rest) offset := by
    rw [cut, hbefore]
    rfl
  have hsplit : c.rest.takeWhile Scan.isNumberPart ++ c.rest.dropWhile Scan.isNumberPart = c.rest :=
    List.takeWhile_append_dropWhile
  have hpieces (offset : Nat) : cut ((c.skipWhile Scan.isNumberPart).offset - c.offset) c.rest
      offset = .ok (c.rest.takeWhile Scan.isNumberPart, c.rest.dropWhile Scan.isNumberPart)
        offset := by
    have hcut := Text.cut?_append (c.rest.takeWhile Scan.isNumberPart)
      (c.rest.dropWhile Scan.isNumberPart)
    rw [hsplit] at hcut
    rw [cut, Cursor.skipWhile, Cursor.after, Nat.add_sub_cancel_left, hcut]
    rfl
  have hrun : skipNumber text c.offset =
      if (c.rest.takeWhile Scan.isNumberPart).any Char.isDigit then
        .ok () (c.skipWhile Scan.isNumberPart).offset
      else .error (.error (.parse (c.error .digits))) (c.skipWhile Scan.isNumberPart).offset := by
    refine (Running.bind_of_ok rfl).trans ?_
    refine (Running.bind_of_ok (skipWhile_eq isAscii_isNumberPart hc)).trans ?_
    refine (Running.bind_of_ok rfl).trans ?_
    refine (Running.bind_of_ok (hbehind _)).trans ?_
    refine (Running.bind_of_ok (hpieces _)).trans ?_
    rw [Text.any_bytes isAscii_isDigit]
    split <;> rfl
  have hin := in_skipWhile hc Scan.isNumberPart
  have hle : c.offset ≤ (c.skipWhile Scan.isNumberPart).offset := Nat.le_add_right _ _
  rw [hrun, Scan.skipNumber]
  by_cases hdigit : (c.rest.takeWhile Scan.isNumberPart).any Char.isDigit = true
  · simp only [if_pos hdigit]
    exact .ok hin hle
  · simp only [if_neg hdigit]
    refine .error hin hle ?_
    rintro _ ⟨⟩
    exact hc.boundary

section Nested

variable {b : UInt8} {bound depth offset : Nat}

theorem skipNested_quote (hpeek : peek text offset = .ok (some b) offset)
    (hquote : Text.isByte (· = '"') b = true) :
    skipNested text (bound + 1) depth offset =
      (do discard (readString text); skipNested text bound depth : Step Unit) offset := by
  rw [skipNested.eq_def]
  refine (Running.bind_of_ok hpeek).trans ?_
  simp only [hquote, if_true]

theorem skipNested_opening (hpeek : peek text offset = .ok (some b) offset)
    (hquote : Text.isByte (· = '"') b = false) (hopening : Text.isByte isOpening b = true) :
    skipNested text (bound + 1) depth offset =
      skipNested text bound (depth + 1) (offset + 1) := by
  rw [skipNested.eq_def]
  refine (Running.bind_of_ok hpeek).trans ?_
  simp only [hquote, hopening, Bool.false_eq_true, if_false, if_true]
  exact Running.bind_of_ok rfl

theorem skipNested_closing (hpeek : peek text offset = .ok (some b) offset)
    (hquote : Text.isByte (· = '"') b = false) (hopening : Text.isByte isOpening b = false)
    (hclosing : Text.isByte isClosing b = true) :
    skipNested text (bound + 1) (depth + 1) offset =
      if depth = 0 then .ok () (offset + 1) else skipNested text bound depth (offset + 1) := by
  rw [skipNested.eq_def]
  refine (Running.bind_of_ok hpeek).trans ?_
  simp only [hquote, hopening, hclosing, Bool.false_eq_true, if_false, if_true]
  cases depth with
  | zero => rfl
  | succ depth => exact Running.bind_of_ok rfl

theorem skipNested_other (hpeek : peek text offset = .ok (some b) offset)
    (hquote : Text.isByte (· = '"') b = false) (hopening : Text.isByte isOpening b = false)
    (hclosing : Text.isByte isClosing b = false) :
    skipNested text (bound + 1) depth offset = skipNested text bound depth (offset + 1) := by
  rw [skipNested.eq_def]
  refine (Running.bind_of_ok hpeek).trans ?_
  simp only [hquote, hopening, hclosing, Bool.false_eq_true, if_false]
  exact Running.bind_of_ok rfl

/-- Bytes that are neither quotes nor brackets are stepped over one by one. -/
theorem skipNested_bytes {run more : List UInt8}
    (hrun : ∀ b ∈ run, Text.isByte (· = '"') b = false ∧ Text.isByte isOpening b = false ∧
      Text.isByte isClosing b = false)
    (htext : (Text.bytes text).drop offset = run ++ more) :
    skipNested text (bound + run.length) depth offset =
      skipNested text bound depth (offset + run.length) := by
  induction run generalizing offset with
  | nil => rfl
  | cons b run ih =>
    obtain ⟨hquote, hopening, hclosing⟩ := hrun b List.mem_cons_self
    have hpeek : peek text offset = .ok (some b) offset := by
      rw [peek, ← List.head?_drop, htext]
      rfl
    have hnext : (Text.bytes text).drop (offset + 1) = run ++ more := by
      rw [← List.drop_drop, htext]
      rfl
    have hrest := ih (fun d hd => hrun d (List.mem_cons_of_mem b hd)) hnext
    rw [List.length_cons, ← Nat.add_assoc, skipNested_other hpeek hquote hopening hclosing, hrest,
      Nat.add_assoc, Nat.add_comm 1]

end Nested

/-- Content without a closing quote is gone through to the end of the text. -/
theorem skipBrackets_open {content : List Char} (h : '"' ∉ content) (depth : Nat) (start : Cursor)
    (offset : Nat) : Scan.skipBrackets depth (some start) offset content =
      .error ⟨offset + Text.utf8Length content, .char '"'⟩ start := by
  induction content generalizing offset with
  | nil => rfl
  | cons d content ih =>
    simp only [List.mem_cons, not_or] at h
    rw [Scan.skipBrackets, if_neg (Ne.symm h.1), ih h.2, Text.utf8Length, Nat.add_assoc]

/-- Goes on inside `depth` brackets. -/
def skipInside (depth : Nat) : Scan Unit :=
  fun c => Scan.skipBrackets depth none c.offset c.rest

/-- A string inside brackets is stepped over as a string is elsewhere. -/
theorem skipInside_quote {depth : Nat} (hrest : c.rest = '"' :: tail) :
    skipInside depth c = (discard Scan.readString >>= fun _ => skipInside depth) c := by
  obtain ⟨offset, rest⟩ := c
  obtain rfl : rest = '"' :: tail := hrest
  have hstep : skipInside depth ⟨offset, '"' :: tail⟩ =
      Scan.skipBrackets depth (some ⟨offset + 1, tail⟩) (offset + 1) tail := by
    rw [skipInside, Scan.skipBrackets, if_pos rfl]
    rfl
  rw [hstep]
  rcases span_quote tail with ⟨hnone, hdrop⟩ | ⟨content, behind, rfl, hcontent, -, -⟩
  · have hstring : Scan.readString ⟨offset, '"' :: tail⟩ =
        .error ⟨offset + 1 + Text.utf8Length tail, .char '"'⟩ ⟨offset + 1, tail⟩ := by
      refine (Running.bind_of_ok ((Consumes.expect '"' tail).run offset)).trans ?_
      simp only [Scan.readContent, hdrop]
      rfl
    rw [skipBrackets_open hnone, Running.bind_of_error]
    rw [Running.discard_eq_map, Running.map_apply, hstring]
  · have hstring := (Consumes.readString hcontent behind).discard.run offset
    have htext : '"' :: content ++ ['"'] ++ behind = '"' :: (content ++ '"' :: behind) := by simp
    rw [htext] at hstring
    rw [skipBrackets_content hcontent, Running.bind_of_ok hstring, List.cons_append,
      Text.utf8Length, ← Nat.add_assoc]
    rfl

/-- With at most so many bytes left, skipping inside brackets comes out as it does without
checks. -/
def Inside (text : List Char) (bound : Nat) : Prop :=
  ∀ c, c.In text → (Text.bytes c.rest).length ≤ bound → ∀ depth,
    Agrees text .parse c.offset (skipNested text bound (depth + 1) c.offset)
      (skipInside (depth + 1) c)

section Inside

variable {bound : Nat} (hc : c.In text) (depth : Nat)
include hc

theorem inside_end (hrest : c.rest = []) :
    Agrees text .parse c.offset (skipNested text bound (depth + 1) c.offset)
      (skipInside (depth + 1) c) := by
  have hend : skipNested text bound (depth + 1) c.offset = fail .value c.offset := by
    cases bound with
    | zero => rfl
    | succ bound => exact Running.bind_of_ok (peek_of_nil hc hrest)
  rw [hend, skipInside, hrest]
  obtain ⟨offset, rest⟩ := c
  obtain rfl : rest = [] := hrest
  exact mirrors_fail .value ⟨offset, []⟩ hc

/-- A string is not empty, so less is left behind it. -/
theorem inside_quote (ih : Inside text bound) (hrest : c.rest = '"' :: tail)
    (hbound : (Text.bytes c.rest).length ≤ bound + 1) :
    Agrees text .parse c.offset (skipNested text (bound + 1) (depth + 1) c.offset)
      (skipInside (depth + 1) c) := by
  obtain ⟨b, hpeek, hb⟩ := peek_of_cons hc hrest
  have hquote : Text.isByte (· = '"') b = true := hb _ (isAscii_eq (by decide))
  rw [skipNested_quote hpeek hquote, skipInside_quote hrest]
  apply (mirrors_readString.discard c hc).bind
  intro _ c' hrun hin
  obtain ⟨_, hstring, -⟩ := Running.map_eq_ok_iff.1 hrun
  obtain ⟨taken, hne, hsplit, -⟩ := delimits_readString _ _ _ hstring
  obtain ⟨e, taken, rfl⟩ := List.exists_cons_of_ne_nil hne
  refine ih c' hin ?_ depth
  have hpos := e.utf8Size_pos
  rw [hsplit] at hbound
  simp only [Text.length_bytes, List.cons_append, Text.utf8Length, Text.utf8Length_append]
    at hbound ⊢
  omega

theorem inside_opening (ih : Inside text bound) (hrest : c.rest = d :: tail)
    (hd : isOpening d = true) (hbound : (Text.bytes c.rest).length ≤ bound + 1) :
    Agrees text .parse c.offset (skipNested text (bound + 1) depth c.offset)
      (skipInside depth c) := by
  obtain ⟨b, hpeek, hb⟩ := peek_of_cons hc hrest
  have hlt := isAscii_isOpening d hd
  have hquote : d ≠ '"' := by
    rintro rfl
    cases hd
  have hbyte : Text.isByte (· = '"') b = false := by
    rw [hb _ (isAscii_eq (by decide)), decide_eq_false hquote]
  have hstep : skipInside depth c = skipInside (depth + 1) ⟨c.offset + 1, tail⟩ := by
    rw [skipInside, hrest, Scan.skipBrackets, if_neg hquote,
      if_pos (by simpa [isOpening] using hd), Text.utf8Size_of_lt hlt]
    rfl
  rw [skipNested_opening hpeek hbyte ((hb _ isAscii_isOpening).trans hd), hstep]
  have hleft : (Text.bytes tail).length ≤ bound := by
    rw [hrest, Text.bytes_cons hlt, List.length_cons] at hbound
    exact Nat.le_of_succ_le_succ hbound
  exact (ih _ (hc.next hrest hlt) hleft depth).mono (Nat.le_add_right _ _)

theorem inside_closing (ih : Inside text bound) (hrest : c.rest = d :: tail)
    (hd : isClosing d = true) (hbound : (Text.bytes c.rest).length ≤ bound + 1) :
    Agrees text .parse c.offset (skipNested text (bound + 1) (depth + 1) c.offset)
      (skipInside (depth + 1) c) := by
  obtain ⟨b, hpeek, hb⟩ := peek_of_cons hc hrest
  have hlt := isAscii_isClosing d hd
  have hclosing : d = '\x7d' ∨ d = ']' := by simpa [isClosing] using hd
  have hquote : d ≠ '"' := by rcases hclosing with rfl | rfl <;> decide
  have hopening : isOpening d = false := by rcases hclosing with rfl | rfl <;> decide
  have hbyte : Text.isByte (· = '"') b = false := by
    rw [hb _ (isAscii_eq (by decide)), decide_eq_false hquote]
  have hstep : skipInside (depth + 1) c = if depth = 0 then .ok () ⟨c.offset + 1, tail⟩
      else skipInside depth ⟨c.offset + 1, tail⟩ := by
    rw [skipInside, hrest, Scan.skipBrackets, if_neg hquote,
      if_neg (by simpa [isOpening] using hopening), if_pos hclosing, Text.utf8Size_of_lt hlt]
    cases depth <;> rfl
  rw [skipNested_closing hpeek hbyte ((hb _ isAscii_isOpening).trans hopening)
    ((hb _ isAscii_isClosing).trans hd), hstep]
  have hin := hc.next hrest hlt
  have hleft : (Text.bytes tail).length ≤ bound := by
    rw [hrest, Text.bytes_cons hlt, List.length_cons] at hbound
    exact Nat.le_of_succ_le_succ hbound
  cases depth with
  | zero => exact .ok hin (Nat.le_add_right _ _)
  | succ depth => exact (ih _ hin hleft depth).mono (Nat.le_add_right _ _)

/-- Any other character is stepped over in as many steps as it has bytes. -/
theorem inside_other (ih : ∀ left ≤ bound, Inside text left) (hrest : c.rest = d :: tail)
    (hquote : d ≠ '"') (hopening : isOpening d = false) (hclosing : isClosing d = false)
    (hbound : (Text.bytes c.rest).length ≤ bound + 1) :
    Agrees text .parse c.offset (skipNested text (bound + 1) (depth + 1) c.offset)
      (skipInside (depth + 1) c) := by
  have hrun : ∀ b ∈ String.utf8EncodeChar d, Text.isByte (· = '"') b = false ∧
      Text.isByte isOpening b = false ∧ Text.isByte isClosing b = false := by
    intro b hb
    exact ⟨Text.isByte_of_mem (decide_eq_false hquote) hb, Text.isByte_of_mem hopening hb,
      Text.isByte_of_mem hclosing hb⟩
  have hstep : skipInside (depth + 1) c =
      skipInside (depth + 1) ⟨c.offset + d.utf8Size, tail⟩ := by
    rw [skipInside, hrest, Scan.skipBrackets, if_neg hquote,
      if_neg (by simpa [isOpening] using hopening), if_neg (by simpa [isClosing] using hclosing)]
    rfl
  have hpos := d.utf8Size_pos
  have hbytes : (Text.bytes text).drop c.offset = String.utf8EncodeChar d ++ Text.bytes tail := by
    rw [hc.drop, hrest]
    exact List.flatMap_cons
  have hlength : d.utf8Size + (Text.bytes tail).length ≤ bound + 1 := by
    rw [hrest, Text.length_bytes, Text.utf8Length, ← Text.length_bytes] at hbound
    exact hbound
  have hsplit : bound + 1 = (bound + 1 - d.utf8Size) + (String.utf8EncodeChar d).length := by
    rw [String.length_utf8EncodeChar]
    omega
  rw [hsplit, skipNested_bytes hrun hbytes, String.length_utf8EncodeChar, hstep]
  refine (ih _ (by omega) _ (hc.after [d] tail hrest) ?_ depth).mono (Nat.le_add_right _ _)
  simp only [Cursor.after]
  omega

end Inside

/-- One character is looked at in every round. A string or a character of several bytes takes more
than one from what is left. -/
theorem inside (text : List Char) (bound : Nat) : Inside text bound := by
  induction bound using Nat.strongRecOn with
  | ind bound ih =>
    intro c hc hbound depth
    cases hrest : c.rest with
    | nil => exact inside_end hc depth hrest
    | cons d tail =>
      have hpos := d.utf8Size_pos
      obtain ⟨bound, rfl⟩ : ∃ left, bound = left + 1 := by
        rw [hrest, Text.length_bytes, Text.utf8Length] at hbound
        exact Nat.exists_eq_add_one.2 (by omega)
      have hprevious := ih bound (Nat.lt_succ_self bound)
      by_cases hquote : d = '"'
      · subst hquote
        exact inside_quote hc depth hprevious hrest hbound
      cases hopening : isOpening d with
      | true => exact inside_opening hc (depth + 1) hprevious hrest hopening hbound
      | false =>
        cases hclosing : isClosing d with
        | true => exact inside_closing hc depth hprevious hrest hclosing hbound
        | false =>
          have hall (left : Nat) (hle : left ≤ bound) : Inside text left :=
            ih left (Nat.lt_succ_of_le hle)
          exact inside_other hc depth hall hrest hquote hopening hclosing hbound

/-- The first bracket opens, so that the count of open ones never goes below zero. -/
theorem skipNested_agrees (hc : c.In text) (hrest : c.rest = d :: tail)
    (hd : isOpening d = true) :
    Agrees text .parse c.offset (skipNested text ((Text.bytes text).length - c.offset) 0 c.offset)
      (skipInside 0 c) := by
  have hleft : (Text.bytes text).length - c.offset = (Text.bytes tail).length + 1 := by
    rw [hc.length, hrest, Text.bytes_cons (isAscii_isOpening d hd), List.length_cons]
    omega
  rw [hleft]
  refine inside_opening hc 0 (inside text _) hrest hd ?_
  exact Nat.le_of_eq (by rw [hrest, Text.bytes_cons (isAscii_isOpening d hd), List.length_cons])

theorem mirrors_skipWord : Mirrors text .parse (skipWord text) Scan.skipWord := by
  apply (mirrors_tryWord nullWord).bind
  intro _
  apply Mirrors.ite (mirrors_pure ())
  apply (mirrors_tryWord _).bind
  intro _
  apply Mirrors.ite (mirrors_pure ())
  apply (mirrors_tryWord _).bind
  intro _
  exact .ite (mirrors_pure ()) (mirrors_fail .value)

theorem mirrors_skipValue : Mirrors text .parse (skipValue text) Scan.skipValue := by
  apply mirrors_skipWhitespace.bind
  intro _ c hc
  rw [Running.bind_of_ok (Running.get_apply c)]
  cases hrest : c.rest with
  | nil =>
    have hhead : c.peek? = none := by
      rw [Cursor.peek?, hrest]
      rfl
    -- At the end of the text no word is found.
    rw [Running.bind_of_ok (peek_of_nil hc hrest), hhead]
    obtain ⟨offset, rest⟩ := c
    obtain rfl : rest = [] := hrest
    exact mirrors_skipWord ⟨offset, []⟩ hc
  | cons d tail =>
    obtain ⟨b, hpeek, hb⟩ := peek_of_cons hc hrest
    have hquote := hb _ (isAscii_eq (d := '"') (by decide))
    have hopening : Text.isByte isOpening b = decide (d = '\x7b' ∨ d = '[') := by
      rw [hb _ isAscii_isOpening, isOpening, Bool.decide_or]
    have hnumber : Text.isByte isNumberStart b = decide (d = '-' ∨ d.isDigit) := by
      rw [hb _ isAscii_isNumberStart, isNumberStart, Bool.decide_or, Bool.decide_eq_true]
    have hhead : c.peek? = some d := by
      rw [Cursor.peek?, hrest]
      rfl
    rw [Running.bind_of_ok hpeek]
    simp only [hhead, hquote, hopening, hnumber, decide_eq_true_eq]
    refine .ite (fun _ => mirrors_readString.discard c hc) fun _ => ?_
    refine .ite (fun ho => ?_) fun _ => mirrors_skipNumber.ite mirrors_skipWord c hc
    exact skipNested_agrees hc hrest (by simpa [isOpening] using ho)

end ShapeCodec.Checked
