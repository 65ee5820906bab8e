import ShapeCodec.Proofs.Json.Numeral
/-! The JSON parser is sound: what it takes off the front of a text is grammatical, stands for the
value it answers with, and is nested within its limit, repeated keys left out or not. -/
namespace ShapeCodec.Json

variable {c : Char} {text rest : List Char}

section Strings

variable {code : Nat}

theorem utf8Size_of_hexValue? {digit : Nat} (h : hexValue? c = some digit) : c.utf8Size = 1 := by
  unfold hexValue? at h
  split at h
  · next hdigit => exact Consumes.utf8Size_of_isDigit hdigit
  · split at h
    · next hlower => rw [Char.utf8Size, if_pos (UInt32.le_trans hlower.2 (by decide))]
    · split at h
      · next hupper => rw [Char.utf8Size, if_pos (UInt32.le_trans hupper.2 (by decide))]
      · cases h

theorem utf8Length_of_hexNumber? {n : Nat} (h : hexNumber? n text = some code) :
    Text.utf8Length text = text.length := by
  induction text generalizing n with
  | nil => rfl
  | cons c text ih =>
    obtain ⟨digit, hdigit, htext⟩ := Option.bind_eq_some_iff.1 h
    rw [Text.utf8Length, utf8Size_of_hexValue? hdigit, ih htext, List.length_cons, Nat.add_comm]

theorem hexCode_sound (h : hexCode text = .ok (code, rest)) :
    ∃ digits, CodeUnit code digits ∧ text = digits ++ rest := by
  unfold hexCode at h
  split at h
  · cases h
  · next hlength =>
    split at h
    · next hnumber =>
      cases h
      rw [utf8Length_of_hexNumber? hnumber] at hlength
      have hfour : (text.take 4).length ≤ 4 := List.length_take_le 4 text
      exact ⟨text.take 4, ⟨by omega, hnumber⟩, (List.take_append_drop 4 text).symm⟩
    · cases h

theorem lowSurrogate_sound (h : lowSurrogate text = .ok (code, rest)) :
    ∃ digits, CodeUnit code digits ∧ IsLow code ∧ text = '\\' :: 'u' :: (digits ++ rest) := by
  unfold lowSurrogate at h
  split at h
  · cases h
  · cases h
  · next after =>
    rw [bind_eq_ok_iff] at h
    obtain ⟨⟨low, more⟩, hcode, h⟩ := h
    simp only at h
    split at h
    · next hlow =>
      cases h
      obtain ⟨digits, hunit, rfl⟩ := hexCode_sound hcode
      exact ⟨digits, hunit, hlow, rfl⟩
    · cases h
  · cases h

theorem unicodeEscape_sound (h : unicodeEscape text = .ok (c, rest)) :
    ∃ letters, text = letters ++ rest ∧ Escape c ('u' :: letters) := by
  rw [unicodeEscape, bind_eq_ok_iff] at h
  obtain ⟨⟨high, after⟩, hcode, h⟩ := h
  obtain ⟨digits, hunit, rfl⟩ := hexCode_sound hcode
  simp only at h
  split at h
  · cases h
  · next hlow =>
    split at h
    · next hhigh =>
      rw [bind_eq_ok_iff] at h
      obtain ⟨⟨low, more⟩, hsurrogate, h⟩ := h
      simp only [Except.ok.injEq, Prod.mk.injEq] at h
      obtain ⟨rfl, rfl⟩ := h
      obtain ⟨lowDigits, hlowUnit, hlow, rfl⟩ := lowSurrogate_sound hsurrogate
      exact ⟨digits ++ '\\' :: 'u' :: lowDigits, by simp, .pair hunit hhigh hlowUnit hlow⟩
    · next hhigh =>
      cases h
      exact ⟨digits, rfl, .unit hunit hhigh hlow⟩

theorem escape_sound (h : escape text = .ok (c, rest)) :
    ∃ letters, text = letters ++ rest ∧ Escape c letters := by
  unfold escape at h
  split at h
  · cases h
  · next letter after =>
    split at h
    case h_9 =>
      obtain ⟨letters, rfl, hescape⟩ := unicodeEscape_sound h
      exact ⟨'u' :: letters, rfl, hescape⟩
    case h_10 => cases h
    all_goals
      cases h
      exact ⟨[_], rfl, .short (by decide)⟩

theorem stringContent_sound {bound : Nat} {content : List Char}
    (h : stringContent bound text = .ok (content, rest)) :
    ∃ body, text = body ++ '"' :: rest ∧ Content content body := by
  induction bound generalizing text content with
  | zero => cases h
  | succ bound ih =>
    unfold stringContent at h
    split at h
    · cases h
    · cases h
    · next heq =>
      cases heq
      next c more =>
      split at h
      · next hquote =>
        cases h
        exact ⟨[], by rw [hquote, List.nil_append], .nil⟩
      · next hquote =>
        split at h
        · next hbackslash =>
          rw [bind_eq_ok_iff] at h
          obtain ⟨⟨d, after⟩, hescape, h⟩ := h
          rw [bind_eq_ok_iff] at h
          obtain ⟨⟨content, last⟩, hmore, h⟩ := h
          cases h
          obtain ⟨letters, rfl, hletters⟩ := escape_sound hescape
          obtain ⟨body, rfl, hbody⟩ := ih hmore
          exact ⟨'\\' :: (letters ++ body), by simp [hbackslash], .escaped hletters hbody⟩
        · next hbackslash =>
          split at h
          · cases h
          · next hcontrol =>
            rw [bind_eq_ok_iff] at h
            obtain ⟨⟨content, last⟩, hmore, h⟩ := h
            cases h
            obtain ⟨body, rfl, hbody⟩ := ih hmore
            exact ⟨c :: body, rfl, .plain ⟨hquote, hbackslash, Nat.le_of_not_lt hcontrol⟩ hbody⟩

theorem stringText_sound {key : String} (h : stringText text = .ok (key, rest)) :
    ∃ content body, key = String.ofList content ∧ text = body ++ '"' :: rest ∧
      Content content body := by
  rw [stringText, bind_eq_ok_iff] at h
  obtain ⟨⟨content, last⟩, hcontent, h⟩ := h
  cases h
  obtain ⟨body, htext, hbody⟩ := stringContent_sound hcontent
  exact ⟨content, body, rfl, htext, hbody⟩

end Strings

section Tokens

theorem nextChar_sound {fault : SyntaxError} (h : nextChar fault text = .ok (c, rest)) :
    ∃ blanks, Blank blanks ∧ text = blanks ++ c :: rest := by
  unfold nextChar at h
  obtain ⟨htext, hblanks⟩ := exists_run Text.isSpace text
  split at h
  · cases h
  · next hrest =>
    cases h
    exact ⟨_, hblanks, by rw [← hrest, ← htext]⟩

theorem word_sound {α : Type} {a b : α} {letters : List Char}
    (h : word a letters text = .ok (b, rest)) : b = a ∧ text = letters ++ rest := by
  induction letters generalizing text with
  | nil =>
    cases h
    exact ⟨rfl, rfl⟩
  | cons c letters ih =>
    cases text with
    | nil => cases h
    | cons d text =>
      rw [word] at h
      split at h
      · next heq =>
        obtain ⟨rfl, rfl⟩ := ih h
        exact ⟨rfl, by rw [heq, List.cons_append]⟩
      · cases h

/-- What the start of a value takes: all of a leaf, or an opening bracket. -/
def Head.Taken : Head → List Char → Prop
  | .null, taken => Denotes .null taken
  | .bool b, taken => Denotes (.bool b) taken
  | .number n, taken => Denotes (.number n) taken
  | .string content, taken => Denotes (.string content) taken
  | .array, taken => taken = ['[']
  | .object, taken => taken = ['\x7b']

theorem head_sound {start : Head} (h : head text = .ok (start, rest)) :
    ∃ blanks taken, text = blanks ++ (taken ++ rest) ∧ Blank blanks ∧ start.Taken taken := by
  rw [head, bind_eq_ok_iff] at h
  obtain ⟨⟨c, after⟩, hnext, h⟩ := h
  obtain ⟨blanks, hblanks, rfl⟩ := nextChar_sound hnext
  simp only at h
  split at h
  · obtain ⟨rfl, rfl⟩ := word_sound h
    exact ⟨blanks, _, rfl, hblanks, .null⟩
  · obtain ⟨rfl, rfl⟩ := word_sound h
    exact ⟨blanks, _, rfl, hblanks, .true⟩
  · obtain ⟨rfl, rfl⟩ := word_sound h
    exact ⟨blanks, _, rfl, hblanks, .false⟩
  · obtain ⟨⟨key, last⟩, hstring, h⟩ := map_eq_ok_iff.1 h
    cases h
    obtain ⟨content, body, rfl, rfl, hbody⟩ := stringText_sound hstring
    exact ⟨blanks, '"' :: (body ++ ['"']), by simp, hblanks, .string hbody⟩
  · cases h
    exact ⟨blanks, ['['], rfl, hblanks, rfl⟩
  · cases h
    exact ⟨blanks, ['\x7b'], rfl, hblanks, rfl⟩
  · split at h
    · obtain ⟨⟨n, last⟩, hnumber, h⟩ := map_eq_ok_iff.1 h
      cases h
      obtain ⟨body, htext, hbody⟩ := Number.read_sound hnumber
      exact ⟨blanks, body, by rw [htext], hblanks, .number hbody⟩
    · cases h

end Tokens

section Containers

variable {first : Bool} {value : List Char → Except SyntaxError (Json × List Char)} {levels : Nat}

theorem nextItem_sound {more : Bool} (h : nextItem first text = .ok (more, rest)) :
    (more = false ∧ ∃ blanks, Blank blanks ∧ text = blanks ++ ']' :: rest) ∨
      (more = true ∧ ∃ opening, Opening first opening ∧ text = opening ++ rest) := by
  rw [nextItem, bind_eq_ok_iff] at h
  obtain ⟨⟨c, after⟩, hnext, h⟩ := h
  obtain ⟨blanks, hblanks, rfl⟩ := nextChar_sound hnext
  simp only at h
  split at h
  · next hclose =>
    cases h
    exact .inl ⟨rfl, blanks, hblanks, by rw [hclose]⟩
  · split at h
    · next hfirst =>
      cases h
      exact .inr ⟨rfl, blanks, hfirst ▸ .first hblanks, rfl⟩
    · next hfirst =>
      split at h
      · cases h
      · next hcomma =>
        rw [bind_eq_ok_iff] at h
        obtain ⟨⟨d, last⟩, hnext, h⟩ := h
        obtain ⟨lead, hlead, rfl⟩ := nextChar_sound hnext
        simp only at h
        split at h
        · cases h
        · cases h
          refine .inr ⟨rfl, blanks ++ ',' :: lead, ?_, by simp [Decidable.not_not.1 hcomma]⟩
          exact (Bool.not_eq_true first ▸ hfirst) ▸ .later hblanks hlead

theorem nextKey_sound {key? : Option String} (h : nextKey first text = .ok (key?, rest)) :
    (key? = none ∧ ∃ blanks, Blank blanks ∧ text = blanks ++ '\x7d' :: rest) ∨
      ∃ opening content name, key? = some (String.ofList content) ∧ Opening first opening ∧
        Content content name ∧ text = opening ++ '"' :: (name ++ '"' :: rest) := by
  rw [nextKey, bind_eq_ok_iff] at h
  obtain ⟨⟨c, after⟩, hnext, h⟩ := h
  obtain ⟨blanks, hblanks, rfl⟩ := nextChar_sound hnext
  simp only at h
  split at h
  · next hclose =>
    cases h
    exact .inl ⟨rfl, blanks, hblanks, by rw [hclose]⟩
  · split at h
    · next hfirst =>
      split at h
      · next hquote =>
        rw [map_eq_ok_iff] at h
        obtain ⟨⟨key, last⟩, hstring, h⟩ := h
        cases h
        obtain ⟨content, name, rfl, rfl, hname⟩ := stringText_sound hstring
        exact .inr ⟨blanks, content, name, rfl, hfirst ▸ .first hblanks, hname, by rw [hquote]⟩
      · cases h
    · next hfirst =>
      split at h
      · cases h
      · next hcomma =>
        rw [bind_eq_ok_iff] at h
        obtain ⟨⟨d, last⟩, hnext, h⟩ := h
        obtain ⟨lead, hlead, rfl⟩ := nextChar_sound hnext
        simp only at h
        split at h
        · next hquote =>
          rw [map_eq_ok_iff] at h
          obtain ⟨⟨key, last⟩, hstring, h⟩ := h
          cases h
          obtain ⟨content, name, rfl, rfl, hname⟩ := stringText_sound hstring
          refine .inr ⟨blanks ++ ',' :: lead, content, name, rfl, ?_, hname, ?_⟩
          · exact (Bool.not_eq_true first ▸ hfirst) ▸ .later hblanks hlead
          · simp [Decidable.not_not.1 hcomma, hquote]
        · cases h

theorem colon_sound (h : colon text = .ok ((), rest)) :
    ∃ blanks, Blank blanks ∧ text = blanks ++ ':' :: rest := by
  rw [colon, bind_eq_ok_iff] at h
  obtain ⟨⟨c, after⟩, hnext, h⟩ := h
  obtain ⟨blanks, hblanks, rfl⟩ := nextChar_sound hnext
  simp only at h
  split at h
  · next hcolon =>
    cases h
    exact ⟨blanks, hblanks, by rw [hcolon]⟩
  · cases h

/-- Whatever is answered is the value that the front of the text stands for. -/
def Sound (levels : Nat) (value : List Char → Except SyntaxError (Json × List Char)) : Prop :=
  ∀ text json rest, value text = .ok (json, rest) → ∃ lead body,
    text = lead ++ (body ++ rest) ∧ Blank lead ∧ Denotes json body ∧ json.nesting ≤ levels

theorem Opening.append {opening blanks : List Char} (h : Opening first opening)
    (hblanks : Blank blanks) : Opening first (opening ++ blanks) := by
  cases h with
  | first h => exact .first (h.append hblanks)
  | later h hlead => simpa using Opening.later h (hlead.append hblanks)

theorem arrayItems_sound (hvalue : Sound levels value) {bound : Nat} {items : List Json}
    (h : arrayItems value bound first text = .ok (items, rest)) :
    ∃ body, text = body ++ ']' :: rest ∧ Entries Denotes first items body ∧
      nestingOfItems items ≤ levels := by
  induction bound generalizing first text items with
  | zero => cases h
  | succ bound ih =>
    rw [arrayItems, bind_eq_ok_iff] at h
    obtain ⟨⟨more, after⟩, hnext, h⟩ := h
    obtain ⟨rfl, blanks, hblanks, rfl⟩ | ⟨rfl, opening, hopening, rfl⟩ := nextItem_sound hnext
    · cases h
      exact ⟨blanks, rfl, .nil hblanks, Nat.zero_le levels⟩
    · obtain ⟨⟨item, behind⟩, hitem, h⟩ := bind_eq_ok_iff.1 h
      rw [bind_eq_ok_iff] at h
      obtain ⟨⟨items, last⟩, hitems, h⟩ := h
      cases h
      obtain ⟨lead, body, rfl, hlead, hbody, hnesting⟩ := hvalue _ _ _ hitem
      obtain ⟨tail, rfl, htail, htails⟩ := ih hitems
      exact ⟨opening ++ lead ++ (body ++ tail), by simp, .cons (hopening.append hlead) hbody htail,
        Nat.max_le.2 ⟨hnesting, htails⟩⟩

theorem objectMembers_sound (hvalue : Sound levels value) {bound : Nat}
    {members : List (String × Json)}
    (h : objectMembers value bound first text = .ok (members, rest)) :
    ∃ body, text = body ++ '\x7d' :: rest ∧ Entries (Member Denotes) first members body ∧
      nestingOfMembers members ≤ levels := by
  induction bound generalizing first text members with
  | zero => cases h
  | succ bound ih =>
    rw [objectMembers, bind_eq_ok_iff] at h
    obtain ⟨⟨key?, after⟩, hnext, h⟩ := h
    obtain ⟨rfl, blanks, hblanks, rfl⟩ | ⟨opening, content, name, rfl, hopening, hname, rfl⟩ :=
      nextKey_sound hnext
    · cases h
      exact ⟨blanks, rfl, .nil hblanks, Nat.zero_le levels⟩
    · obtain ⟨⟨⟨⟩, middle⟩, hcolon, h⟩ := bind_eq_ok_iff.1 h
      rw [bind_eq_ok_iff] at h
      obtain ⟨⟨json, behind⟩, hjson, h⟩ := h
      rw [bind_eq_ok_iff] at h
      obtain ⟨⟨members, last⟩, hmembers, h⟩ := h
      cases h
      obtain ⟨blanks, hblanks, rfl⟩ := colon_sound hcolon
      obtain ⟨lead, body, rfl, hlead, hbody, hnesting⟩ := hvalue _ _ _ hjson
      obtain ⟨tail, rfl, htail, htails⟩ := ih hmembers
      exact ⟨_, by simp, .cons hopening (.mk hname hblanks hlead hbody) htail,
        Nat.max_le.2 ⟨hnesting, htails⟩⟩

theorem valueWithin_sound (levels : Nat) : Sound levels (valueWithin levels) := by
  induction levels with
  | zero =>
    intro text json rest h
    unfold valueWithin at h
    split at h
    case h_1 => cases h
    case h_6 | h_7 => cases h
    all_goals
      next hhead =>
      cases h
      obtain ⟨blanks, taken, rfl, hblanks, htaken⟩ := head_sound hhead
      exact ⟨blanks, taken, rfl, hblanks, htaken, Nat.le_refl 0⟩
  | succ levels ih =>
    intro text json rest h
    unfold valueWithin at h
    split at h
    case h_1 => cases h
    case h_6 hhead =>
      rw [map_eq_ok_iff] at h
      obtain ⟨⟨items, last⟩, hitems, h⟩ := h
      cases h
      obtain ⟨blanks, taken, rfl, hblanks, rfl⟩ := head_sound hhead
      obtain ⟨body, rfl, hbody, hnesting⟩ := arrayItems_sound ih hitems
      exact ⟨blanks, _, by simp, hblanks, .array hbody, Nat.succ_le_succ hnesting⟩
    case h_7 hhead =>
      rw [map_eq_ok_iff] at h
      obtain ⟨⟨members, last⟩, hmembers, h⟩ := h
      cases h
      obtain ⟨blanks, taken, rfl, hblanks, rfl⟩ := head_sound hhead
      obtain ⟨body, rfl, hbody, hnesting⟩ := objectMembers_sound ih hmembers
      exact ⟨blanks, _, by simp, hblanks, .object hbody, Nat.succ_le_succ hnesting⟩
    all_goals
      next hhead =>
      cases h
      obtain ⟨blanks, taken, rfl, hblanks, htaken⟩ := head_sound hhead
      exact ⟨blanks, taken, rfl, hblanks, htaken, Nat.zero_le _⟩

end Containers

/-- A text that is parsed is a document for the tree that its first value gives, and the answer is
that tree with distinct keys. -/
theorem parse_sound {text : String} {json : Json} (h : parse text = .ok json) :
    ∃ tree rest, parseFirst text = .ok (tree, rest) ∧ json = tree.distinct ∧ Blank rest ∧
      Document tree text.toList ∧ tree.nesting ≤ maxNesting := by
  rw [parse, bind_eq_ok_iff] at h
  obtain ⟨⟨tree, rest⟩, hfirst, h⟩ := h
  simp only at h
  split at h
  · next hblank =>
    cases h
    obtain ⟨lead, body, htext, hlead, hbody, hnesting⟩ := valueWithin_sound _ _ _ _ hfirst
    have hrest : Blank rest := List.all_eq_true.1 hblank
    exact ⟨tree, rest, hfirst, rfl, hrest, ⟨lead, body, rest, htext, hlead, hbody, hrest⟩, hnesting⟩
  · cases h

section Distinct

theorem nesting_insertMember (key : String) {levels : Nat} {value : Json}
    {members : List (String × Json)} (hvalue : value.nesting ≤ levels)
    (hmembers : nestingOfMembers members ≤ levels) :
    nestingOfMembers (insertMember key value members) ≤ levels := by
  induction members with
  | nil => simpa [insertMember, nestingOfMembers] using hvalue
  | cons member members ih =>
    obtain ⟨other, old⟩ := member
    obtain ⟨hold, hrest⟩ := Nat.max_le.1 hmembers
    rw [insertMember]
    split
    · exact Nat.max_le.2 ⟨hvalue, hrest⟩
    · exact Nat.max_le.2 ⟨hold, ih hrest⟩

mutual

/-- Leaving out repeated keys nests nothing deeper. -/
theorem nesting_distinct_le : ∀ json : Json, json.distinct.nesting ≤ json.nesting
  | null | bool _ | number _ | string _ => Nat.le_refl _
  | array items => Nat.succ_le_succ (nesting_distinctItems_le items)
  | object members =>
    Nat.succ_le_succ (nesting_distinctMembers_le _ members [] (Nat.zero_le _) (Nat.le_refl _))

theorem nesting_distinctItems_le :
    ∀ items : List Json, nestingOfItems (distinctItems items) ≤ nestingOfItems items
  | [] => Nat.le_refl _
  | item :: rest => by
    have hitem := nesting_distinct_le item
    have hrest := nesting_distinctItems_le rest
    rw [distinctItems, nestingOfItems, nestingOfItems]
    omega

theorem nesting_distinctMembers_le :
    ∀ (levels : Nat) (members before : List (String × Json)), nestingOfMembers before ≤ levels →
      nestingOfMembers members ≤ levels → nestingOfMembers (distinctMembers before members) ≤ levels
  | _, [], _, hbefore, _ => hbefore
  | levels, (key, value) :: rest, before, hbefore, hmembers => by
    obtain ⟨hvalue, hrest⟩ := Nat.max_le.1 hmembers
    have hinsert := nesting_insertMember key
      (Nat.le_trans (nesting_distinct_le value) hvalue) hbefore
    exact nesting_distinctMembers_le levels rest _ hinsert hrest

end

/-- What the parser accepts is nested no deeper than it allows. -/
theorem nesting_of_parse {text : String} {json : Json} (h : parse text = .ok json) :
    json.nesting ≤ maxNesting := by
  obtain ⟨tree, rest, -, rfl, -, -, hnesting⟩ := parse_sound h
  exact Nat.le_trans (nesting_distinct_le tree) hnesting

end Distinct

end ShapeCodec.Json
