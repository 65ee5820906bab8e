import ShapeCodec.Proofs.Direct.Skipping
/-! Brackets in a text, counted outside strings, and how many of them a step leaves open. Where a
scanning step succeeds, it closes every bracket that it opens. Where it fails, that is not because
of the limit of the nesting. -/
namespace ShapeCodec

namespace Text

variable {quoted : Bool} {m n k : Nat} {d : Char} {a b text content : List Char}

/-- The characters outside strings, in a text that begins inside one or not. Every quote begins a
string or ends one. -/
def outside : Bool → List Char → List Char
  | _, [] => []
  | quoted, c :: rest =>
    if c = '"' then outside (!quoted) rest
    else if quoted then outside quoted rest
    else c :: outside quoted rest

/-- The opening brackets outside strings. -/
def opened (text : List Char) : Nat :=
  (outside false text).countP (· ∈ ['\x7b', '['])

/-- The closing brackets outside strings. -/
def closed (text : List Char) : Nat :=
  (outside false text).countP (· ∈ ['\x7d', ']'])

example : opened ['[', '\x7b', '"', '[', '"', ']'] = 2 ∧ closed ['[', '"', ']', '"', ']'] = 1 := by
  decide

/-- Over the text the number of open brackets goes from `m` to `n`, and it ends outside strings. -/
structure Balanced (quoted : Bool) (m n : Nat) (text : List Char) : Prop where
  whole : ∀ rest, outside quoted (text ++ rest) = outside quoted text ++ outside false rest
  count : m + (outside quoted text).countP (· ∈ ['\x7b', '[']) =
    n + (outside quoted text).countP (· ∈ ['\x7d', ']'])

theorem balanced_nil (n : Nat) : Balanced false n n [] :=
  ⟨fun _ => rfl, rfl⟩

theorem Balanced.append (ha : Balanced quoted m n a) (hb : Balanced false n k b) :
    Balanced quoted m k (a ++ b) := by
  refine ⟨fun rest => ?_, ?_⟩
  · rw [List.append_assoc, ha.whole, hb.whole, ha.whole, List.append_assoc]
  · have hfirst := ha.count
    have hsecond := hb.count
    simp only [ha.whole, List.countP_append]
    omega

/-- Brackets around the text make no difference. -/
theorem Balanced.inside (h : Balanced quoted m n text) (k : Nat) :
    Balanced quoted (m + k) (n + k) text := by
  refine ⟨h.whole, ?_⟩
  have hcount := h.count
  omega

theorem balanced_char (hd : d ∉ ['"', '\x7b', '[', '\x7d', ']']) : Balanced false n n [d] := by
  simp only [List.mem_cons, List.not_mem_nil, or_false, not_or] at hd
  obtain ⟨hquote, hbrace, hbracket, hbrace', hbracket'⟩ := hd
  exact ⟨fun rest => by simp [outside, hquote],
    by simp [outside, hquote, hbrace, hbracket, hbrace', hbracket']⟩

theorem balanced_of_forall (h : ∀ d ∈ text, d ∉ ['"', '\x7b', '[', '\x7d', ']']) :
    Balanced false n n text := by
  induction text with
  | nil => exact balanced_nil n
  | cons d text ih =>
    obtain ⟨hd, htext⟩ := List.forall_mem_cons.1 h
    exact (balanced_char hd).append (ih htext)

theorem balanced_opening (hd : d ∈ ['\x7b', '[']) : Balanced false n (n + 1) [d] := by
  simp only [List.mem_cons, List.not_mem_nil, or_false] at hd
  rcases hd with rfl | rfl <;> exact ⟨fun rest => by simp [outside], by simp [outside]⟩

theorem balanced_close (hd : d ∈ ['\x7d', ']']) : Balanced false (n + 1) n [d] := by
  simp only [List.mem_cons, List.not_mem_nil, or_false] at hd
  rcases hd with rfl | rfl <;> exact ⟨fun rest => by simp [outside], by simp [outside]⟩

/-- A character inside a string leads on, and a quote leads out of it. -/
theorem balanced_quoted (h : Balanced (!(d = '"')) m n text) : Balanced true m n (d :: text) := by
  by_cases hd : d = '"'
  · subst hd
    exact ⟨fun rest => by simpa [outside] using h.whole rest, by simpa [outside] using h.count⟩
  · simp only [hd, decide_false, Bool.not_false] at h
    exact ⟨fun rest => by simpa [outside, hd] using h.whole rest,
      by simpa [outside, hd] using h.count⟩

theorem balanced_quote (h : Balanced true m n text) : Balanced false m n ('"' :: text) :=
  ⟨fun rest => by simpa [outside] using h.whole rest, by simpa [outside] using h.count⟩

theorem balanced_content (h : '"' ∉ content) : Balanced true n n (content ++ ['"']) := by
  induction content with
  | nil => exact balanced_quoted (balanced_nil n)
  | cons d content ih =>
    obtain ⟨hd, hcontent⟩ := not_or.1 (mt List.mem_cons.2 h)
    exact balanced_quoted (by simpa [Ne.symm hd] using ih hcontent)

theorem balanced_string (h : '"' ∉ content) : Balanced false n n ('"' :: content ++ ['"']) :=
  balanced_quote (balanced_content h)

theorem mem_of_mem_outside {quoted : Bool} {d : Char} {text : List Char}
    (h : d ∈ outside quoted text) : d ∈ text := by
  fun_induction outside quoted text with
  | case1 => exact h
  | case2 _ _ ih => exact List.mem_cons_of_mem _ (ih h)
  | case3 _ _ _ ih => exact List.mem_cons_of_mem _ (ih h)
  | case4 _ _ _ _ _ ih =>
    rcases List.mem_cons.1 h with rfl | h
    · exact List.mem_cons_self
    · exact List.mem_cons_of_mem _ (ih h)

/-- Brackets are no blanks. -/
theorem not_blank_of_opened {before after : List Char} (h : 0 < opened before) :
    (before ++ after).all isSpace = false := by
  obtain ⟨d, hd, hbracket⟩ := List.countP_pos_iff.1 h
  rw [List.all_eq_false]
  refine ⟨d, List.mem_append_left after (mem_of_mem_outside hd), ?_⟩
  simp only [List.mem_cons, List.not_mem_nil, or_false, decide_eq_true_eq] at hbracket
  rcases hbracket with rfl | rfl <;> decide

end Text

theorem Cursor.Moves.trans {a b : List Char} {c mid c' : Cursor} (ha : Moves a c mid)
    (hb : Moves b mid c') : Moves (a ++ b) c c' := by
  cases ha with
  | past offset rest =>
    obtain ⟨offset, rest⟩ := c'
    cases hb with
    | past _ rest =>
      have hboth : Moves (a ++ b) _ _ := .past offset rest
      rwa [List.append_assoc, Text.utf8Length_append, ← Nat.add_assoc] at hboth

theorem Cursor.Moves.split {taken : List Char} {c c' : Cursor} (h : Moves taken c c') :
    c.rest = taken ++ c'.rest ∧ c'.offset = c.offset + Text.utf8Length taken := by
  cases h with
  | past offset rest => exact ⟨rfl, rfl⟩

theorem Cursor.Moves.of_start {text : String} {taken : List Char} {c : Cursor}
    (h : Moves taken (.ofText text) c) :
    text.toList = taken ++ c.rest ∧ Text.utf8Length taken = c.offset := by
  obtain ⟨hrest, hoffset⟩ := h.split
  exact ⟨hrest, by rw [hoffset, Cursor.ofText, Nat.zero_add]⟩

theorem Cursor.moves_nil (c : Cursor) : Moves [] c c :=
  .past c.offset c.rest

/-- Where the step succeeds, it goes from `m` open brackets to `n`. -/
def Balances {ε α : Type} (m n : Nat) (x : EStateM ε Cursor α) : Prop :=
  ∀ c a c', x c = .ok a c' → ∃ taken, Cursor.Moves taken c c' ∧ Text.Balanced false m n taken

section Step

variable {ε α β : Type} {m n k : Nat} {x : EStateM ε Cursor α} {f : α → EStateM ε Cursor β}

theorem balances_pure (a : α) : Balances n n (pure a : EStateM ε Cursor α) := by
  rintro c _ _ ⟨⟩
  exact ⟨[], c.moves_nil, Text.balanced_nil n⟩

theorem Balances.bind (hx : Balances m n x) (hf : ∀ a, Balances n k (f a)) :
    Balances m k (x >>= f) := by
  intro c b c' h
  obtain ⟨a, mid, hrun, hnext⟩ := Running.bind_eq_ok_iff.1 h
  obtain ⟨first, hfirst, hopen⟩ := hx c a mid hrun
  obtain ⟨second, hsecond, hclose⟩ := hf a mid b c' hnext
  exact ⟨first ++ second, hfirst.trans hsecond, hopen.append hclose⟩

theorem Balances.map (hx : Balances m n x) (g : α → β) : Balances m n (g <$> x) :=
  hx.bind fun a => balances_pure (g a)

/-- More brackets around the text make no difference. -/
theorem Balances.inside (hx : Balances m n x) (k : Nat) : Balances (m + k) (n + k) x := by
  intro c a c' h
  obtain ⟨taken, hmoves, hbalanced⟩ := hx c a c' h
  exact ⟨taken, hmoves, hbalanced.inside k⟩

theorem Balances.lift {x : Scan α} (hx : Balances m n x) : Balances m n (liftM x : Reading α) :=
  fun c a c' h => hx c a c' (eq_ok_of_lift h)

end Step

section Scan

variable {α β : Type} {m n k : Nat} {x : Scan α} {f : α → Scan β} {c c' : Cursor} {d : Char}
  {e : ParseError} {expected : Expected}

/-- The step does not fail because of the limit. -/
def Plain (x : Scan α) : Prop :=
  ∀ c e c', x c = .error e c' → e.expected ≠ .depthLimit

theorem Plain.bind (hx : Plain x) (hf : ∀ a, Plain (f a)) : Plain (x >>= f) := by
  intro c e c' h
  rcases Running.bind_eq_error_iff.1 h with h | ⟨a, mid, -, h⟩
  · exact hx c e c' h
  · exact hf a mid e c' h

theorem Plain.map (hx : Plain x) (g : α → β) : Plain (g <$> x) :=
  hx.bind fun _ => nofun

theorem Plain.ite {p : Prop} [Decidable p] {y : Scan α} (hx : Plain x) (hy : Plain y) :
    Plain (if p then x else y) := by
  split
  · exact hx
  · exact hy

theorem plain_fail (h : expected ≠ .depthLimit) : Plain (Scan.fail expected : Scan α) := by
  rintro c _ _ ⟨⟩
  exact h

theorem plain_skipWhitespace : Plain Scan.skipWhitespace := by
  rintro c _ _ ⟨⟩

theorem plain_tryWord (word : List Char) : Plain (Scan.tryWord word) := by
  intro c e c' h
  rw [Scan.tryWord] at h
  split at h <;> cases h

theorem plain_expect (d : Char) : Plain (Scan.expect d) := by
  refine (plain_tryWord [d]).bind fun found => ?_
  cases found
  · exact plain_fail nofun
  · nofun

theorem plain_readString : Plain Scan.readString := by
  refine (plain_expect '"').bind fun _ => ?_
  intro c e c' h
  rw [Scan.readContent] at h
  split at h
  · cases h
    rintro ⟨⟩
  · cases h

theorem plain_readDigits (start : Nat) (negative : Bool) (m : Int) :
    Plain fun c => Scan.readDigits start negative m c.offset c.rest := by
  intro c e c' h
  obtain ⟨offset, text⟩ := c
  simp only at h
  fun_induction Scan.readDigits start negative m offset text with
  | case1 => cases h
  | case2 _ _ _ _ _ _ _ _ ih => exact ih h
  | case3 =>
    cases h
    rintro ⟨⟩
  | case4 => cases h

theorem plain_readInt : Plain Scan.readInt := by
  refine Plain.bind nofun fun start => ?_
  refine (plain_tryWord ['-']).bind fun negative => ?_
  refine Plain.bind nofun fun first => ?_
  refine (plain_readDigits start.offset negative 0).bind fun m => ?_
  refine Plain.bind nofun fun last => ?_
  split
  · exact plain_fail nofun
  · nofun

theorem plain_skipNumber : Plain Scan.skipNumber := by
  intro c e c' h
  simp only [Scan.skipNumber] at h
  split at h
  · cases h
  · cases h
    rintro ⟨⟩

theorem plain_skipBrackets (depth : Nat) (opened : Option Cursor) :
    Plain fun c => Scan.skipBrackets depth opened c.offset c.rest := by
  intro c e c' h
  obtain ⟨offset, text⟩ := c
  simp only at h
  fun_induction Scan.skipBrackets depth opened offset text with
  | case1 =>
    cases h
    rintro ⟨⟩
  | case2 =>
    cases h
    rintro ⟨⟩
  | case3 _ _ _ _ _ _ ih => exact ih h
  | case4 _ _ _ _ ih => exact ih h
  | case5 _ _ _ _ _ _ _ ih => exact ih h
  | case6 => cases h
  | case7 _ _ _ _ _ _ _ _ _ ih => exact ih h
  | case8 _ _ _ _ _ _ _ _ ih => exact ih h

theorem plain_skipWord : Plain Scan.skipWord := by
  refine (plain_tryWord _).bind fun found => ?_
  cases found
  · refine (plain_tryWord _).bind fun found => ?_
    cases found
    · refine (plain_tryWord _).bind fun found => ?_
      cases found
      · exact plain_fail nofun
      · nofun
    · nofun
  · nofun

theorem plain_skipValue : Plain Scan.skipValue := by
  refine plain_skipWhitespace.bind fun _ => ?_
  refine Plain.bind nofun fun c => ?_
  split
  · exact plain_fail nofun
  · refine .ite (plain_readString.map _) (.ite (plain_skipBrackets 0 none) ?_)
    exact .ite plain_skipNumber plain_skipWord

/-- Lifted, the step fails with an error of its own. -/
theorem Plain.lift {e : CodecError} (hx : Plain x) (h : (liftM x : Reading α) c = .error e c') :
    ∃ error, e = .parse error ∧ error.expected ≠ .depthLimit := by
  cases hrun : x c with
  | ok a mid =>
    rw [lift_of_ok hrun] at h
    cases h
  | error error mid =>
    rw [lift_of_error hrun] at h
    cases h
    exact ⟨error, rfl, hx c error c' hrun⟩

theorem balances_skipWhitespace : Balances n n Scan.skipWhitespace := by
  rintro c _ _ ⟨⟩
  refine ⟨_, Cursor.moves_after List.takeWhile_append_dropWhile.symm, ?_⟩
  refine Text.balanced_of_forall fun d hd => ?_
  have hspace := List.mem_takeWhile_imp hd
  simp only [Text.isSpace, Bool.or_eq_true, decide_eq_true_eq] at hspace
  rcases hspace with ((rfl | rfl) | rfl) | rfl <;> decide

theorem balances_tryWord {word : List Char} (h : ∀ d ∈ word, d ∉ ['"', '{', '[', '}', ']']) :
    Balances n n (Scan.tryWord word) := by
  intro c found c' hrun
  rcases tryWord_eq_ok hrun with ⟨-, hsplit⟩ | ⟨-, rfl, -⟩
  · exact ⟨word, (Consumes.tryWord word c'.rest).moves hrun hsplit, Text.balanced_of_forall h⟩
  · exact ⟨[], c'.moves_nil, Text.balanced_nil n⟩

theorem balances_tryNull : Balances n n Scan.tryNull :=
  balances_tryWord (by simp [nullWord])

theorem balances_comma : Balances n n (Scan.tryChar ',') :=
  balances_tryWord (by simp)

theorem balances_expect (h : Text.Balanced false m n [d]) : Balances m n (Scan.expect d) :=
  fun _ _ _ hrun => ⟨[d], moves_of_expect hrun, h⟩

theorem balances_readString : Balances n n Scan.readString := by
  intro c text c' hrun
  obtain ⟨content, hcontent, -, hsplit⟩ := readString_eq_ok hrun
  exact ⟨_, (Consumes.readString hcontent c'.rest).moves hrun hsplit,
    Text.balanced_string hcontent⟩

theorem balanced_numeral {text : List Char} (h : ∀ d ∈ text, Scan.isNumberPart d = true) :
    Text.Balanced false n n text := by
  refine Text.balanced_of_forall fun d hd hmem => ?_
  have hpart := h d hd
  simp only [List.mem_cons, List.not_mem_nil, or_false] at hmem
  rcases hmem with rfl | rfl | rfl | rfl | rfl <;> exact absurd hpart (by decide)

theorem balances_readInt : Balances n n Scan.readInt := by
  intro c number c' hrun
  obtain ⟨taken, -, hmoves, hparts, -⟩ := readInt_moves hrun
  exact ⟨taken, hmoves, balanced_numeral (isNumberPart_of_integer hparts)⟩

theorem balances_skipNumber : Balances n n Scan.skipNumber := by
  intro c _ c' hrun
  obtain ⟨taken, -, hsplit, hparts, hstops, htaken⟩ := skipNumber_eq_ok hrun
  exact ⟨taken, (htaken c'.rest hstops).moves hrun hsplit, balanced_numeral hparts⟩

theorem balances_skipWord : Balances n n Scan.skipWord := by
  intro c _ c' hrun
  obtain ⟨word, hword, hsplit, htaken⟩ := skipWord_eq_ok hrun
  have hletters : ∀ word ∈ [nullWord, ['t', 'r', 'u', 'e'], ['f', 'a', 'l', 's', 'e']],
      ∀ d ∈ word, d ∉ ['"', '{', '[', '}', ']'] := by simp [nullWord]
  exact ⟨word, (htaken c'.rest).moves hrun hsplit, Text.balanced_of_forall (hletters word hword)⟩

/-- A scan with brackets open ends behind the one that closes them all. -/
theorem skipBrackets_balanced {depth offset : Nat} {opened : Option Cursor} {text : List Char}
    (hrun : Scan.skipBrackets depth opened offset text = .ok () c') (hdepth : 0 < depth) :
    ∃ taken, Cursor.Moves taken ⟨offset, text⟩ c' ∧
      Text.Balanced opened.isSome depth 0 taken := by
  have hstep {d : Char} {offset : Nat} {rest taken : List Char}
      (h : Cursor.Moves taken ⟨offset + d.utf8Size, rest⟩ c') :
      Cursor.Moves (d :: taken) ⟨offset, d :: rest⟩ c' :=
    Cursor.Moves.trans (a := [d]) (.past offset rest) h
  fun_induction Scan.skipBrackets depth opened offset text with
  | case1 => cases hrun
  | case2 => cases hrun
  | case3 depth offset d rest next start ih =>
    obtain ⟨taken, hmoves, hbalanced⟩ := ih hrun hdepth
    have hquoted : (if d = '"' then none else some start).isSome = !(d = '"' : Bool) := by
      split <;> simp_all
    rw [hquoted] at hbalanced
    exact ⟨d :: taken, hstep hmoves, Text.balanced_quoted hbalanced⟩
  | case4 depth offset rest next ih =>
    obtain ⟨taken, hmoves, hbalanced⟩ := ih hrun hdepth
    exact ⟨'"' :: taken, hstep hmoves, Text.balanced_quote hbalanced⟩
  | case5 depth offset d rest next hquote hopen ih =>
    obtain ⟨taken, hmoves, hbalanced⟩ := ih hrun (Nat.succ_pos depth)
    have hbracket : d ∈ ['\x7b', '['] := by simpa using hopen
    exact ⟨d :: taken, hstep hmoves, (Text.balanced_opening hbracket).append hbalanced⟩
  | case6 depth offset d rest next hquote hopen hclose hlast =>
    cases hrun
    obtain rfl : depth = 1 := by omega
    exact ⟨[d], .past offset rest, Text.balanced_close (by simpa using hclose)⟩
  | case7 depth offset d rest next hquote hopen hclose hlast ih =>
    obtain ⟨taken, hmoves, hbalanced⟩ := ih hrun (by omega)
    obtain ⟨less, rfl⟩ : ∃ less, depth = less + 1 := ⟨depth - 1, by omega⟩
    have hbracket : d ∈ ['\x7d', ']'] := by simpa using hclose
    exact ⟨d :: taken, hstep hmoves, (Text.balanced_close hbracket).append hbalanced⟩
  | case8 depth offset d rest next hquote hopen hclose ih =>
    obtain ⟨taken, hmoves, hbalanced⟩ := ih hrun hdepth
    have hd : d ∉ ['"', '{', '[', '}', ']'] := by
      simp only [List.mem_cons, List.not_mem_nil, or_false]
      tauto
    exact ⟨d :: taken, hstep hmoves, (Text.balanced_char hd).append hbalanced⟩

/-- The first bracket of an object or list that is skipped is closed at its end. -/
theorem skipNested_balanced (hopening : d ∈ ['{', '[']) (hpeek : c.peek? = some d)
    (hrun : skipNested c = .ok () c') :
    ∃ taken, Cursor.Moves taken c c' ∧ Text.Balanced false n n taken := by
  obtain ⟨tail, htail⟩ := List.head?_eq_some_iff.1 hpeek
  have hmoves : Cursor.Moves [d] c (c.after [d] tail) := Cursor.moves_after htail
  rw [skipNested_eq hopening hmoves] at hrun
  obtain ⟨taken, hinside, hbalanced⟩ := skipBrackets_balanced hrun Nat.zero_lt_one
  refine ⟨[d] ++ taken, hmoves.trans hinside, ?_⟩
  have hboth := (Text.balanced_opening hopening).append hbalanced
  simpa using hboth.inside n

theorem balances_skipValue : Balances n n Scan.skipValue := by
  intro c _ c' hrun
  obtain ⟨_, mid, hspace, hrun⟩ := Running.bind_eq_ok_iff.1 hrun
  obtain ⟨_, _, ⟨⟩, hrun⟩ := Running.bind_eq_ok_iff.1 hrun
  obtain ⟨blanks, hblanks, hlead⟩ := balances_skipWhitespace (n := n) c _ mid hspace
  suffices h : ∃ taken, Cursor.Moves taken mid c' ∧ Text.Balanced false n n taken by
    obtain ⟨taken, hmoves, hbalanced⟩ := h
    exact ⟨blanks ++ taken, hblanks.trans hmoves, hlead.append hbalanced⟩
  cases hpeek : mid.peek? with
  | none =>
    rw [hpeek] at hrun
    cases hrun
  | some d =>
    have hstep : (if d = '"' then discard Scan.readString
        else if d = '{' ∨ d = '[' then skipNested
        else if d = '-' ∨ d.isDigit then Scan.skipNumber
        else Scan.skipWord) mid = .ok () c' := by
      rw [hpeek] at hrun
      exact hrun
    split at hstep
    · exact balances_readString.map _ mid _ c' hstep
    split at hstep
    · next hopening => exact skipNested_balanced (by simpa using hopening) hpeek hstep
    split at hstep
    · exact balances_skipNumber mid _ c' hstep
    · exact balances_skipWord mid _ c' hstep

end Scan

end ShapeCodec
