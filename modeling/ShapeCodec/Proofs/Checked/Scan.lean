import ShapeCodec.Codec.Error
import ShapeCodec.Proofs.Checked.Bytes
import ShapeCodec.Proofs.Locality
import ShapeCodec.Routine
/-! Scanning with checks, on a text that is given as bytes. A step stands at a byte offset, be it
between two characters or inside one; it looks at single bytes, and when it cuts the text it must
not cut a character apart. Every scanning step has a counterpart here that never runs into a trap:
it ends at the same offset with the same result, moves forwards only, and fails at the same place,
which is one between two characters. -/
namespace ShapeCodec

/-- The cursor stands between two characters of the text. -/
def Cursor.In (text : List Char) (c : Cursor) : Prop :=
  ∃ before, text = before ++ c.rest ∧ Text.utf8Length before = c.offset

/-- The offset is one between two characters of the text, or one of its ends. -/
def Text.Boundary (text : List Char) (offset : Nat) : Prop :=
  ∃ before after, text = before ++ after ∧ utf8Length before = offset

namespace Cursor.In

variable {text : List Char} {c : Cursor}

theorem boundary (h : c.In text) : Text.Boundary text c.offset := by
  obtain ⟨before, htext, hoffset⟩ := h
  exact ⟨before, c.rest, htext, hoffset⟩

theorem after (h : c.In text) (taken more : List Char) (hrest : c.rest = taken ++ more) :
    (c.after taken more).In text := by
  obtain ⟨before, htext, hoffset⟩ := h
  refine ⟨before ++ taken, ?_, ?_⟩
  · rw [htext, hrest, List.append_assoc]
    rfl
  · rw [Text.utf8Length_append, hoffset]
    rfl

/-- Behind an ASCII character the next offset is between two characters again. -/
theorem next (h : c.In text) {d : Char} {tail : List Char} (hrest : c.rest = d :: tail)
    (hd : d.toNat < 128) : (⟨c.offset + 1, tail⟩ : Cursor).In text := by
  have hafter := h.after [d] tail hrest
  simpa only [Cursor.after, Text.utf8Length, Text.utf8Size_of_lt hd] using hafter

theorem cut? (h : c.In text) : ∃ before, Text.cut? c.offset text = some (before, c.rest) := by
  obtain ⟨before, htext, hoffset⟩ := h
  refine ⟨before, ?_⟩
  rw [← hoffset, htext, Text.cut?_append]

/-- The bytes from the offset on are those of the text that is left. -/
theorem drop (h : c.In text) : (Text.bytes text).drop c.offset = Text.bytes c.rest := by
  obtain ⟨before, htext, hoffset⟩ := h
  rw [← hoffset, htext, Text.bytes_append, ← Text.length_bytes, List.drop_left]

theorem length (h : c.In text) :
    (Text.bytes text).length = c.offset + (Text.bytes c.rest).length := by
  obtain ⟨before, htext, hoffset⟩ := h
  rw [← hoffset, htext, Text.bytes_append, List.length_append, Text.length_bytes before]

end Cursor.In

namespace Checked

/-- What a run would be cut short by. -/
inductive Trap where
  /-- A call outside the table. -/
  | routine (id : RoutineId)
  /-- A slot outside the record. -/
  | slot (slot : Nat)
  /-- A source without a value. -/
  | source (source : ValueSource)
  /-- A cut inside a character, or behind the end. -/
  | cut (offset : Nat)
  /-- A closing bracket where none is open. -/
  | bracket (offset : Nat)

/-- Why a step comes to no result. -/
inductive Stop where
  | trap (trap : Trap)
  | error (error : CodecError)

/-- A step over a text. The state is the number of bytes that have been passed. -/
abbrev Step := EStateM Stop Nat

def fail {α : Type} (expected : Expected) : Step α :=
  fun offset => .error (.error (.parse ⟨offset, expected⟩)) offset

def advance (count : Nat) : Step Unit :=
  modify (· + count)

/-- The pieces of a text before and after an offset. -/
def cut (offset : Nat) (piece : List Char) : Step (List Char × List Char) :=
  match Text.cut? offset piece with
  | some pieces => pure pieces
  | none => throw (.trap (.cut offset))

def isOpening (c : Char) : Bool :=
  c = '\x7b' || c = '['

def isClosing (c : Char) : Bool :=
  c = '\x7d' || c = ']'

/-- Characters that a number may begin with. -/
def isNumberStart (c : Char) : Bool :=
  c = '-' || c.isDigit

section Scan

variable (text : List Char)

def peek : Step (Option UInt8) :=
  fun offset => .ok (Text.bytes text)[offset]? offset

def isExhausted : Step Bool :=
  fun offset => .ok ((Text.bytes text).length ≤ offset) offset

/-- The text from here on. -/
def rest : Step (List Char) := do
  let offset ← get
  let pieces ← cut offset text
  pure pieces.2

/-- Goes on byte by byte. -/
def skipWhile (p : Char → Bool) : Step Unit :=
  fun offset =>
    .ok () (offset + (((Text.bytes text).drop offset).takeWhile (Text.isByte p)).length)

def skipWhitespace : Step Unit :=
  skipWhile text Text.isSpace

def tryWord (word : List Char) : Step Bool := do
  let rest ← rest text
  if word.isPrefixOf rest then
    advance (Text.utf8Length word)
    pure true
  else pure false

def tryChar (c : Char) : Step Bool := do
  let next ← peek text
  if next.any (Text.isByte (· = c)) then
    advance 1
    pure true
  else pure false

def expect (c : Char) : Step Unit := do
  if ← tryChar text c then pure () else fail (.char c)

def readContent : Step String := do
  let rest ← rest text
  if '"' ∈ rest then
    let stop := Text.utf8Length (rest.takeWhile (· ≠ '"'))
    let pieces ← cut stop rest
    advance (stop + 1)
    pure (String.ofList pieces.1)
  else throw (.error (.parse ⟨Text.utf8Length text, .char '"'⟩))

def readString : Step String := do
  expect text '"'
  readContent text

def readDigits (start : Nat) (negative : Bool) (n : Int) (offset : Nat) :
    List UInt8 → EStateM.Result Stop Nat Int
  | [] => .ok n offset
  | b :: rest =>
    if Text.isByte Char.isDigit b then
      let digit : Int := (b.toNat - '0'.toNat : Nat)
      let next := if negative then 10 * n - digit else 10 * n + digit
      if Scan.inRange next then readDigits start negative next (offset + 1) rest
      else .error (.error (.parse ⟨start, .integerInRange⟩)) offset
    else .ok n offset

def readInt : Step Int64 := do
  let start ← get
  let negative ← tryChar text '-'
  let first ← get
  let n ← fun offset => readDigits start negative 0 offset ((Text.bytes text).drop offset)
  if (← get) = first then fail .digits
  else pure (Int64.ofInt n)

def skipNumber : Step Unit := do
  let start ← get
  skipWhile text Scan.isNumberPart
  let stop ← get
  let behind ← cut start text
  let pieces ← cut (stop - start) behind.2
  if (Text.bytes pieces.1).any (Text.isByte Char.isDigit) then pure ()
  else throw (.error (.parse ⟨start, .digits⟩))

/-- Steps over an object or list with `depth` brackets open. Strings are stepped over as such, and
all else byte by byte, so `bound` need not exceed the number of bytes. -/
def skipNested : Nat → Nat → Step Unit
  | 0, _ => fail .value
  | bound + 1, depth => do
    match ← peek text with
    | none => fail .value
    | some b =>
      if Text.isByte (· = '"') b then
        discard (readString text)
        skipNested bound depth
      else if Text.isByte isOpening b then
        advance 1
        skipNested bound (depth + 1)
      else if Text.isByte isClosing b then
        match depth with
        | 0 =>
          let offset ← get
          throw (.trap (.bracket offset))
        | 1 => advance 1
        | depth + 2 =>
          advance 1
          skipNested bound (depth + 1)
      else
        advance 1
        skipNested bound depth

def skipWord : Step Unit := do
  if ← tryWord text nullWord then return
  if ← tryWord text ['t', 'r', 'u', 'e'] then return
  if ← tryWord text ['f', 'a', 'l', 's', 'e'] then return
  fail .value

def skipValue : Step Unit := do
  skipWhitespace text
  match ← peek text with
  | none => skipWord text
  | some b =>
    if Text.isByte (· = '"') b then discard (readString text)
    else if Text.isByte isOpening b then
      let start ← get
      skipNested text ((Text.bytes text).length - start) 0
    else if Text.isByte isNumberStart b then skipNumber text
    else skipWord text

end Scan

/-- A checked run ends as the run that it stands for does: with the same result or failure, at the
same offset, which is not before the start. The failure of a text is at a place in the text. -/
inductive Agrees {ε α : Type} (text : List Char) (report : ε → CodecError) (start : Nat) :
    EStateM.Result Stop Nat α → EStateM.Result ε Cursor α → Prop
  | ok {a c} : c.In text → start ≤ c.offset → Agrees text report start (.ok a c.offset) (.ok a c)
  | error {e c} : c.In text → start ≤ c.offset →
      (∀ error, report e = .parse error → Text.Boundary text error.offset) →
      Agrees text report start (.error (.error (report e)) c.offset) (.error e c)

/-- From every place in the text, the checked step does what the other does. -/
def Mirrors {ε α : Type} (text : List Char) (report : ε → CodecError) (checked : Step α)
    (x : EStateM ε Cursor α) : Prop :=
  ∀ c, c.In text → Agrees text report c.offset (checked c.offset) (x c)

section Step

variable {ε α β : Type} {text : List Char} {report : ε → CodecError} {start : Nat} {offset : Nat}
  {c : Cursor} {checked : Step α} {x : EStateM ε Cursor α} {checkedNext : α → Step β}
  {next : α → EStateM ε Cursor β}

theorem Agrees.mono {r' : EStateM.Result Stop Nat α} {r : EStateM.Result ε Cursor α}
    {earlier : Nat} (h : Agrees text report start r' r) (hle : earlier ≤ start) :
    Agrees text report earlier r' r := by
  cases h with
  | ok hin hstart => exact .ok hin (Nat.le_trans hle hstart)
  | error hin hstart herror => exact .error hin (Nat.le_trans hle hstart) herror

theorem Agrees.bind (hx : Agrees text report start (checked offset) (x c))
    (hnext : ∀ a c', x c = .ok a c' → c'.In text →
      Agrees text report c'.offset (checkedNext a c'.offset) (next a c')) :
    Agrees text report start ((checked >>= checkedNext) offset) ((x >>= next) c) := by
  rw [Running.bind_apply, Running.bind_apply]
  generalize checked offset = r' at hx ⊢
  generalize hrun : x c = r at hx ⊢
  cases hx with
  | ok hin hle => exact (hnext _ _ hrun hin).mono hle
  | error hin hle herror => exact .error hin hle herror

theorem Mirrors.bind (hx : Mirrors text report checked x)
    (hnext : ∀ a, Mirrors text report (checkedNext a) (next a)) :
    Mirrors text report (checked >>= checkedNext) (x >>= next) := by
  intro c hc
  apply (hx c hc).bind
  intro a c' _ hin
  exact hnext a c' hin

theorem mirrors_pure (a : α) : Mirrors text report (pure a) (pure a) := by
  intro c hc
  exact .ok hc (Nat.le_refl _)

theorem Mirrors.map (hx : Mirrors text report checked x) (g : α → β) :
    Mirrors text report (g <$> checked) (g <$> x) := by
  rw [map_eq_pure_bind, map_eq_pure_bind]
  exact hx.bind fun a => mirrors_pure (g a)

theorem Mirrors.discard (hx : Mirrors text report checked x) :
    Mirrors text report (discard checked) (discard x) :=
  hx.map fun _ => ()

theorem Agrees.ite {p : Prop} [Decidable p] {checked' : Step α} {x' : EStateM ε Cursor α}
    (h : p → Agrees text report start (checked offset) (x c))
    (h' : ¬ p → Agrees text report start (checked' offset) (x' c)) :
    Agrees text report start ((if p then checked else checked') offset)
      ((if p then x else x') c) := by
  by_cases hp : p
  · rw [if_pos hp, if_pos hp]
    exact h hp
  · rw [if_neg hp, if_neg hp]
    exact h' hp

theorem Mirrors.ite {p : Prop} [Decidable p] {checked' : Step α} {x' : EStateM ε Cursor α}
    (h : Mirrors text report checked x) (h' : Mirrors text report checked' x') :
    Mirrors text report (if p then checked else checked') (if p then x else x') := by
  intro c hc
  exact .ite (fun _ => h c hc) fun _ => h' c hc

/-- Where a step stands is the same on both sides. -/
theorem mirrors_get {checkedNext : Nat → Step β} {next : Cursor → EStateM ε Cursor β}
    (h : ∀ c, c.In text → Agrees text report c.offset (checkedNext c.offset c.offset) (next c c)) :
    Mirrors text report (get >>= checkedNext) (get >>= next) :=
  h

theorem Mirrors.lift {x : Scan α} (h : Mirrors text .parse checked x) :
    Mirrors text id checked (liftM x : Reading α) := by
  intro c hc
  have hrun := h c hc
  generalize checked c.offset = r' at hrun ⊢
  cases hx : x c with
  | ok a c' =>
    rw [lift_of_ok hx]
    rw [hx] at hrun
    cases hrun with
    | ok hin hle => exact .ok hin hle
  | error e c' =>
    rw [lift_of_error hx]
    rw [hx] at hrun
    cases hrun with
    | error hin hle herror => exact .error hin hle herror

end Step

section Scan

variable {text word : List Char} {c : Cursor} {d : Char}

theorem mirrors_fail {α : Type} (expected : Expected) :
    Mirrors text .parse (fail expected : Step α) (Scan.fail expected) := by
  intro c hc
  refine .error hc (Nat.le_refl _) ?_
  rintro _ ⟨⟩
  exact hc.boundary

theorem peek_eq_head (hc : c.In text) :
    peek text c.offset = .ok (Text.bytes c.rest).head? c.offset := by
  rw [peek, ← hc.drop, List.head?_drop]

theorem peek_of_nil (hc : c.In text) (hrest : c.rest = []) :
    peek text c.offset = .ok none c.offset := by
  rw [peek_eq_head hc, hrest]
  rfl

/-- At a place between two characters, the byte that comes next shows whether an ASCII character
comes next, and which. -/
theorem peek_of_cons (hc : c.In text) {tail : List Char} (hrest : c.rest = d :: tail) :
    ∃ b, peek text c.offset = .ok (some b) c.offset ∧
      ∀ p, Text.IsAscii p → Text.isByte p b = p d := by
  obtain ⟨b, more, hbytes, hb⟩ := Text.exists_byte d tail
  refine ⟨b, ?_, hb⟩
  rw [peek_eq_head hc, hrest, hbytes]
  rfl

theorem rest_eq (hc : c.In text) : rest text c.offset = .ok c.rest c.offset := by
  obtain ⟨before, hcut⟩ := hc.cut?
  refine (Running.bind_of_ok rfl).trans ?_
  rw [cut, hcut]
  rfl

theorem isExhausted_eq (hc : c.In text) :
    isExhausted text c.offset = .ok c.isExhausted c.offset := by
  have hlength := hc.length
  have hexhausted : decide ((Text.bytes text).length ≤ c.offset) = c.isExhausted := by
    cases hrest : c.rest with
    | nil =>
      rw [hrest, Text.length_bytes [], Text.utf8Length] at hlength
      simp only [Cursor.isExhausted, hrest, List.isEmpty_nil, decide_eq_true_eq]
      omega
    | cons d tail =>
      have hpos := d.utf8Size_pos
      rw [hrest, Text.length_bytes (d :: tail), Text.utf8Length] at hlength
      simp only [Cursor.isExhausted, hrest, List.isEmpty_cons, decide_eq_false_iff_not]
      omega
  rw [isExhausted, hexhausted]

theorem skipWhile_eq {p : Char → Bool} (hp : Text.IsAscii p) (hc : c.In text) :
    skipWhile text p c.offset = .ok () (c.skipWhile p).offset := by
  rw [skipWhile, hc.drop, Text.takeWhile_bytes hp, Text.length_bytes]
  rfl

theorem in_skipWhile (hc : c.In text) (p : Char → Bool) : (c.skipWhile p).In text :=
  hc.after _ _ List.takeWhile_append_dropWhile.symm

theorem mirrors_skipWhile {p : Char → Bool} (hp : Text.IsAscii p) :
    Mirrors text .parse (skipWhile text p) (modify (Cursor.skipWhile p)) := by
  intro c hc
  rw [skipWhile_eq hp hc]
  exact .ok (in_skipWhile hc p) (Nat.le_add_right _ _)

theorem isAscii_isSpace : Text.IsAscii Text.isSpace := by
  intro c h
  simp only [Text.isSpace, Bool.or_eq_true, decide_eq_true_eq] at h
  rcases h with ((rfl | rfl) | rfl) | rfl <;> decide

theorem isAscii_isDigit : Text.IsAscii Char.isDigit := by
  intro c h
  simp only [Char.isDigit, Bool.and_eq_true, decide_eq_true_eq] at h
  have hle : c.val.toNat ≤ 57 := h.2
  exact Nat.lt_of_le_of_lt hle (by decide)

theorem isAscii_eq (hd : d.toNat < 128) : Text.IsAscii (· = d) := by
  intro c h
  rw [decide_eq_true_eq] at h
  rwa [h]

theorem isAscii_isNumberPart : Text.IsAscii Scan.isNumberPart := by
  intro c h
  simp only [Scan.isNumberPart, Bool.or_eq_true, decide_eq_true_eq] at h
  rcases h with ((((h | rfl) | rfl) | rfl) | rfl) | rfl
  · exact isAscii_isDigit c h
  all_goals decide

theorem isAscii_isNumberStart : Text.IsAscii isNumberStart := by
  intro c h
  simp only [isNumberStart, Bool.or_eq_true, decide_eq_true_eq] at h
  rcases h with rfl | h
  · decide
  · exact isAscii_isDigit c h

theorem isAscii_isOpening : Text.IsAscii isOpening := by
  intro c h
  simp only [isOpening, Bool.or_eq_true, decide_eq_true_eq] at h
  rcases h with rfl | rfl <;> decide

theorem isAscii_isClosing : Text.IsAscii isClosing := by
  intro c h
  simp only [isClosing, Bool.or_eq_true, decide_eq_true_eq] at h
  rcases h with rfl | rfl <;> decide

theorem mirrors_skipWhitespace :
    Mirrors text .parse (skipWhitespace text) Scan.skipWhitespace :=
  mirrors_skipWhile isAscii_isSpace

theorem mirrors_tryWord (word : List Char) :
    Mirrors text .parse (tryWord text word) (Scan.tryWord word) := by
  intro c hc
  rw [tryWord, Running.bind_of_ok (rest_eq hc), Scan.tryWord]
  by_cases hbegins : word.isPrefixOf c.rest = true
  · rw [if_pos hbegins, if_pos hbegins]
    obtain ⟨tail, htail⟩ := List.isPrefixOf_iff_prefix.1 hbegins
    have hrest : c.rest = word ++ c.rest.drop word.length := by
      rw [← htail, List.drop_left]
    exact .ok (hc.after _ _ hrest) (Nat.le_add_right _ _)
  · rw [if_neg hbegins, if_neg hbegins]
    exact .ok hc (Nat.le_refl _)

theorem mirrors_tryChar (hd : d.toNat < 128) :
    Mirrors text .parse (tryChar text d) (Scan.tryChar d) := by
  intro c hc
  rw [tryChar, Scan.tryChar, Scan.tryWord]
  cases hrest : c.rest with
  | nil =>
    rw [Running.bind_of_ok (peek_of_nil hc hrest)]
    exact .ok hc (Nat.le_refl _)
  | cons e tail =>
    obtain ⟨b, hpeek, hb⟩ := peek_of_cons hc hrest
    rw [Running.bind_of_ok hpeek, Option.any_some, hb _ (isAscii_eq hd)]
    by_cases heq : e = d
    · subst heq
      have hafter : c.after [e] tail = ⟨c.offset + 1, tail⟩ := by
        rw [Cursor.after, Text.utf8Length, Text.utf8Length, Text.utf8Size_of_lt hd]
      have hprefix : [e].isPrefixOf (e :: tail) = true := by simp
      simp only [decide_true, if_true, hprefix]
      change Agrees text .parse c.offset (.ok true (c.offset + 1)) (.ok true (c.after [e] tail))
      rw [hafter]
      exact .ok (hc.next hrest hd) (Nat.le_add_right _ _)
    · have hprefix : [d].isPrefixOf (e :: tail) = false := by
        simp [List.isPrefixOf, Ne.symm heq]
      simp only [heq, decide_false, hprefix, Bool.false_eq_true, if_false]
      exact .ok hc (Nat.le_refl _)

theorem mirrors_expect (hd : d.toNat < 128) :
    Mirrors text .parse (expect text d) (Scan.expect d) :=
  (mirrors_tryChar hd).bind fun _ => .ite (mirrors_pure ()) (mirrors_fail _)

/-- A text has no quote, or it is split by its first one. -/
theorem span_quote (text : List Char) :
    '"' ∉ text ∧ text.dropWhile (· ≠ '"') = [] ∨
      ∃ content tail, text = content ++ '"' :: tail ∧ '"' ∉ content ∧
        text.takeWhile (· ≠ '"') = content ∧ text.dropWhile (· ≠ '"') = '"' :: tail := by
  have hall {content : List Char} (h : '"' ∉ content) : ∀ d ∈ content, decide (d ≠ '"') = true := by
    intro d hd
    exact decide_eq_true fun heq => h (heq ▸ hd)
  by_cases hmem : '"' ∈ text
  · obtain ⟨content, tail, rfl, hcontent⟩ := List.eq_append_cons_of_mem hmem
    have hquote : ∀ d ∈ ('"' :: tail).head?, decide (d ≠ '"') = false := by simp
    exact .inr ⟨content, tail, rfl, hcontent,
      Consumes.takeWhile_of_span (hall hcontent) hquote⟩
  · have hend : ∀ d ∈ ([] : List Char).head?, decide (d ≠ '"') = false := by simp
    have hspan := Consumes.takeWhile_of_span (hall hmem) hend
    rw [List.append_nil] at hspan
    exact .inl ⟨hmem, hspan.2⟩

/-- Content ends with the next quote; without one, the failure is at the end of the text. -/
theorem mirrors_readContent : Mirrors text .parse (readContent text) Scan.readContent := by
  intro c hc
  rw [readContent, Running.bind_of_ok (rest_eq hc), Scan.readContent]
  rcases span_quote c.rest with ⟨hnone, hdrop⟩ | ⟨content, tail, hrest, -, htake, hdrop⟩
  · have hend : Text.utf8Length text = c.offset + Text.utf8Length c.rest := by
      rw [← Text.length_bytes, hc.length, Text.length_bytes]
    rw [if_neg hnone, hdrop]
    change Agrees text .parse c.offset
      (.error (.error (.parse ⟨Text.utf8Length text, .char '"'⟩)) c.offset) _
    rw [hend]
    refine .error hc (Nat.le_refl _) ?_
    rintro _ ⟨⟩
    exact ⟨text, [], by simp, hend⟩
  · have hmem : '"' ∈ c.rest := by
      rw [hrest]
      exact List.mem_append_right _ List.mem_cons_self
    have hcut : cut (Text.utf8Length content) c.rest c.offset =
        .ok (content, '"' :: tail) c.offset := by
      rw [cut, hrest, Text.cut?_append]
      rfl
    have hafter : (c.after (content ++ ['"']) tail).offset =
        c.offset + (Text.utf8Length content + 1) := by
      rw [Cursor.after, Text.utf8Length_append]
      rfl
    rw [if_pos hmem, htake, Running.bind_of_ok hcut, hdrop]
    change Agrees text .parse c.offset (.ok _ (c.offset + (Text.utf8Length content + 1))) _
    rw [← hafter]
    exact .ok (hc.after _ _ (by simp [hrest])) (Nat.le_add_right _ _)

theorem mirrors_readString : Mirrors text .parse (readString text) Scan.readString :=
  (mirrors_expect (by decide)).bind fun _ => mirrors_readContent

/-- Digits are read byte by byte, and a failure points at the start of the number. -/
theorem readDigits_agrees {start : Nat} (hstart : Text.Boundary text start) {negative : Bool}
    (hc : c.In text) (n : Int) : Agrees text .parse c.offset
      (readDigits start negative n c.offset (Text.bytes c.rest))
      (Scan.readDigits start negative n c.offset c.rest) := by
  obtain ⟨offset, rest⟩ := c
  induction rest generalizing n offset with
  | nil => exact .ok hc (Nat.le_refl _)
  | cons d tail ih =>
    obtain ⟨b, more, hbytes, hb⟩ := Text.exists_byte d tail
    have hdigit := hb _ isAscii_isDigit
    cases hd : d.isDigit with
    | false =>
      rw [hd] at hdigit
      simp only [hbytes, readDigits, Scan.readDigits, hdigit, hd, Bool.false_eq_true, if_false]
      exact .ok hc (Nat.le_refl _)
    | true =>
      have hlt := isAscii_isDigit d hd
      rw [Text.bytes_cons hlt] at hbytes ⊢
      obtain ⟨rfl, rfl⟩ := List.cons.inj hbytes
      have hvalue : d.toUInt8.toNat - '0'.toNat = Decimal.digitValue d := by
        rw [Text.toNat_toUInt8 hlt, Decimal.digitValue]
      rw [hd] at hdigit
      simp only [readDigits, Scan.readDigits, hdigit, hd, if_true, hvalue]
      generalize (if negative then _ else _ : Int) = next
      cases Scan.inRange next with
      | true => exact (ih next (offset + 1) (hc.next rfl hlt)).mono (Nat.le_add_right _ _)
      | false =>
        refine .error hc (Nat.le_refl _) ?_
        rintro _ ⟨⟩
        exact hstart

theorem mirrors_readInt : Mirrors text .parse (readInt text) Scan.readInt := by
  apply mirrors_get
  intro start hstart
  apply ((mirrors_tryChar (by decide)) start hstart).bind
  intro negative first _ hfirst
  refine mirrors_get (fun first hfirst => ?_) first hfirst
  apply Agrees.bind
  · rw [hfirst.drop]
    exact readDigits_agrees hstart.boundary hfirst 0
  · intro n last _ hlast
    refine mirrors_get (fun last hlast => ?_) last hlast
    exact (mirrors_fail .digits).ite (mirrors_pure (Int64.ofInt n)) last hlast

end Scan

end Checked

end ShapeCodec
