import ShapeCodec.Machine.Write
import ShapeCodec.Proofs.Consumption
/-! Reading integers exactly. At every place of every text there is a longest numeral, a minus sign
or none and then digits, and what is read is the integer that it denotes, however long it is. The
number is made up digit by digit in 64 bits, where each operation tells when it would wrap around:
the numbers on the way grow with the digits, so as soon as one of them is too big, so is the
whole. -/
namespace ShapeCodec

/-- The integers of 64 bits with a sign. -/
def InRange (n : Int) : Prop :=
  Int64.minValue.toInt ≤ n ∧ n ≤ Int64.maxValue.toInt

namespace Numeral

def isNegative (text : List Char) : Bool :=
  text.head? = some '-'

/-- The minus sign that a text begins with, if it does. -/
def sign (text : List Char) : List Char :=
  if isNegative text then ['-'] else []

/-- All digits behind the sign, up to the first other character. -/
def digits (text : List Char) : List Char :=
  (text.drop (sign text).length).takeWhile Char.isDigit

/-- What follows the digits. -/
def behind (text : List Char) : List Char :=
  (text.drop (sign text).length).dropWhile Char.isDigit

/-- The integer that the sign and the digits denote. -/
def value (text : List Char) : Int :=
  if isNegative text then -(Decimal.value 0 (digits text) : Int) else Decimal.value 0 (digits text)

example : sign "-007,".toList = ['-'] ∧ digits "-007,".toList = ['0', '0', '7'] ∧
    value "-007,".toList = -7 ∧ behind "-007,".toList = [','] := by
  decide +kernel

end Numeral

namespace Word

/-- The product in 64 bits, unless it wraps around. -/
def times? (a b : Int64) : Option Int64 :=
  if a.toBitVec.smulOverflow b.toBitVec then none else some (a * b)

/-- The sum in 64 bits, unless it wraps around. -/
def plus? (a b : Int64) : Option Int64 :=
  if a.toBitVec.saddOverflow b.toBitVec then none else some (a + b)

/-- The difference in 64 bits, unless it wraps around. -/
def minus? (a b : Int64) : Option Int64 :=
  if a.toBitVec.ssubOverflow b.toBitVec then none else some (a - b)

/-- A number with one more digit behind it. -/
def append? (negative : Bool) (n : Int64) (c : Char) : Option Int64 := do
  let tens ← times? n 10
  let digit := Int64.ofNat (Decimal.digitValue c)
  if negative then minus? tens digit else plus? tens digit

/-- Continues a number with the digits that follow, in steps of 64 bits. -/
def readDigits (start : Nat) (negative : Bool) (n : Int64) (offset : Nat) :
    List Char → EStateM.Result ParseError Cursor Int64
  | [] => .ok n ⟨offset, []⟩
  | c :: rest =>
    if c.isDigit then
      match append? negative n c with
      | some next => readDigits start negative next (offset + 1) rest
      | none => .error ⟨start, .integerInRange⟩ ⟨offset, c :: rest⟩
    else .ok n ⟨offset, c :: rest⟩

/-- An optional minus sign and digits, read in steps of 64 bits. -/
def readInt : Scan Int64 := do
  let start ← get
  let negative ← Scan.tryChar '-'
  let first ← get
  let n ← fun c => readDigits start.offset negative 0 c.offset c.rest
  if (← get).offset = first.offset then Scan.fail .digits
  else pure n

end Word

theorem InRange.iff_le (n : Int) :
    InRange n ↔ -9223372036854775808 ≤ n ∧ n ≤ 9223372036854775807 := by
  rw [InRange, Int64.toInt_minValue, Int64.toInt_maxValue]
  omega

theorem inRange_iff (n : Int) : Scan.inRange n = true ↔ InRange n :=
  (Consumes.inRange_iff n).trans (InRange.iff_le n).symm

namespace Word

open Consumes (signed)

variable {n : Int64} {negative : Bool} {c : Char} {k : Nat}

/-- The word of an integer that is in range. -/
def ofInt? (n : Int) : Option Int64 :=
  if Scan.inRange n then some (Int64.ofInt n) else none

theorem toInt_ofInt {n : Int} (h : Scan.inRange n = true) : (Int64.ofInt n).toInt = n := by
  obtain ⟨hmin, hmax⟩ := (Consumes.inRange_iff n).1 h
  exact Int64.toInt_ofInt_of_le (by omega) (by omega)

/-- An operation whose flag tells that the true result is out of range, and whose result is the true
one up to wrapping around, gives the true result or none. -/
theorem ofInt?_of_flag {wraps : Bool} {result : Int64} {n : Int}
    (hflag : wraps = (decide (9223372036854775808 ≤ n) || decide (n < -9223372036854775808)))
    (hresult : result = Int64.ofInt n) : (if wraps then none else some result) = ofInt? n := by
  have hrange : wraps = !Scan.inRange n := by
    rw [hflag, Bool.eq_iff_iff, Bool.not_eq_true', Bool.eq_false_iff, ne_eq, Consumes.inRange_iff]
    simp only [Bool.or_eq_true, decide_eq_true_eq]
    omega
  rw [ofInt?, hrange, hresult]
  cases Scan.inRange n <;> rfl

theorem times?_eq (a b : Int64) : times? a b = ofInt? (a.toInt * b.toInt) :=
  ofInt?_of_flag rfl (by rw [Int64.ofInt_mul, Int64.ofInt_toInt, Int64.ofInt_toInt])

theorem plus?_eq (a b : Int64) : plus? a b = ofInt? (a.toInt + b.toInt) :=
  ofInt?_of_flag rfl (by rw [Int64.ofInt_add, Int64.ofInt_toInt, Int64.ofInt_toInt])

theorem minus?_eq (a b : Int64) : minus? a b = ofInt? (a.toInt - b.toInt) :=
  ofInt?_of_flag rfl (by rw [Int64.ofInt_sub, Int64.ofInt_toInt, Int64.ofInt_toInt])

theorem toInt_digit (h : c.isDigit = true) :
    (Int64.ofNat (Decimal.digitValue c)).toInt = Decimal.digitValue c := by
  have hnine : c.toNat ≤ '9'.toNat := by
    simp only [Char.isDigit, Bool.and_eq_true, decide_eq_true_eq] at h
    exact h.2
  have hvalue : Decimal.digitValue c ≤ c.toNat := Nat.sub_le _ _
  have hsmall : '9'.toNat < 2 ^ 63 := by decide
  exact Int64.toInt_ofNat_of_lt (by omega)

/-- The digits up to now with one more, as the number that is meant. -/
theorem signed_next (negative : Bool) (k digit : Nat) :
    (if negative then 10 * signed negative k - digit else 10 * signed negative k + digit) =
      signed negative (10 * k + digit) := by
  cases negative <;> simp only [signed, Bool.false_eq_true, if_false, if_true] <;> omega

theorem signed_zero (negative : Bool) : signed negative 0 = 0 := by
  cases negative <;> rfl

/-- The product does not wrap around unless the number with the next digit is out of range. -/
theorem append?_eq (hn : n.toInt = signed negative k) (hc : c.isDigit = true) :
    append? negative n c = ofInt? (signed negative (10 * k + Decimal.digitValue c)) := by
  have htens : n.toInt * (10 : Int64).toInt = signed negative (10 * k) := by
    have hten : (10 : Int64).toInt = 10 := rfl
    rw [hn, hten]
    cases negative <;> simp only [signed, Bool.false_eq_true, if_false, if_true] <;> omega
  rw [append?, times?_eq, htens, ofInt?]
  cases hrange : Scan.inRange (signed negative (10 * k)) with
  | true =>
    have htoInt := toInt_ofInt hrange
    cases negative with
    | true =>
      simp only [if_true, Option.bind_eq_bind, Option.bind_some, minus?_eq, htoInt, toInt_digit hc]
      congr 1
      simp only [signed, if_true]
      omega
    | false =>
      simp only [if_true, Bool.false_eq_true, if_false, Option.bind_eq_bind, Option.bind_some,
        plus?_eq, htoInt, toInt_digit hc]
      congr 1
  | false =>
    have hnext : Scan.inRange (signed negative (10 * k + Decimal.digitValue c)) = false :=
      Bool.eq_false_iff.2 fun h =>
        Bool.eq_false_iff.1 hrange (Consumes.inRange_signed_of_le (Nat.le_add_right _ _) h)
    simp [ofInt?, hnext]

/-- A result with its integer as a word. -/
def ofResult : EStateM.Result ParseError Cursor Int → EStateM.Result ParseError Cursor Int64
  | .ok n c => .ok (Int64.ofInt n) c
  | .error e c => .error e c

theorem readDigits_eq (start offset : Nat) (text : List Char) (hn : n.toInt = signed negative k) :
    readDigits start negative n offset text =
      ofResult (Scan.readDigits start negative (signed negative k) offset text) := by
  induction text generalizing n k offset with
  | nil => rw [readDigits, Scan.readDigits, ofResult, ← hn, Int64.ofInt_toInt]
  | cons c text ih =>
    rw [readDigits, Scan.readDigits]
    cases hc : c.isDigit with
    | false => simp only [Bool.false_eq_true, if_false, ofResult, ← hn, Int64.ofInt_toInt]
    | true =>
      simp only [if_true, append?_eq hn hc, signed_next, ofInt?]
      cases hrange : Scan.inRange (signed negative (10 * k + Decimal.digitValue c)) with
      | true => exact ih _ (toInt_ofInt hrange)
      | false => rfl

/-- In steps of 64 bits, none of which wraps around, the same integers are read from every text. -/
theorem readInt_eq : readInt = Scan.readInt := by
  rw [readInt, Scan.readInt]
  refine bind_congr fun start => bind_congr fun negative => bind_congr fun first => ?_
  funext c
  have hdigits := readDigits_eq (n := 0) start.offset c.offset c.rest (signed_zero negative).symm
  rw [signed_zero] at hdigits
  refine (Running.bind_apply _ _ c).trans (Eq.trans ?_ (Running.bind_apply _ _ c).symm)
  rw [hdigits]
  cases Scan.readDigits start.offset negative 0 c.offset c.rest <;> rfl

end Word

namespace Numeral

open Consumes (signed)
open Word (signed_zero)

theorem split (text : List Char) : sign text ++ (digits text ++ behind text) = text := by
  rw [digits, behind, List.takeWhile_append_dropWhile, sign]
  cases hnegative : isNegative text with
  | false => rfl
  | true =>
    obtain ⟨rest, rfl⟩ := List.head?_eq_some_iff.1 (of_decide_eq_true hnegative)
    rfl

theorem isDigit_of_mem_digits {text : List Char} : ∀ c ∈ digits text, c.isDigit = true :=
  List.all_eq_true.1 List.all_takeWhile

theorem not_isDigit_behind (text : List Char) : ∀ c ∈ (behind text).head?, c.isDigit = false := by
  intro c hc
  have h := List.head?_dropWhile_not Char.isDigit (text.drop (sign text).length)
  rw [behind] at hc
  rw [hc] at h
  exact h

theorem value_eq_signed (text : List Char) :
    value text = signed (isNegative text) (Decimal.value 0 (digits text)) := rfl

theorem tryChar_sign (text : List Char) : Consumes (Scan.tryChar '-') (sign text)
    (digits text ++ behind text) (isNegative text) := by
  have hsplit := split text
  rw [sign] at hsplit ⊢
  cases hnegative : isNegative text with
  | true => exact Consumes.tryChar '-' _
  | false =>
    refine Consumes.tryChar_miss ?_
    rintro d hd rfl
    rw [hnegative] at hsplit
    change digits text ++ behind text = text at hsplit
    rw [hsplit] at hd
    rw [isNegative, hd] at hnegative
    exact absurd hnegative (by decide)

theorem utf8Length_sign (text : List Char) : Text.utf8Length (sign text) = (sign text).length := by
  rw [sign]
  cases isNegative text <;> rfl

/-- Digits that lead out of range are not read to their end. -/
theorem readDigits_overflow (start offset : Nat) {negative : Bool} {k : Nat}
    {run rest : List Char} (hrun : ∀ c ∈ run, c.isDigit = true)
    (hk : Scan.inRange (signed negative k) = true)
    (hrange : Scan.inRange (signed negative (Decimal.value k run)) = false) :
    ∃ c', Scan.readDigits start negative (signed negative k) offset (run ++ rest) =
      .error ⟨start, .integerInRange⟩ c' := by
  induction run generalizing k offset with
  | nil => exact absurd hk (Bool.eq_false_iff.1 hrange)
  | cons c run ih =>
    obtain ⟨hc, hrun⟩ := List.forall_mem_cons.1 hrun
    simp only [List.cons_append, Scan.readDigits, hc, if_true, Word.signed_next]
    cases hnext : Scan.inRange (signed negative (10 * k + Decimal.digitValue c)) with
    | true => exact ih (offset + 1) hrun hnext hrange
    | false => exact ⟨_, rfl⟩

section Run

variable {c c' : Cursor}

/-- The sign is taken, then the digits, and then it is seen whether there were any. -/
theorem readInt_of_ok {n : Int}
    (h : Scan.readDigits c.offset (isNegative c.rest) 0 (c.offset + (sign c.rest).length)
      (digits c.rest ++ behind c.rest) = .ok n c') :
    Scan.readInt c =
      if c'.offset = c.offset + (sign c.rest).length then .error ⟨c'.offset, .digits⟩ c'
      else .ok (Int64.ofInt n) c' := by
  have hsign := (tryChar_sign c.rest).run c.offset
  rw [split, utf8Length_sign] at hsign
  rw [Scan.readInt]
  refine (Running.bind_of_ok rfl).trans ((Running.bind_of_ok hsign).trans ?_)
  refine (Running.bind_of_ok rfl).trans ((Running.bind_of_ok h).trans ?_)
  refine (Running.bind_of_ok rfl).trans ?_
  by_cases hsame : c'.offset = c.offset + (sign c.rest).length
  · rw [if_pos hsame, if_pos hsame]
    rfl
  · rw [if_neg hsame, if_neg hsame]
    rfl

theorem readInt_of_error {e : ParseError}
    (h : Scan.readDigits c.offset (isNegative c.rest) 0 (c.offset + (sign c.rest).length)
      (digits c.rest ++ behind c.rest) = .error e c') : Scan.readInt c = .error e c' := by
  have hsign := (tryChar_sign c.rest).run c.offset
  rw [split, utf8Length_sign] at hsign
  rw [Scan.readInt]
  refine (Running.bind_of_ok rfl).trans ((Running.bind_of_ok hsign).trans ?_)
  exact (Running.bind_of_ok rfl).trans (Running.bind_of_error h)

theorem after_numeral (c : Cursor) : c.after (sign c.rest ++ digits c.rest) (behind c.rest) =
    ⟨c.offset + (sign c.rest).length + (digits c.rest).length, behind c.rest⟩ := by
  rw [Cursor.after, Text.utf8Length_append, utf8Length_sign,
    Consumes.utf8Length_digits isDigit_of_mem_digits, Nat.add_assoc]

/-- A numeral in range is read to its end. -/
theorem readInt_of_inRange (h : InRange (value c.rest)) :
    Scan.readInt c =
      if digits c.rest = [] then
        .error ⟨c.offset + (sign c.rest).length, .digits⟩
          (c.after (sign c.rest ++ digits c.rest) (behind c.rest))
      else .ok (Int64.ofInt (value c.rest))
        (c.after (sign c.rest ++ digits c.rest) (behind c.rest)) := by
  have hread := Consumes.readDigits_run (n := 0) c.offset (c.offset + (sign c.rest).length)
    isDigit_of_mem_digits (not_isDigit_behind c.rest) ((inRange_iff _).2 h)
  rw [signed_zero, ← after_numeral] at hread
  rw [readInt_of_ok hread]
  by_cases hnone : digits c.rest = []
  · have hsame : (c.after (sign c.rest ++ digits c.rest) (behind c.rest)).offset =
        c.offset + (sign c.rest).length := by
      rw [after_numeral, hnone, List.length_nil, Nat.add_zero]
    rw [if_pos hsame, if_pos hnone, hsame]
  · have hpos : 0 < (digits c.rest).length := List.length_pos_iff.2 hnone
    have hmoved : (c.after (sign c.rest ++ digits c.rest) (behind c.rest)).offset ≠
        c.offset + (sign c.rest).length := by
      rw [after_numeral]
      dsimp only
      omega
    rw [if_neg hmoved, if_neg hnone, value_eq_signed]

/-- A numeral out of range is refused where it starts. -/
theorem readInt_of_not_inRange (h : ¬ InRange (value c.rest)) :
    ∃ c', Scan.readInt c = .error ⟨c.offset, .integerInRange⟩ c' := by
  have hzero : Scan.inRange (signed (isNegative c.rest) 0) = true := by
    rw [signed_zero]
    decide
  obtain ⟨c', hread⟩ := readDigits_overflow c.offset (c.offset + (sign c.rest).length)
    isDigit_of_mem_digits hzero (Bool.eq_false_iff.2 fun hrange => h ((inRange_iff _).1 hrange))
  rw [signed_zero] at hread
  exact ⟨c', readInt_of_error hread⟩

theorem inRange_of_digits_eq_nil {text : List Char} (h : digits text = []) :
    InRange (value text) := by
  rw [value_eq_signed, h, InRange.iff_le]
  have hzero : signed (isNegative text) (Decimal.value 0 []) = 0 := signed_zero _
  omega

/-- There is no digit, or there are some and what they denote is in range, or it is not. -/
theorem readInt_cases (c : Cursor) :
    (digits c.rest = [] ∧
        ∃ c', Scan.readInt c = .error ⟨c.offset + (sign c.rest).length, .digits⟩ c') ∨
      (digits c.rest ≠ [] ∧ InRange (value c.rest) ∧ ∃ n, n.toInt = value c.rest ∧
        Scan.readInt c = .ok n (c.after (sign c.rest ++ digits c.rest) (behind c.rest))) ∨
      (¬ InRange (value c.rest) ∧
        ∃ c', Scan.readInt c = .error ⟨c.offset, .integerInRange⟩ c') := by
  by_cases hrange : InRange (value c.rest)
  · have hread := readInt_of_inRange hrange
    by_cases hnone : digits c.rest = []
    · rw [if_pos hnone] at hread
      exact .inl ⟨hnone, _, hread⟩
    · rw [if_neg hnone] at hread
      exact .inr (.inl ⟨hnone, hrange, _, Word.toInt_ofInt ((inRange_iff _).2 hrange), hread⟩)
  · exact .inr (.inr ⟨hrange, readInt_of_not_inRange hrange⟩)

theorem readInt_eq_ok_iff {n : Int64} : Scan.readInt c = .ok n c' ↔
    digits c.rest ≠ [] ∧ InRange (value c.rest) ∧ n.toInt = value c.rest ∧
      c' = c.after (sign c.rest ++ digits c.rest) (behind c.rest) := by
  rcases readInt_cases c with
    ⟨hnone, _, hread⟩ | ⟨hsome, hrange, m, hm, hread⟩ | ⟨hrange, _, hread⟩
  · simp [hread, hnone]
  · rw [hread, EStateM.Result.ok.injEq]
    constructor
    · rintro ⟨rfl, rfl⟩
      exact ⟨hsome, hrange, hm, rfl⟩
    · rintro ⟨-, -, hn, rfl⟩
      exact ⟨Int64.toInt_inj.1 (hm.trans hn.symm), rfl⟩
  · simp [hread, hrange]

theorem readInt_outOfRange_iff :
    (∃ c', Scan.readInt c = .error ⟨c.offset, .integerInRange⟩ c') ↔
      ¬ InRange (value c.rest) := by
  rcases readInt_cases c with
    ⟨hnone, _, hread⟩ | ⟨hsome, hrange, m, hm, hread⟩ | ⟨hrange, _, hread⟩
  · simp [hread, inRange_of_digits_eq_nil hnone]
  · simp [hread, hrange]
  · simp [hread, hrange]

theorem readInt_noDigits_iff :
    (∃ c', Scan.readInt c = .error ⟨c.offset + (sign c.rest).length, .digits⟩ c') ↔
      digits c.rest = [] := by
  rcases readInt_cases c with
    ⟨hnone, _, hread⟩ | ⟨hsome, hrange, m, hm, hread⟩ | ⟨hrange, _, hread⟩
  · simp [hread, hnone]
  · simp [hread, hsome]
  · have hsome : digits c.rest ≠ [] := fun hnone => hrange (inRange_of_digits_eq_nil hnone)
    simp [hread, hsome]

end Run

end Numeral

/-- An integer that is written in front of anything but a digit is read back. -/
theorem readInt_wire (n : Int64) (offset : Nat) {rest : List Char}
    (hrest : ∀ d ∈ rest.head?, d.isDigit = false) :
    Scan.readInt ⟨offset, (Wire.int n).toList ++ rest⟩ =
      .ok n ⟨offset + Text.utf8Length (Wire.int n).toList, rest⟩ := by
  rw [Wire.int, Decimal.text, String.toList_ofList]
  exact (Consumes.readInt n hrest).run offset

/-- What is read at a place is the integer that the longest numeral there denotes, and the cursor
stops behind it, exactly if there is a digit and the integer is in range. Otherwise the failure is
at the start of a numeral out of range, or behind the sign where a digit should be. Steps of 64 bits
do the same, none of them wrapping around, and written integers are read back. -/
theorem readInt_exact (c : Cursor) :
    (∀ n c', Scan.readInt c = .ok n c' ↔
      Numeral.digits c.rest ≠ [] ∧ InRange (Numeral.value c.rest) ∧
        n.toInt = Numeral.value c.rest ∧
        c' = c.after (Numeral.sign c.rest ++ Numeral.digits c.rest) (Numeral.behind c.rest)) ∧
    ((∃ c', Scan.readInt c = .error ⟨c.offset, .integerInRange⟩ c') ↔
      ¬ InRange (Numeral.value c.rest)) ∧
    ((∃ c', Scan.readInt c =
        .error ⟨c.offset + (Numeral.sign c.rest).length, .digits⟩ c') ↔
      Numeral.digits c.rest = []) ∧
    Word.readInt c = Scan.readInt c ∧
    ∀ n rest, (∀ d ∈ rest.head?, d.isDigit = false) →
      Scan.readInt ⟨c.offset, (Wire.int n).toList ++ rest⟩ =
        .ok n ⟨c.offset + Text.utf8Length (Wire.int n).toList, rest⟩ :=
  ⟨fun _ _ => Numeral.readInt_eq_ok_iff, Numeral.readInt_outOfRange_iff,
    Numeral.readInt_noDigits_iff, congrFun Word.readInt_eq c,
    fun n _ hrest => readInt_wire n c.offset hrest⟩

/-- The least integer is in range, the one below it is not. -/
theorem readInt_exact_minValue :
    Scan.readInt ⟨0, "-9223372036854775808,".toList⟩ = .ok Int64.minValue ⟨20, [',']⟩ ∧
      (∃ c', Scan.readInt ⟨0, "-9223372036854775809,".toList⟩ =
        .error ⟨0, .integerInRange⟩ c') ∧
      Scan.readInt ⟨0, (Wire.int Int64.minValue).toList ++ [',']⟩ =
        .ok Int64.minValue ⟨20, [',']⟩ := by
  obtain ⟨hok, -, -, -, hback⟩ := readInt_exact ⟨0, "-9223372036854775808,".toList⟩
  obtain ⟨-, hout, -⟩ := readInt_exact ⟨0, "-9223372036854775809,".toList⟩
  refine ⟨(hok _ _).2 ⟨by decide +kernel, ?_, by decide +kernel, by decide +kernel⟩,
    hout.2 ?_, hback Int64.minValue [','] (by simp)⟩
  · rw [InRange.iff_le]
    decide +kernel
  · rw [InRange.iff_le]
    decide +kernel

end ShapeCodec
