import ShapeCodec.Machine.Read
import ShapeCodec.Proofs.Running
/-! Scanning steps on text that they take as a whole, whatever comes after it. -/
namespace ShapeCodec

theorem Text.utf8Length_append (a b : List Char) :
    utf8Length (a ++ b) = utf8Length a + utf8Length b := by
  induction a with
  | nil => simp [utf8Length]
  | cons c a ih => simp [utf8Length, ih, Nat.add_assoc]

section Lift

variable {α : Type} {x : Scan α} {c c' : Cursor} {a : α} {e : ParseError}

theorem lift_of_ok (h : x c = .ok a c') : (liftM x : Reading α) c = .ok a c' := by
  simp only [liftM, monadLift, MonadLift.monadLift, h]

theorem lift_of_error (h : x c = .error e c') :
    (liftM x : Reading α) c = .error (.parse e) c' := by
  simp only [liftM, monadLift, MonadLift.monadLift, h]

theorem eq_ok_of_lift (h : (liftM x : Reading α) c = .ok a c') : x c = .ok a c' := by
  cases hx : x c with
  | ok b mid => rwa [lift_of_ok hx, EStateM.Result.ok.injEq, ← EStateM.Result.ok.injEq] at h
  | error e mid => simp [lift_of_error hx] at h

end Lift

/-- In front of `rest` a step takes exactly `taken`, wherever the cursor stands. -/
structure Consumes {ε α : Type} (x : EStateM ε Cursor α) (taken rest : List Char) (a : α) :
    Prop where
  run : ∀ offset, x ⟨offset, taken ++ rest⟩ = .ok a ⟨offset + Text.utf8Length taken, rest⟩

namespace Consumes

section Step

variable {ε α β : Type} {x : EStateM ε Cursor α} {f : α → EStateM ε Cursor β} {g : α → β}
  {taken taken' rest : List Char} {a : α} {b : β}

theorem nothing (a : α) (rest : List Char) : Consumes (pure a : EStateM ε Cursor α) [] rest a :=
  ⟨fun _ => rfl⟩

theorem seq (hx : Consumes x taken (taken' ++ rest) a) (hf : Consumes (f a) taken' rest b) :
    Consumes (x >>= f) (taken ++ taken') rest b := by
  constructor
  intro offset
  rw [List.append_assoc, Running.bind_of_ok (hx.run offset), hf.run, Text.utf8Length_append,
    Nat.add_assoc]

/-- A step that takes nothing, before one that does. -/
theorem seq_nil (hx : Consumes x [] (taken ++ rest) a) (hf : Consumes (f a) taken rest b) :
    Consumes (x >>= f) taken rest b :=
  hx.seq hf

theorem map (hx : Consumes x taken rest a) : Consumes (g <$> x) taken rest (g a) := by
  constructor
  intro offset
  rw [Running.map_of_ok (hx.run offset)]

theorem discard (hx : Consumes x taken rest a) : Consumes (discard x) taken rest () :=
  hx.map

theorem get_bind {f : Cursor → EStateM ε Cursor β}
    (h : ∀ c : Cursor, c.rest = taken ++ rest → Consumes (f c) taken rest b) :
    Consumes (get >>= f) taken rest b :=
  ⟨fun offset => (h ⟨offset, taken ++ rest⟩ rfl).run offset⟩

theorem lift {x : Scan α} (hx : Consumes x taken rest a) :
    Consumes (liftM x : Reading α) taken rest a := by
  constructor
  intro offset
  exact lift_of_ok (hx.run offset)

end Step

section Scan

variable {word taken rest content run : List Char} {c : Char}

theorem takeWhile_of_span {p : Char → Bool} (htaken : ∀ c ∈ taken, p c = true)
    (hrest : ∀ c ∈ rest.head?, p c = false) :
    (taken ++ rest).takeWhile p = taken ∧ (taken ++ rest).dropWhile p = rest := by
  rw [List.takeWhile_append_of_pos htaken, List.dropWhile_append_of_pos htaken]
  cases rest with
  | nil => simp
  | cons c rest => simp [hrest c rfl]

theorem skipWhitespace_apply (c : Cursor) :
    Scan.skipWhitespace c = .ok () (c.skipWhile Text.isSpace) := rfl

theorem skipWhitespace (htaken : ∀ c ∈ taken, Text.isSpace c = true)
    (hrest : ∀ c ∈ rest.head?, Text.isSpace c = false) :
    Consumes Scan.skipWhitespace taken rest () := by
  obtain ⟨htake, hdrop⟩ := takeWhile_of_span htaken hrest
  constructor
  intro offset
  rw [skipWhitespace_apply, Cursor.skipWhile, htake, hdrop]
  rfl

theorem tryWord (word rest : List Char) : Consumes (Scan.tryWord word) word rest true := by
  constructor
  intro offset
  simp [Scan.tryWord, Cursor.after]

theorem tryWord_miss (word : List Char) (h : ∀ d ∈ rest.head?, d ≠ c) :
    Consumes (Scan.tryWord (c :: word)) [] rest false := by
  constructor
  intro offset
  cases rest with
  | nil => simp [Scan.tryWord, Text.utf8Length]
  | cons d rest =>
    have hd : (c == d) = false := beq_eq_false_iff_ne.2 (h d rfl).symm
    simp [Scan.tryWord, Text.utf8Length, List.isPrefixOf, hd]

theorem tryChar (c : Char) (rest : List Char) : Consumes (Scan.tryChar c) [c] rest true :=
  tryWord [c] rest

theorem tryChar_miss (h : ∀ d ∈ rest.head?, d ≠ c) : Consumes (Scan.tryChar c) [] rest false :=
  tryWord_miss [] h

theorem tryNull (rest : List Char) : Consumes Scan.tryNull nullWord rest true :=
  tryWord nullWord rest

theorem tryNull_miss (h : ∀ d ∈ rest.head?, d ≠ 'n') : Consumes Scan.tryNull [] rest false :=
  tryWord_miss _ h

theorem expect (c : Char) (rest : List Char) : Consumes (Scan.expect c) [c] rest () := by
  constructor
  intro offset
  rw [Scan.expect, Running.bind_of_ok ((tryChar c rest).run offset)]
  rfl

theorem readString (h : '"' ∉ content) (rest : List Char) :
    Consumes Scan.readString ('"' :: content ++ ['"']) rest (String.ofList content) := by
  have hcontent : Consumes Scan.readContent (content ++ ['"']) rest (String.ofList content) := by
    have hcontent : ∀ d ∈ content, decide (d ≠ '"') = true := by
      intro d hd
      exact decide_eq_true fun heq => h (heq ▸ hd)
    have hquote : ∀ d ∈ ('"' :: rest).head?, decide (d ≠ '"') = false := by simp
    obtain ⟨htake, hdrop⟩ := takeWhile_of_span hcontent hquote
    constructor
    intro offset
    simp only [Scan.readContent, List.append_assoc, List.singleton_append, htake, hdrop]
    rfl
  exact (expect '"' _).seq hcontent

end Scan

section Integer

variable {run rest : List Char}

/-- The number that is meant by the digits up to now. -/
def signed (negative : Bool) (n : Nat) : Int :=
  if negative then -(n : Int) else n

theorem le_value (before : Nat) (run : List Char) : before ≤ Decimal.value before run := by
  induction run generalizing before with
  | nil => exact Nat.le_refl before
  | cons c run ih =>
    have hrest := ih (10 * before + Decimal.digitValue c)
    simp only [Decimal.value, List.foldl_cons] at hrest ⊢
    omega

theorem inRange_iff (n : Int) :
    Scan.inRange n = true ↔ -9223372036854775808 ≤ n ∧ n ≤ 9223372036854775807 := by
  simp [Scan.inRange]

theorem inRange_signed_of_le {negative : Bool} {m n : Nat} (hle : m ≤ n)
    (h : Scan.inRange (signed negative n) = true) : Scan.inRange (signed negative m) = true := by
  rw [inRange_iff] at h ⊢
  cases negative <;> simp only [signed, Bool.false_eq_true, if_false, if_true] at h ⊢ <;> omega

/-- A run of digits is read as the number it denotes, if that is in range. -/
theorem readDigits_run (start offset : Nat) {n : Nat} {negative : Bool}
    (hrun : ∀ c ∈ run, c.isDigit = true) (hrest : ∀ c ∈ rest.head?, c.isDigit = false)
    (hrange : Scan.inRange (signed negative (Decimal.value n run)) = true) :
    Scan.readDigits start negative (signed negative n) offset (run ++ rest) =
      .ok (signed negative (Decimal.value n run)) ⟨offset + run.length, rest⟩ := by
  induction run generalizing n offset with
  | nil =>
    cases rest with
    | nil => rfl
    | cons c rest => simp [Scan.readDigits, hrest c rfl, Decimal.value]
  | cons c run ih =>
    have hnext : (if negative then 10 * signed negative n - Decimal.digitValue c
        else 10 * signed negative n + Decimal.digitValue c) =
          signed negative (10 * n + Decimal.digitValue c) := by
      cases negative <;> simp only [signed, Bool.false_eq_true, if_false, if_true] <;> omega
    have hle : 10 * n + Decimal.digitValue c ≤ Decimal.value n (c :: run) := le_value _ run
    have hread := ih (offset + 1) (fun d hd => hrun d (List.mem_cons_of_mem c hd)) hrange
    simp only [List.cons_append, Scan.readDigits, hrun c List.mem_cons_self, if_true, hnext,
      inRange_signed_of_le hle hrange]
    rw [hread]
    simp [Decimal.value, Nat.add_assoc, Nat.add_comm 1]

theorem utf8Size_of_isDigit {c : Char} (h : c.isDigit = true) : c.utf8Size = 1 := by
  simp only [Char.isDigit, Bool.and_eq_true, decide_eq_true_eq] at h
  rw [Char.utf8Size, if_pos (UInt32.le_trans h.2 (by decide))]

theorem utf8Length_digits (hrun : ∀ c ∈ run, c.isDigit = true) :
    Text.utf8Length run = run.length := by
  induction run with
  | nil => rfl
  | cons c run ih =>
    rw [Text.utf8Length, utf8Size_of_isDigit (hrun c List.mem_cons_self),
      ih fun d hd => hrun d (List.mem_cons_of_mem c hd), List.length_cons, Nat.add_comm]

/-- Digits behind a sign, read as a number, are an integer. -/
theorem readInt_of_digits {negative : Bool} {sign : List Char} {n : Int}
    (hsign : Consumes (Scan.tryChar '-') sign (run ++ rest) negative)
    (hrun : ∀ d ∈ run, d.isDigit = true) (hne : run ≠ [])
    (hread : ∀ start offset, Scan.readDigits start negative 0 offset (run ++ rest) =
      .ok n ⟨offset + run.length, rest⟩) :
    Consumes Scan.readInt (sign ++ run) rest (Int64.ofInt n) := by
  constructor
  intro offset
  rw [List.append_assoc, Scan.readInt]
  refine (Running.bind_of_ok rfl).trans ?_
  refine (Running.bind_of_ok (hsign.run offset)).trans ?_
  refine (Running.bind_of_ok rfl).trans ?_
  refine (Running.bind_of_ok (hread _ _)).trans ?_
  refine (Running.bind_of_ok rfl).trans ?_
  rw [if_neg (by simp [hne]), Text.utf8Length_append, utf8Length_digits hrun, Nat.add_assoc]
  rfl

theorem readInt_run {negative : Bool} {c : Char} {sign : List Char}
    (hsign : Consumes (Scan.tryChar '-') sign (c :: run ++ rest) negative)
    (hrun : ∀ d ∈ c :: run, d.isDigit = true) (hrest : ∀ d ∈ rest.head?, d.isDigit = false)
    (hrange : Scan.inRange (signed negative (Decimal.value 0 (c :: run))) = true) :
    Consumes Scan.readInt (sign ++ c :: run) rest
      (Int64.ofInt (signed negative (Decimal.value 0 (c :: run)))) := by
  have hzero : signed negative 0 = 0 := by
    cases negative <;> rfl
  refine readInt_of_digits hsign hrun (by simp) fun start offset => ?_
  rw [← hzero]
  exact readDigits_run start offset hrun hrest hrange

theorem digits_eq (k : Nat) : ∃ c run, Decimal.digits k = c :: run ∧
    Decimal.value 0 (c :: run) = k ∧ ∀ d ∈ c :: run, d.isDigit = true := by
  obtain ⟨c, run, hdigits⟩ := List.exists_cons_of_ne_nil (Nat.toDigits_ne_nil (n := k) (b := 10))
  refine ⟨c, run, hdigits, hdigits ▸ Nat.ofDigitChars_ten_toDigits, fun d hd => ?_⟩
  exact Nat.isDigit_of_mem_toDigits (by decide) (by decide) (hdigits ▸ hd)

/-- An integer is read back from its text. -/
theorem readInt (n : Int64) (hrest : ∀ c ∈ rest.head?, c.isDigit = false) :
    Consumes Scan.readInt (Decimal.ofInt n.toInt) rest n := by
  have hrange : Scan.inRange n.toInt = true :=
    (inRange_iff _).2 ⟨by have := n.le_toInt; omega, by have := n.toInt_lt; omega⟩
  have hn : Int64.ofInt n.toInt = n := Int64.ofInt_toInt n
  revert hrange hn
  cases n.toInt with
  | ofNat k =>
    intro hrange hn
    obtain ⟨c, run, hdigits, hvalue, hrun⟩ := digits_eq k
    have hsign : Consumes (Scan.tryChar '-') [] (c :: run ++ rest) false := by
      refine tryChar_miss ?_
      rintro _ ⟨⟩ rfl
      exact absurd (hrun '-' List.mem_cons_self) (by decide)
    have hsigned : signed false k = Int.ofNat k := rfl
    have hread := readInt_run hsign hrun hrest (by rwa [hvalue, hsigned])
    rw [hvalue, hsigned, hn] at hread
    rw [Decimal.ofInt, hdigits]
    exact hread
  | negSucc k =>
    intro hrange hn
    obtain ⟨c, run, hdigits, hvalue, hrun⟩ := digits_eq (k + 1)
    have hsigned : signed true (k + 1) = Int.negSucc k := rfl
    have hread := readInt_run (tryChar '-' (c :: run ++ rest)) hrun hrest
      (by simpa only [hvalue, hsigned] using hrange)
    simp only [hvalue, hsigned, hn] at hread
    rw [Decimal.ofInt, hdigits]
    exact hread

end Integer

end Consumes

end ShapeCodec
