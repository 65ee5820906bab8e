import ShapeCodec.Proofs.Consumption
import ShapeCodec.Proofs.Json.Grammar
/-! Reading numbers is sound: what is taken off the front of a text is a numeral that stands for the
number. The text of an integer is such a numeral, and is read as the integer. -/
namespace ShapeCodec.Json

section Except

variable {ε α β : Type} {x : Except ε α} {f : α → Except ε β} {g : α → β} {b : β}

theorem bind_eq_ok_iff : x >>= f = .ok b ↔ ∃ a, x = .ok a ∧ f a = .ok b := by
  cases x <;> simp [bind, Except.bind]

theorem map_eq_ok_iff : x.map g = .ok b ↔ ∃ a, x = .ok a ∧ g a = b := by
  cases x <;> simp [Except.map]

end Except

/-- A run of characters and what follows it. -/
theorem exists_run (p : Char → Bool) (text : List Char) :
    text = text.takeWhile p ++ text.dropWhile p ∧ ∀ c ∈ text.takeWhile p, p c = true :=
  ⟨List.takeWhile_append_dropWhile.symm, List.all_eq_true.1 List.all_takeWhile⟩

namespace Number

variable {negative : Bool} {significand dropped : Nat} {text rest whole : List Char} {n : Number}

theorem extend?_eq_some {next : Nat} {c : Char} : extend? significand c = some next ↔
    10 * significand + Decimal.digitValue c ≤ maxSignificand ∧
      10 * significand + Decimal.digitValue c = next := by
  unfold extend?
  rw [Option.ite_none_right_eq_some, Option.some.injEq]

theorem extend?_eq_none {c : Char} : extend? significand c = none ↔
    maxSignificand < 10 * significand + Decimal.digitValue c := by
  unfold extend?
  rw [ite_eq_right_iff, ← Nat.not_le]
  simp only [reduceCtorEq, imp_false]

theorem digitValue_le_maxSignificand {c : Char} (h : c.isDigit = true) :
    Decimal.digitValue c ≤ maxSignificand := by
  have hnine : c.toNat ≤ '9'.toNat := by
    simp only [Char.isDigit, Bool.and_eq_true, decide_eq_true_eq] at h
    exact h.2
  have hzero : Decimal.digitValue c ≤ c.toNat := Nat.sub_le _ _
  exact Nat.le_trans (Nat.le_trans hzero hnine) (by decide)

/-- What the significand says about the digits in front of the point. -/
def Significand (significand dropped value : Nat) : Prop :=
  dropped = 0 ∧ significand = value ∧ value ≤ maxSignificand ∨
    dropped ≠ 0 ∧ maxSignificand < value

theorem wholeDigits_eq {before : Nat} (hbefore : before ≤ maxSignificand) (text : List Char) :
    ∃ significand dropped,
      wholeDigits before text = (significand, dropped, text.dropWhile Char.isDigit) ∧
        Significand significand dropped (Decimal.value before (text.takeWhile Char.isDigit)) := by
  induction text generalizing before with
  | nil => exact ⟨before, 0, rfl, .inl ⟨rfl, rfl, hbefore⟩⟩
  | cons c text ih =>
    rw [wholeDigits]
    cases hdigit : c.isDigit with
    | false =>
      refine ⟨before, 0, by simp [hdigit], .inl ⟨rfl, ?_, ?_⟩⟩ <;>
        simp [hdigit, Decimal.value, hbefore]
    | true =>
      rw [if_pos rfl, List.takeWhile_cons_of_pos hdigit, List.dropWhile_cons_of_pos hdigit]
      cases hnext : extend? before c with
      | some next =>
        obtain ⟨hle, rfl⟩ := extend?_eq_some.1 hnext
        exact ih hle
      | none =>
        refine ⟨before, _, rfl, .inr ⟨by omega, ?_⟩⟩
        exact Nat.lt_of_lt_of_le (extend?_eq_none.1 hnext) (Consumes.le_value _ _)

theorem fractionDigits_eq (before places : Nat) (text : List Char) :
    ∃ significand places',
      fractionDigits before places text = (significand, places', text.dropWhile Char.isDigit) := by
  induction text generalizing before places with
  | nil => exact ⟨before, places, rfl⟩
  | cons c text ih =>
    rw [fractionDigits]
    cases hdigit : c.isDigit with
    | false => exact ⟨before, places, by simp [hdigit]⟩
    | true =>
      rw [if_pos rfl, List.dropWhile_cons_of_pos hdigit]
      cases extend? before c with
      | some next => exact ih next (places + 1)
      | none => exact ⟨before, places, rfl⟩

theorem ofParts_sound {exponent : Int} (h : ofParts negative significand exponent = .ok n) :
    ∃ x, n = .float x := by
  unfold ofParts at h
  split at h
  · cases h
    exact ⟨_, rfl⟩
  · cases h

theorem exponentPart_sound {exponent : Int}
    (h : exponentPart negative significand exponent text = .ok (n, rest)) :
    ∃ x sign run, n = .float x ∧ text = sign ++ run ++ rest ∧ sign ∈ [[], ['+'], ['-']] ∧
      Digits run := by
  unfold exponentPart at h
  split at h
  next down signless hmatch =>
  obtain ⟨sign, hsign, rfl⟩ : ∃ sign ∈ [[], ['+'], ['-']], text = sign ++ signless := by
    split at hmatch <;> cases hmatch
    · exact ⟨['+'], by simp, rfl⟩
    · exact ⟨['-'], by simp, rfl⟩
    · exact ⟨[], by simp, rfl⟩
  obtain ⟨hsignless, hrun⟩ := exists_run Char.isDigit signless
  have hfloat : signless.takeWhile Char.isDigit ≠ [] ∧ (∃ x, n = .float x) ∧
      rest = signless.dropWhile Char.isDigit := by
    simp only at h
    split at h
    · cases h
    · next hdigits =>
      refine ⟨by simpa using hdigits, ?_⟩
      split at h
      · obtain ⟨m, hparts, hm⟩ := map_eq_ok_iff.1 h
        cases hm
        exact ⟨ofParts_sound hparts, rfl⟩
      · split at h <;> cases h
        exact ⟨⟨_, rfl⟩, rfl⟩
  obtain ⟨hdigits, ⟨x, rfl⟩, rfl⟩ := hfloat
  refine ⟨x, sign, _, rfl, ?_, hsign, hdigits, hrun⟩
  rw [List.append_assoc, ← hsignless]

theorem exponentMark?_sound {after : List Char} {exponent : Int}
    (hmark : exponentMark? text = some after)
    (h : exponentPart negative significand exponent after = .ok (n, rest)) :
    ∃ x marked, n = .float x ∧ text = marked ++ rest ∧ Exponent marked ∧ marked ≠ [] := by
  obtain ⟨x, sign, run, rfl, rfl, hsign, hrun⟩ := exponentPart_sound h
  obtain ⟨mark, hletter, rfl⟩ : ∃ mark, (mark = 'e' ∨ mark = 'E') ∧
      text = mark :: (sign ++ run ++ rest) := by
    unfold exponentMark? at hmark
    split at hmark <;> cases hmark
    · exact ⟨'e', .inl rfl, rfl⟩
    · exact ⟨'E', .inr rfl, rfl⟩
  exact ⟨x, mark :: (sign ++ run), rfl, by simp, .present hletter hsign hrun, by simp⟩

theorem fractionPart_sound (hwhole : Whole whole)
    (h : fractionPart negative significand dropped text = .ok (n, rest)) :
    ∃ tail, text = tail ++ rest ∧ Number.Denotes n (minus negative ++ whole ++ '.' :: tail) := by
  unfold fractionPart at h
  split at h
  · cases h
  · next c more =>
    split at h
    · cases h
    · next hdigit =>
      obtain ⟨significand', places, heq⟩ := fractionDigits_eq significand 0 (c :: more)
      simp only [heq] at h
      obtain ⟨htext, hrun⟩ := exists_run Char.isDigit (c :: more)
      have hfraction : Fraction ('.' :: (c :: more).takeWhile Char.isDigit) :=
        .present ⟨by simp [List.takeWhile_cons_of_pos (by simpa using hdigit)], hrun⟩
      split at h
      · next after hmark =>
        obtain ⟨x, marked, rfl, hmarked, hexponent, -⟩ := exponentMark?_sound hmark h
        refine ⟨(c :: more).takeWhile Char.isDigit ++ marked, ?_, ?_⟩
        · rw [List.append_assoc, ← hmarked, ← htext]
        · simpa using Denotes.float x negative hwhole hfraction hexponent
            (by simp)
      · obtain ⟨m, hparts, hm⟩ := map_eq_ok_iff.1 h
        cases hm
        obtain ⟨x, rfl⟩ := ofParts_sound hparts
        refine ⟨(c :: more).takeWhile Char.isDigit, htext, ?_⟩
        simpa using Denotes.float x negative hwhole hfraction .absent (by simp)

theorem not_held_of_dropped (hsignificand : Significand significand dropped (Decimal.value 0 whole))
    (hdropped : dropped ≠ 0) : ¬ Held negative (Decimal.value 0 whole) := by
  obtain ⟨rfl, -⟩ | ⟨-, hlarge⟩ := hsignificand
  · exact absurd rfl hdropped
  · unfold Held maxSignificand at *
    split <;> omega

theorem ofInteger_sound (hwhole : Whole whole) (hvalue : Decimal.value 0 whole ≤ maxSignificand) :
    Number.Denotes (ofInteger negative (Decimal.value 0 whole)) (minus negative ++ whole) := by
  unfold ofInteger
  cases negative with
  | false =>
    exact Denotes.integer false hwhole hvalue
  | true =>
    rw [if_neg (by simp)]
    split
    · next hfloat =>
      have hheld : ¬ Held true (Decimal.value 0 whole) := by
        simp only [Held, if_true]
        omega
      simpa using Denotes.float _ true hwhole .absent .absent fun _ _ => hheld
    · next hinteger =>
      have hheld : Held true (Decimal.value 0 whole) := by
        simp only [Held, if_true]
        omega
      exact Denotes.integer true hwhole hheld

theorem afterWhole_sound
    (hwhole : Whole whole) (hsignificand : Significand significand dropped (Decimal.value 0 whole))
    (h : afterWhole negative significand dropped text = .ok (n, rest)) :
    ∃ tail, text = tail ++ rest ∧ Number.Denotes n (minus negative ++ whole ++ tail) := by
  unfold afterWhole at h
  split at h
  · obtain ⟨tail, rfl, hdenotes⟩ := fractionPart_sound hwhole h
    exact ⟨'.' :: tail, rfl, hdenotes⟩
  · split at h
    · next after hmark =>
      obtain ⟨x, marked, rfl, rfl, hexponent, hmarked⟩ := exponentMark?_sound hmark h
      refine ⟨marked, rfl, ?_⟩
      simpa using Denotes.float x negative hwhole .absent hexponent
        fun _ hnil => absurd hnil hmarked
    · split at h
      · next hdropped =>
        cases h
        obtain ⟨-, rfl, hvalue⟩ | ⟨hne, -⟩ := hsignificand
        · exact ⟨[], rfl, by simpa using ofInteger_sound hwhole hvalue⟩
        · exact absurd hdropped hne
      · next hdropped =>
        obtain ⟨m, hparts, hm⟩ := map_eq_ok_iff.1 h
        cases hm
        obtain ⟨x, rfl⟩ := ofParts_sound hparts
        refine ⟨[], rfl, ?_⟩
        simpa using Denotes.float x negative hwhole .absent .absent
          fun _ _ => not_held_of_dropped hsignificand hdropped

theorem read_sound (h : read text = .ok (n, rest)) :
    ∃ body, text = body ++ rest ∧ Number.Denotes n body := by
  unfold read at h
  split at h
  next negative signless hmatch =>
  obtain rfl : text = minus negative ++ signless := by
    split at hmatch <;> cases hmatch <;> rfl
  simp only at h
  split at h
  · cases h
  · next c more =>
    split at h
    · cases h
    · next hdigit =>
      replace hdigit : c.isDigit = true := by simpa using hdigit
      split at h
      · next hzero =>
        subst hzero
        have hwhole : Whole ['0'] := ⟨⟨by simp, by simp⟩, fun _ => rfl⟩
        have hsignificand : Significand 0 0 (Decimal.value 0 ['0']) := .inl ⟨rfl, rfl, by decide⟩
        have hafter : afterWhole negative 0 0 more = .ok (n, rest) := by
          split at h
          · split at h
            · cases h
            · exact h
          · exact h
        obtain ⟨tail, rfl, hdenotes⟩ := afterWhole_sound hwhole hsignificand hafter
        exact ⟨_, by simp, hdenotes⟩
      · next hzero =>
        obtain ⟨htext, hrun⟩ := exists_run Char.isDigit more
        have hwhole : Whole (c :: more.takeWhile Char.isDigit) :=
          ⟨⟨by simp, List.forall_mem_cons.2 ⟨hdigit, hrun⟩⟩,
            fun h => absurd (by simpa using h) hzero⟩
        obtain ⟨significand, dropped, heq, hsignificand⟩ :=
          wholeDigits_eq (digitValue_le_maxSignificand hdigit) more
        have hvalue : Decimal.value (Decimal.digitValue c) (more.takeWhile Char.isDigit) =
            Decimal.value 0 (c :: more.takeWhile Char.isDigit) := by
          simp [Decimal.value]
        simp only [heq] at h
        obtain ⟨tail, hrest, hdenotes⟩ := afterWhole_sound hwhole (hvalue ▸ hsignificand) h
        refine ⟨_, ?_, hdenotes⟩
        rw [hrest] at htext
        simp [← htext]

section OfInt

/-- No number goes on with the text. -/
def Stops (rest : List Char) : Prop :=
  ∀ c ∈ rest.head?, Scan.isNumberPart c = false

theorem stops_blank {blanks : List Char} (h : Blank blanks) (hrest : Stops rest) :
    Stops (blanks ++ rest) := by
  cases blanks with
  | nil => exact hrest
  | cons c blanks =>
    have hspace := h c List.mem_cons_self
    simp only [Text.isSpace, Bool.or_eq_true, decide_eq_true_eq] at hspace
    rcases hspace with ((rfl | rfl) | rfl) | rfl <;> simp [Stops] <;> decide

theorem Stops.not_digit (h : Stops rest) : ∀ c ∈ rest.head?, c.isDigit = false := by
  intro c hc
  have hpart := h c hc
  simp only [Scan.isNumberPart, Bool.or_eq_false_iff] at hpart
  exact hpart.1.1.1.1.1

/-- Only zero has a leading zero. -/
theorem head?_digits_ne_zero {k : Nat} (hk : k ≠ 0) : (Decimal.digits k).head? ≠ some '0' := by
  induction k using Nat.strongRecOn with
  | ind k ih =>
    rw [Decimal.digits, Nat.toDigits_eq_if (by decide)]
    split
    · simpa using hk
    · next hlarge =>
      have hhigh := ih (k / 10) (by omega) (by omega)
      rwa [List.head?_append, Option.or_of_isSome (by simp [Nat.toDigits_ne_nil])]

theorem afterWhole_of_stops (hrest : Stops rest) :
    afterWhole negative significand 0 rest = .ok (ofInteger negative significand, rest) := by
  unfold afterWhole
  split
  · exact absurd (hrest '.' rfl) (by decide)
  · have hmark : exponentMark? rest = none := by
      unfold exponentMark?
      split
      · exact absurd (hrest 'e' rfl) (by decide)
      · exact absurd (hrest 'E' rfl) (by decide)
      · rfl
    rw [hmark, if_pos rfl]

theorem read_digits (negative : Bool) {k : Nat} (hk : k ≤ maxSignificand) (hrest : Stops rest) :
    read (minus negative ++ (Decimal.digits k ++ rest)) = .ok (ofInteger negative k, rest) := by
  obtain ⟨c, run, hdigits, hvalue, hrun⟩ := Consumes.digits_eq k
  obtain ⟨hc, hruns⟩ := List.forall_mem_cons.1 hrun
  have hminus : c ≠ '-' := by
    rintro rfl
    exact absurd hc (by decide)
  unfold read
  split
  next negative' signless hmatch =>
  obtain ⟨rfl, rfl⟩ : negative = negative' ∧ c :: (run ++ rest) = signless := by
    rw [hdigits] at hmatch
    cases negative with
    | true =>
      cases hmatch
      exact ⟨rfl, rfl⟩
    | false =>
      split at hmatch
      · next heq =>
        cases heq
        exact absurd rfl hminus
      · cases hmatch
        exact ⟨rfl, rfl⟩
  simp only [hc, Bool.not_true, Bool.false_eq_true, if_false]
  split
  · next hzero =>
    obtain rfl : k = 0 := Decidable.byContradiction fun hne =>
      head?_digits_ne_zero hne (by rw [hdigits, hzero, List.head?_cons])
    obtain rfl : run = [] := by
      rw [Decimal.digits, Nat.toDigits_zero, List.cons.injEq] at hdigits
      exact hdigits.2.symm
    split
    · next d tail heq =>
      rw [List.nil_append] at heq
      rw [if_neg (by simp [hrest.not_digit d (by simp [heq])])]
      exact afterWhole_of_stops hrest
    · exact afterWhole_of_stops hrest
  · obtain ⟨htake, hdrop⟩ := Consumes.takeWhile_of_span hruns hrest.not_digit
    obtain ⟨significand, dropped, heq, hsignificand⟩ :=
      wholeDigits_eq (digitValue_le_maxSignificand hc) (run ++ rest)
    have hstart : Decimal.value (Decimal.digitValue c) run = k := by
      rw [← hvalue]
      simp [Decimal.value]
    rw [htake, hstart] at hsignificand
    obtain ⟨rfl, rfl, -⟩ | ⟨-, hlarge⟩ := hsignificand
    · simp only [heq, hdrop]
      exact afterWhole_of_stops hrest
    · omega

/-- The text of an integer is read as the integer. -/
theorem read_ofInt (n : Int64) (hrest : Stops rest) :
    read (Decimal.ofInt n.toInt ++ rest) = .ok (.integer n.toInt, rest) := by
  have hlow := n.le_toInt
  have hhigh := n.toInt_lt
  revert hlow hhigh
  cases n.toInt with
  | ofNat k =>
    intro hlow hhigh
    have hk : k ≤ maxSignificand := by
      unfold maxSignificand
      simp only [Int.ofNat_eq_natCast] at hhigh
      omega
    exact read_digits false hk hrest
  | negSucc k =>
    intro hlow hhigh
    have hk : k + 1 ≤ 9223372036854775808 := by omega
    have hread := read_digits true (k := k + 1) (by unfold maxSignificand; omega) hrest
    have hinteger : ofInteger true (k + 1) = .integer (Int.negSucc k) := by
      unfold ofInteger
      rw [if_neg (by simp), if_neg (by omega)]
      rfl
    rwa [hinteger] at hread

end OfInt

end Number

end ShapeCodec.Json
