import ShapeCodec.Proofs.Consumption
/-! Texts as bytes. An ASCII character is one byte below 128, and every byte of another character is
at least 128, so that ASCII can be told from the bytes alone; cutting a text at a byte offset is
another matter. -/
namespace ShapeCodec.Text

/-- The bytes of UTF-8. -/
def bytes (text : List Char) : List UInt8 :=
  text.flatMap String.utf8EncodeChar

/-- Whether a byte is an ASCII character with a property. -/
def isByte (p : Char → Bool) (b : UInt8) : Bool :=
  b < 128 && p (Char.ofNat b.toNat)

/-- A property that only ASCII characters have. -/
def IsAscii (p : Char → Bool) : Prop :=
  ∀ c, p c = true → c.toNat < 128

/-- The pieces of a text before and after a byte offset, which must not lie inside a character or
behind the end. -/
def cut? : Nat → List Char → Option (List Char × List Char)
  | 0, text => some ([], text)
  | _ + 1, [] => none
  | offset + 1, c :: rest =>
    if offset + 1 < c.utf8Size then none
    else (cut? (offset + 1 - c.utf8Size) rest).map fun pieces => (c :: pieces.1, pieces.2)

example : cut? 3 ['a', 'é', 'b'] = some (['a', 'é'], ['b']) ∧ cut? 2 ['a', 'é', 'b'] = none ∧
    cut? 5 ['a', 'é', 'b'] = none := by decide

section Character

variable {c : Char} {p : Char → Bool} {b : UInt8}

theorem utf8EncodeChar_of_lt (h : c.toNat < 128) : String.utf8EncodeChar c = [c.toUInt8] := by
  have hle : c.val.toNat ≤ 127 := Nat.le_of_lt_succ h
  simp only [String.utf8EncodeChar, hle, if_true]
  rfl

theorem le_of_mem_utf8EncodeChar (h : 128 ≤ c.toNat) (hb : b ∈ String.utf8EncodeChar c) :
    128 ≤ b.toNat := by
  have hgt : ¬ c.val.toNat ≤ 127 := Nat.not_le.2 h
  simp only [String.utf8EncodeChar, hgt, if_false] at hb
  split at hb
  · simp only [List.mem_cons, List.not_mem_nil, or_false] at hb
    rcases hb with rfl | rfl <;> simp <;> omega
  · split at hb
    · simp only [List.mem_cons, List.not_mem_nil, or_false] at hb
      rcases hb with rfl | rfl | rfl <;> simp <;> omega
    · simp only [List.mem_cons, List.not_mem_nil, or_false] at hb
      rcases hb with rfl | rfl | rfl | rfl <;> simp <;> omega

theorem toNat_toUInt8 (h : c.toNat < 128) : c.toUInt8.toNat = c.toNat :=
  Nat.mod_eq_of_lt (Nat.lt_trans h (by decide))

theorem isByte_of_le (h : 128 ≤ b.toNat) : isByte p b = false := by
  have hb : ¬ b < 128 := by
    rw [UInt8.lt_iff_toNat_lt]
    exact Nat.not_lt.2 h
  simp [isByte, hb]

theorem isByte_toUInt8 (h : c.toNat < 128) : isByte p c.toUInt8 = p c := by
  have hb : c.toUInt8 < 128 := by
    rw [UInt8.lt_iff_toNat_lt, toNat_toUInt8 h]
    exact h
  simp [isByte, hb, toNat_toUInt8 h]

/-- What a character is not, none of its bytes is. -/
theorem isByte_of_mem (hp : p c = false) (hb : b ∈ String.utf8EncodeChar c) :
    isByte p b = false := by
  by_cases hc : c.toNat < 128
  · rw [utf8EncodeChar_of_lt hc, List.mem_singleton] at hb
    rw [hb, isByte_toUInt8 hc, hp]
  · exact isByte_of_le (le_of_mem_utf8EncodeChar (Nat.not_lt.1 hc) hb)

theorem utf8Size_of_lt (h : c.toNat < 128) : c.utf8Size = 1 := by
  rw [← String.length_utf8EncodeChar, utf8EncodeChar_of_lt h]
  rfl

end Character

section Text

variable {c : Char} {p : Char → Bool} {rest text : List Char}

theorem bytes_append (a b : List Char) : bytes (a ++ b) = bytes a ++ bytes b :=
  List.flatMap_append

theorem bytes_cons (h : c.toNat < 128) (rest : List Char) :
    bytes (c :: rest) = c.toUInt8 :: bytes rest := by
  rw [bytes, List.flatMap_cons, utf8EncodeChar_of_lt h]
  rfl

theorem length_bytes (text : List Char) : (bytes text).length = utf8Length text := by
  induction text with
  | nil => rfl
  | cons c rest ih =>
    rw [utf8Length, ← ih, ← String.length_utf8EncodeChar, ← List.length_append]
    rfl

theorem cut?_append (before after : List Char) :
    cut? (utf8Length before) (before ++ after) = some (before, after) := by
  induction before with
  | nil => rw [utf8Length, List.nil_append, cut?]
  | cons c before ih =>
    have hpos := c.utf8Size_pos
    obtain ⟨n, hn⟩ : ∃ n, utf8Length (c :: before) = n + 1 :=
      Nat.exists_eq_add_one.2 (by rw [utf8Length]; omega)
    rw [List.cons_append, hn, cut?, ← hn, utf8Length, if_neg (by omega), Nat.add_sub_cancel_left,
      ih]
    rfl

/-- The first byte of a text shows which ASCII character it begins with, if any. -/
theorem exists_byte (c : Char) (rest : List Char) : ∃ b more,
    bytes (c :: rest) = b :: more ∧ ∀ p, IsAscii p → isByte p b = p c := by
  by_cases hc : c.toNat < 128
  · exact ⟨c.toUInt8, bytes rest, bytes_cons hc rest, fun p _ => isByte_toUInt8 hc⟩
  · obtain ⟨b, more, hbytes⟩ := List.exists_cons_of_ne_nil (String.utf8EncodeChar_ne_nil (c := c))
    refine ⟨b, more ++ bytes rest, ?_, fun p hp => ?_⟩
    · rw [bytes, List.flatMap_cons, hbytes]
      rfl
    · have hb : b ∈ String.utf8EncodeChar c := by
        rw [hbytes]
        exact List.mem_cons_self
      have hpc : p c = false := Bool.eq_false_iff.2 fun h => hc (hp c h)
      rw [isByte_of_mem hpc hb, hpc]

/-- A run of ASCII characters is a run of bytes. -/
theorem takeWhile_bytes (hp : IsAscii p) (text : List Char) :
    (bytes text).takeWhile (isByte p) = bytes (text.takeWhile p) := by
  induction text with
  | nil => rfl
  | cons c rest ih =>
    by_cases hpc : p c = true
    · have hc := hp c hpc
      rw [bytes_cons hc, List.takeWhile_cons_of_pos (by rw [isByte_toUInt8 hc, hpc]), ih,
        List.takeWhile_cons_of_pos hpc, bytes_cons hc]
    · obtain ⟨b, more, hbytes, hb⟩ := exists_byte c rest
      rw [hbytes, List.takeWhile_cons_of_neg (by rwa [hb p hp]), List.takeWhile_cons_of_neg hpc]
      rfl

theorem any_bytes (hp : IsAscii p) (text : List Char) :
    (bytes text).any (isByte p) = text.any p := by
  induction text with
  | nil => rfl
  | cons c rest ih =>
    rw [bytes, List.flatMap_cons, List.any_append, ← bytes, ih, List.any_cons]
    congr 1
    cases hpc : p c with
    | true =>
      have hc := hp c hpc
      simp [utf8EncodeChar_of_lt hc, isByte_toUInt8 hc, hpc]
    | false =>
      rw [List.any_eq_false]
      exact fun b hb => by simp [isByte_of_mem hpc hb]

end Text

end ShapeCodec.Text
