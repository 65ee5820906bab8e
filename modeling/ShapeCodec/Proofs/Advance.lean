import ShapeCodec.Proofs.Brackets
/-! How far reading gets. Whatever is read takes up input, be it only skipped: scalars and words are
not empty, and objects and lists end with a bracket unless null stands for them. The commas in loops
are optional, so it is the entries that move a loop forwards. None of this depends on the table. -/
namespace ShapeCodec

theorem Text.length_le_utf8Length (text : List Char) : text.length ≤ utf8Length text := by
  induction text with
  | nil => exact Nat.le_refl 0
  | cons d text ih =>
    have hpos := d.utf8Size_pos
    rw [List.length_cons, utf8Length]
    omega

/-- Where the step succeeds, it passes over as many characters as `P` asks for with the result, or
more. -/
def Advances {ε α : Type} (P : Nat → α → Prop) (x : EStateM ε Cursor α) : Prop :=
  ∀ c a c', x c = .ok a c' → ∃ taken, Cursor.Moves taken c c' ∧ ∃ n ≤ taken.length, P n a

section Step

variable {ε α β : Type} {P : Nat → α → Prop} {Q : Nat → β → Prop} {x y : EStateM ε Cursor α}
  {f : α → EStateM ε Cursor β} {c c' : Cursor} {a : α}

theorem advances_pure (h : P 0 a) : Advances P (pure a : EStateM ε Cursor α) := by
  rintro c _ _ ⟨⟩
  exact ⟨[], c.moves_nil, 0, Nat.le_refl 0, h⟩

theorem advances_throw (e : ε) : Advances P (throw e : EStateM ε Cursor α) := by
  intro c a c' h
  cases h

theorem Advances.bind (hx : Advances P x)
    (hf : ∀ a m, P m a → Advances (fun n b => Q (m + n) b) (f a)) : Advances Q (x >>= f) := by
  intro c b c' h
  obtain ⟨a, mid, hrun, hnext⟩ := Running.bind_eq_ok_iff.1 h
  obtain ⟨first, hfirst, m, hm, hP⟩ := hx c a mid hrun
  obtain ⟨second, hsecond, n, hn, hQ⟩ := hf a m hP mid b c' hnext
  refine ⟨first ++ second, hfirst.trans hsecond, m + n, ?_, hQ⟩
  rw [List.length_append]
  exact Nat.add_le_add hm hn

/-- What the first step takes need not be counted. -/
theorem Advances.before (hx : Advances P x) (hf : ∀ a, Advances Q (f a)) :
    Advances Q (x >>= f) := by
  intro c b c' h
  obtain ⟨a, mid, hrun, hnext⟩ := Running.bind_eq_ok_iff.1 h
  obtain ⟨first, hfirst, -⟩ := hx c a mid hrun
  obtain ⟨second, hsecond, n, hn, hQ⟩ := hf a mid b c' hnext
  refine ⟨first ++ second, hfirst.trans hsecond, n, ?_, hQ⟩
  rw [List.length_append]
  exact Nat.le_trans hn (Nat.le_add_left _ _)

theorem Advances.mono {P' : Nat → α → Prop} (hx : Advances P x) (h : ∀ n a, P n a → P' n a) :
    Advances P' x := by
  intro c a c' hrun
  obtain ⟨taken, hmoves, n, hn, hP⟩ := hx c a c' hrun
  exact ⟨taken, hmoves, n, hn, h n a hP⟩

theorem Advances.map {g : α → β} (hx : Advances (fun n a => Q n (g a)) x) :
    Advances Q (g <$> x) := by
  intro c b c' h
  obtain ⟨a, hrun, rfl⟩ := Running.map_eq_ok_iff.1 h
  exact hx c a c' hrun

theorem Advances.ite {p : Prop} [Decidable p] (hx : Advances P x) (hy : Advances P y) :
    Advances P (if p then x else y) := by
  split
  · exact hx
  · exact hy

theorem advances_get {g : Cursor → EStateM ε Cursor α} (hg : ∀ c, Advances P (g c)) :
    Advances P (get >>= g) :=
  fun c => hg c c

theorem Peeks.advances (hx : Peeks x) : Advances (fun n _ => n = 0) x := by
  intro c a c' hrun
  obtain ⟨taken, hsplit, htaken⟩ := hx c a c' hrun
  exact ⟨taken, (htaken c'.rest rfl).moves hrun hsplit, 0, Nat.zero_le _, rfl⟩

theorem Lexes.advances (hx : Lexes x) : Advances (fun n _ => n = 1) x := by
  intro c a c' hrun
  obtain ⟨taken, hne, hsplit, htaken⟩ := hx c a c' hrun
  exact ⟨taken, (htaken c'.rest rfl).moves hrun hsplit, 1, List.length_pos_of_ne_nil hne, rfl⟩

theorem advances_tryWord (word : List Char) :
    Advances (fun n found => n = if found then word.length else 0) (Scan.tryWord word) := by
  intro c found c' hrun
  rcases tryWord_eq_ok hrun with ⟨rfl, hsplit⟩ | ⟨rfl, rfl, -⟩
  · exact ⟨word, (Consumes.tryWord word c'.rest).moves hrun hsplit, _, Nat.le_refl _, rfl⟩
  · exact ⟨[], c'.moves_nil, 0, Nat.le_refl 0, rfl⟩

theorem Advances.lift {x : Scan α} (hx : Advances P x) : Advances P (liftM x : Reading α) :=
  fun c a c' h => hx c a c' (eq_ok_of_lift h)

/-- The text that is left gets shorter. -/
theorem Advances.left (hx : Advances P x) (h : x c = .ok a c') :
    ∃ n, P n a ∧ c'.rest.length + n ≤ c.rest.length := by
  obtain ⟨taken, hmoves, n, hn, hP⟩ := hx c a c' h
  refine ⟨n, hP, ?_⟩
  rw [hmoves.split.1, List.length_append]
  omega

/-- Bytes are counted by the offset, and a character has one at least. -/
theorem Advances.offset (hx : Advances P x) (h : x c = .ok a c') :
    ∃ n, P n a ∧ c.offset + n ≤ c'.offset := by
  obtain ⟨taken, hmoves, n, hn, hP⟩ := hx c a c' h
  have hbytes := Text.length_le_utf8Length taken
  refine ⟨n, hP, ?_⟩
  rw [hmoves.split.2]
  omega

end Step

section Scan

variable {α : Type} {P : Nat → α → Prop}

theorem advances_skipWhitespace :
    Advances (fun n _ => n = 0) (liftM Scan.skipWhitespace : Reading Unit) :=
  peeks_skipWhitespace.lift.advances

theorem advances_comma :
    Advances (fun n _ => n = 0) (discard (liftM (Scan.tryChar ',') : Reading Bool)) :=
  ((peeks_tryChar ',').lift.map _).advances

theorem advances_expect (d : Char) :
    Advances (fun n _ => n = 1) (liftM (Scan.expect d) : Reading Unit) :=
  (delimits_expect d).lift.lexes.advances

theorem advances_skipValue :
    Advances (fun n _ => n = 1) (liftM Scan.skipValue : Reading Unit) :=
  lexes_skipValue.lift.advances

theorem advances_fail (expected : Expected) :
    Advances P (liftM (Scan.fail expected) : Reading α) := by
  intro c a c' h
  cases h

/-- A word is taken, or what comes instead. -/
theorem advances_orWord {word : List Char} {onWord : α} {other : Reading α}
    (hword : P word.length onWord) (hother : Advances P other) :
    Advances P (do if ← Scan.tryWord word then pure onWord else other : Reading α) := by
  refine (advances_tryWord word).lift.bind fun found m hm => ?_
  cases found with
  | true =>
    obtain rfl : m = word.length := hm
    exact advances_pure hword
  | false =>
    obtain rfl : m = 0 := hm
    simpa only [Bool.false_eq_true, if_false, Nat.zero_add] using hother

end Scan

/-- A list has an opening bracket and its items, anything else a character at least. -/
def Value.extent : Value → Nat
  | list items => items.length + 1
  | _ => 1

theorem Value.extent_pos (v : Value) : 0 < v.extent := by
  cases v <;> simp [extent]

namespace Machine

section Plan

variable {α β : Type} {P : Nat → α → Prop} {Q : Nat → β → Prop} {call : RoutineId → Reading Value}

theorem advances_readOperand (hcall : ∀ id, Advances (fun n v => v.extent ≤ n) (call id))
    (operand : Operand) : Advances (fun n v => v.extent ≤ n) (readOperand call operand) := by
  refine advances_skipWhitespace.before fun _ => ?_
  cases operand with
  | int =>
    have hint : Advances (fun n v => v.extent ≤ n)
        (Value.int <$> (liftM Scan.readInt : Reading _)) :=
      (lexes_readInt.lift.advances.mono fun n _ hn => Nat.le_of_eq hn.symm).map
    exact advances_orWord (by decide) hint
  | str =>
    have hstr : Advances (fun n v => v.extent ≤ n)
        (Value.str <$> (liftM Scan.readString : Reading _)) :=
      (delimits_readString.lexes.lift.advances.mono fun n _ hn => Nat.le_of_eq hn.symm).map
    exact advances_orWord (by decide) hstr
  | call id => exact hcall id

theorem advances_readMember (hcall : ∀ id, Advances (fun n v => v.extent ≤ n) (call id))
    (fields : List FieldPlan) (slots : List Value) :
    Advances (fun n _ => 1 ≤ n) (readMember call fields slots) := by
  refine delimits_readString.lexes.lift.advances.before fun name => ?_
  refine advances_skipWhitespace.before fun _ => ?_
  refine (advances_expect ':').before fun _ => ?_
  cases fields.find? fun f => f.name = name with
  | some f =>
    have hoperand := advances_readOperand hcall f.operand
    exact (hoperand.mono fun n v hn => Nat.le_trans v.extent_pos hn).map
  | none =>
    refine advances_skipValue.bind fun _ m hm => ?_
    exact advances_pure (Nat.le_of_eq hm.symm)

/-- A round takes the bracket, or an entry and what the next round takes. -/
theorem advances_round {close : Char} {finish : α} {entry : Reading β} {next : β → Reading α}
    (hfinish : P 1 finish) (hentry : Advances Q entry)
    (hnext : ∀ b m, Q m b → Advances (fun n a => P (m + n) a) (next b)) :
    Advances P (Direct.round close finish entry next) := by
  refine advances_skipWhitespace.before fun _ => ?_
  refine advances_get fun _ => Advances.ite (advances_fail _) (advances_orWord hfinish ?_)
  refine hentry.bind fun b m hm => ?_
  exact advances_skipWhitespace.before fun _ => advances_comma.before fun _ => hnext b m hm

theorem advances_readMembers (hcall : ∀ id, Advances (fun n v => v.extent ≤ n) (call id))
    (fields : List FieldPlan) (bound : Nat) (slots : List Value) :
    Advances (fun n _ => 1 ≤ n) (readMembers call fields bound slots) := by
  induction bound generalizing slots with
  | zero => exact advances_fail _
  | succ bound ih =>
    refine advances_round (Nat.le_refl 1) (advances_readMember hcall fields slots) ?_
    exact fun slots m _ => (ih slots).mono fun n _ hn => Nat.le_trans hn (Nat.le_add_left n m)

/-- Every item takes a character, and so does the bracket behind them. -/
theorem advances_readItems (hcall : ∀ id, Advances (fun n v => v.extent ≤ n) (call id))
    (element : Operand) (bound : Nat) :
    Advances (fun n items => items.length + 1 ≤ n) (readItems call element bound) := by
  induction bound with
  | zero => exact advances_fail _
  | succ bound ih =>
    refine advances_round (Nat.le_refl 1) (advances_readOperand hcall element) fun item m hm => ?_
    have hpos := item.extent_pos
    refine (ih.mono fun n items hn => ?_).map
    rw [List.length_cons]
    omega

theorem advances_runPlan (hcall : ∀ id, Advances (fun n v => v.extent ≤ n) (call id))
    (plan : ReadPlan) : Advances (fun n v => v.extent ≤ n) (runPlan call plan) := by
  refine advances_skipWhitespace.before fun _ => ?_
  cases plan with
  | scalar operand => exact advances_readOperand hcall operand
  | object type nullable fields defaults =>
    have hnull :
        (if nullable then Value.null else .record type defaults).extent ≤ nullWord.length := by
      cases nullable <;> simp [Value.extent, nullWord]
    refine advances_orWord hnull ((advances_expect '\x7b').before fun _ => ?_)
    exact advances_get fun start => (advances_readMembers hcall fields _ defaults).map
  | list nullable element =>
    have hnull : (if nullable then Value.null else .list []).extent ≤ nullWord.length := by
      cases nullable <;> simp [Value.extent, nullWord]
    refine advances_orWord hnull ((advances_expect '[').before fun _ => ?_)
    exact advances_get fun start => (advances_readItems hcall element _).map

end Plan

/-- Whatever routine reads or skips a value, and whatever the table is: a value takes up input, and
a list more of it than it has items. -/
theorem advances_readWithin (m : Machine) (levels : Nat) (id : RoutineId) :
    Advances (fun n v => v.extent ≤ n) (m.readWithin levels id) := by
  have hinert : Advances (fun n v => v.extent ≤ n) readInert := by
    refine advances_skipValue.bind fun _ m hm => ?_
    exact advances_pure (Nat.le_of_eq hm.symm)
  induction levels using Nat.strongRecOn generalizing id with
  | ind levels ih =>
    unfold readWithin
    split
    · exact hinert
    · split
      · exact hinert
      · exact advances_throw _
      · cases levels with
        | zero => exact advances_skipWhitespace.before fun _ => advances_fail _
        | succ levels => exact advances_runPlan (ih levels (Nat.lt_succ_self levels)) _

end Machine

end ShapeCodec
