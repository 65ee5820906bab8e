import ShapeCodec.Proofs.Ending
/-! Reading and skipping. A scan that counts brackets comes as far over a value that can be read as
the reader, which knows what the brackets are for: what is read between two of them has its own
closed, and the first that closes more than it opens is the one at which reading ends. So whatever is
read can be skipped, up to the same place. -/
namespace ShapeCodec

/-- The cursor goes over a piece of text. -/
inductive Cursor.Moves (taken : List Char) : Cursor → Cursor → Prop
  | past (offset : Nat) (rest : List Char) :
      Moves taken ⟨offset, taken ++ rest⟩ ⟨offset + Text.utf8Length taken, rest⟩

section Moves

variable {ε α : Type} {x : EStateM ε Cursor α} {a b : α} {taken rest : List Char} {c c' : Cursor}

theorem Cursor.moves_after (h : c.rest = taken ++ rest) : Moves taken c (c.after taken rest) := by
  obtain ⟨offset, text⟩ := c
  obtain rfl : text = taken ++ rest := h
  exact .past offset rest

theorem Consumes.eq_ok (h : Consumes x taken c'.rest a) (hmoves : Cursor.Moves taken c c') :
    x c = .ok a c' := by
  cases hmoves with
  | past offset rest => exact h.run offset

theorem Consumes.moves (h : Consumes x taken c'.rest a) (hrun : x c = .ok b c')
    (hsplit : c.rest = taken ++ c'.rest) : Cursor.Moves taken c c' := by
  obtain ⟨offset, text⟩ := c
  obtain rfl : text = taken ++ c'.rest := hsplit
  have hsame := (h.run offset).symm.trans hrun
  rw [EStateM.Result.ok.injEq] at hsame
  have hmoves : Cursor.Moves taken _ _ := .past offset c'.rest
  rwa [hsame.2] at hmoves

end Moves

/-- What is left of a scan with this many brackets still to close. With none it is over. -/
def closing : Nat → Scan Unit
  | 0 => pure ()
  | depth + 1 => fun c => Scan.skipBrackets (depth + 1) none c.offset c.rest

/-- In the text that the step takes, the scan goes from `m` open brackets to `n`, whatever the
number of those around them. -/
def Nests {ε α : Type} (m n : Nat) (x : EStateM ε Cursor α) : Prop :=
  ∀ c a c', x c = .ok a c' → ∀ outer, closing (outer + m) c = closing (outer + n) c'

section Step

variable {ε α β : Type} {m n k : Nat} {x : EStateM ε Cursor α} {f : α → EStateM ε Cursor β}

theorem nests_pure (a : α) : Nests n n (pure a : EStateM ε Cursor α) := by
  rintro c _ _ ⟨⟩ outer
  rfl

theorem Nests.bind (hx : Nests m n x) (hf : ∀ a, Nests n k (f a)) : Nests m k (x >>= f) := by
  intro c b c' h outer
  obtain ⟨a, mid, hrun, hnext⟩ := Running.bind_eq_ok_iff.1 h
  exact (hx c a mid hrun outer).trans (hf a mid b c' hnext outer)

theorem Nests.map (hx : Nests m n x) (g : α → β) : Nests m n (g <$> x) := by
  intro c b c' h
  obtain ⟨a, hrun, -⟩ := Running.map_eq_ok_iff.1 h
  exact hx c a c' hrun

theorem Nests.ite {p : Prop} [Decidable p] {y : EStateM ε Cursor α} (hx : Nests m n x)
    (hy : Nests m n y) : Nests m n (if p then x else y) := by
  split
  · exact hx
  · exact hy

theorem nests_get {f : Cursor → EStateM ε Cursor α} (hf : ∀ c, Nests m n (f c)) :
    Nests m n (get >>= f) :=
  fun c => hf c c

theorem Nests.lift {x : Scan α} (hx : Nests m n x) : Nests m n (liftM x : Reading α) :=
  fun c a c' h => hx c a c' (eq_ok_of_lift h)

/-- One more bracket around the text makes no difference. -/
theorem Nests.inside (hx : Nests m n x) : Nests (m + 1) (n + 1) x := by
  intro c a c' h outer
  have hinside := hx c a c' h (outer + 1)
  rwa [Nat.add_right_comm, Nat.add_right_comm outer 1 n] at hinside

end Step

section Scan

variable {c c' : Cursor} {taken : List Char} {d : Char}

theorem Passes.closing_eq (h : Passes taken) (hmoves : Cursor.Moves taken c c') (outer : Nat) :
    closing (outer + 1) c = closing (outer + 1) c' := by
  cases hmoves with
  | past offset rest => exact h outer offset rest

theorem closing_of_opening (hopening : d ∈ ['\x7b', '[']) (hmoves : Cursor.Moves [d] c c')
    (outer : Nat) : closing (outer + 1) c = closing (outer + 2) c' := by
  obtain ⟨offset, rest⟩ := hmoves
  simp only [List.mem_cons, List.not_mem_nil, or_false] at hopening
  rcases hopening with rfl | rfl <;> simp [closing, Scan.skipBrackets, Text.utf8Length]

theorem closing_of_close (hclose : d ∈ ['\x7d', ']']) (hmoves : Cursor.Moves [d] c c')
    (outer : Nat) : closing (outer + 1) c = closing outer c' := by
  obtain ⟨offset, rest⟩ := hmoves
  simp only [List.mem_cons, List.not_mem_nil, or_false] at hclose
  cases outer <;> rcases hclose with rfl | rfl <;>
    simp [closing, Scan.skipBrackets, Text.utf8Length, pure, EStateM.pure]

/-- A scan that comes to its end goes on from there if there are more brackets around. -/
theorem skipBrackets_add {depth offset : Nat} {opened : Option Cursor} {text : List Char}
    (h : Scan.skipBrackets depth opened offset text = .ok () c') (hdepth : 0 < depth)
    (outer : Nat) :
    Scan.skipBrackets (outer + depth) opened offset text = closing outer c' := by
  fun_induction Scan.skipBrackets depth opened offset text with
  | case1 => cases h
  | case2 => cases h
  | case3 depth offset d rest next start ih =>
    rw [Scan.skipBrackets]
    exact ih h hdepth
  | case4 depth offset rest next ih =>
    simpa [Scan.skipBrackets] using ih h hdepth
  | case5 depth offset d rest next hquote hopen ih =>
    simpa [Scan.skipBrackets, hquote, hopen, Nat.add_assoc] using ih h (by omega)
  | case6 depth offset d rest next hquote hopen hclose hlast =>
    obtain rfl : depth = 1 := by omega
    cases h
    have hbracket : d ∈ ['\x7d', ']'] := by simpa using hclose
    exact closing_of_close hbracket (.past offset rest) outer
  | case7 depth offset d rest next hquote hopen hclose hlast ih =>
    have hmore : ¬ outer + depth ≤ 1 := by omega
    have hless : outer + depth - 1 = outer + (depth - 1) := by omega
    simpa [Scan.skipBrackets, hquote, hopen, hclose, hmore, hless] using ih h (by omega)
  | case8 depth offset d rest next hquote hopen hclose ih =>
    simpa [Scan.skipBrackets, hquote, hopen, hclose] using ih h hdepth

theorem nests_fail {α : Type} {m n : Nat} (expected : Expected) :
    Nests m n (Scan.fail expected : Scan α) := by
  rintro c a c' ⟨⟩

theorem nests_skipWhitespace : Nests 1 1 Scan.skipWhitespace := by
  rintro c _ _ ⟨⟩
  have hblank : Json.Blank (c.rest.takeWhile Text.isSpace) := List.all_eq_true.1 List.all_takeWhile
  exact (passes_blank hblank).closing_eq
    (Cursor.moves_after List.takeWhile_append_dropWhile.symm)

theorem nests_tryWord {word : List Char} (hword : Passes word) : Nests 1 1 (Scan.tryWord word) := by
  intro c found c' h
  rcases tryWord_eq_ok h with ⟨-, hsplit⟩ | ⟨-, rfl, -⟩
  · exact hword.closing_eq ((Consumes.tryWord word c'.rest).moves h hsplit)
  · exact fun _ => rfl

theorem nests_tryNull : Nests 1 1 Scan.tryNull :=
  nests_tryWord (passes_of_forall (by simp [nullWord]))

theorem moves_of_expect (h : Scan.expect d c = .ok () c') : Cursor.Moves [d] c c' :=
  (Consumes.expect d c'.rest).moves h (rest_of_expect h)

theorem nests_expect (hd : d ∉ ['"', '\x7b', '[', '\x7d', ']']) : Nests 1 1 (Scan.expect d) :=
  fun _ _ _ h => (passes_char hd).closing_eq (moves_of_expect h)

theorem nests_expect_opening (hopening : d ∈ ['\x7b', '[']) : Nests 1 2 (Scan.expect d) :=
  fun _ _ _ h => closing_of_opening hopening (moves_of_expect h)

theorem nests_readString : Nests 1 1 Scan.readString := by
  intro c text c' h
  obtain ⟨content, hcontent, -, hsplit⟩ := readString_eq_ok h
  exact (passes_string hcontent).closing_eq ((Consumes.readString hcontent c'.rest).moves h hsplit)

/-- An integer consists of characters that a skipped number may have. -/
theorem readInt_moves {n : Int64} (h : Scan.readInt c = .ok n c') :
    ∃ taken, taken ≠ [] ∧ Cursor.Moves taken c c' ∧ (∀ d ∈ taken, d = '-' ∨ d.isDigit = true) ∧
      ∃ d ∈ taken, d.isDigit = true := by
  obtain ⟨taken, hne, hsplit, hparts, hdigit, hend, htaken⟩ := readInt_eq_ok h
  exact ⟨taken, hne, (htaken c'.rest hend).moves h hsplit, hparts, hdigit⟩

theorem isNumberPart_of_integer {taken : List Char}
    (h : ∀ d ∈ taken, d = '-' ∨ d.isDigit = true) : ∀ d ∈ taken, Scan.isNumberPart d = true := by
  intro d hd
  rcases h d hd with rfl | hdigit
  · decide
  · exact Json.isNumberPart_of_isDigit hdigit

theorem nests_readInt : Nests 1 1 Scan.readInt := by
  intro c n c' h
  obtain ⟨taken, -, hmoves, hparts, -⟩ := readInt_moves h
  exact (passes_parts (isNumberPart_of_integer hparts)).closing_eq hmoves

theorem nests_skipNumber : Nests 1 1 Scan.skipNumber := by
  intro c _ c' h
  obtain ⟨taken, -, hsplit, hparts, hstops, htaken⟩ := skipNumber_eq_ok h
  exact (passes_parts hparts).closing_eq ((htaken c'.rest hstops).moves h hsplit)

theorem nests_skipWord : Nests 1 1 Scan.skipWord := by
  intro c _ c' h
  obtain ⟨word, hword, hsplit, htaken⟩ := skipWord_eq_ok h
  have hletters : ∀ word ∈ [nullWord, ['t', 'r', 'u', 'e'], ['f', 'a', 'l', 's', 'e']],
      ∀ d ∈ word, d ∉ ['"', '\x7b', '[', '\x7d', ']'] := by simp [nullWord]
  have hpasses : Passes word := passes_of_forall (hletters word hword)
  exact hpasses.closing_eq ((htaken c'.rest).moves h hsplit)

/-- An object or list is left behind as the scan would leave it. -/
theorem skipNested_eq (hopening : d ∈ ['\x7b', '[']) (hmoves : Cursor.Moves [d] c c') :
    skipNested c = closing 1 c' := by
  obtain ⟨offset, rest⟩ := hmoves
  simp only [List.mem_cons, List.not_mem_nil, or_false] at hopening
  rcases hopening with rfl | rfl <;>
    simp [skipNested, closing, Scan.skipBrackets, Text.utf8Length]

theorem closing_of_skipNested (hopening : d ∈ ['\x7b', '[']) (hpeek : c.peek? = some d)
    (h : skipNested c = .ok () c') (outer : Nat) :
    closing (outer + 1) c = closing (outer + 1) c' := by
  obtain ⟨tail, htail⟩ := List.head?_eq_some_iff.1 hpeek
  have hmoves : Cursor.Moves [d] c (c.after [d] tail) := Cursor.moves_after htail
  rw [skipNested_eq hopening hmoves] at h
  rw [closing_of_opening hopening hmoves]
  exact skipBrackets_add h Nat.zero_lt_one (outer + 1)

theorem nests_skipValue : Nests 1 1 Scan.skipValue := by
  apply nests_skipWhitespace.bind
  intro _ c _ c' h
  obtain ⟨_, _, ⟨⟩, h⟩ := Running.bind_eq_ok_iff.1 h
  cases hpeek : c.peek? with
  | none =>
    rw [hpeek] at h
    cases h
  | some d =>
    have hstep : (if d = '"' then discard Scan.readString
        else if d = '\x7b' ∨ d = '[' then skipNested
        else if d = '-' ∨ d.isDigit then Scan.skipNumber
        else Scan.skipWord) c = .ok () c' := by
      rw [hpeek] at h
      exact h
    split at hstep
    · exact nests_readString.map _ c _ c' hstep
    split at hstep
    · next hopening => exact closing_of_skipNested (by simpa using hopening) hpeek hstep
    · exact nests_skipNumber.ite nests_skipWord c _ c' hstep

end Scan

namespace Direct

section Nesting

variable {read : Shape → Reading Value} {properties : List Property}

theorem nests_readChild {shape : Shape} (hread : Nests 1 1 (read shape)) :
    Nests 1 1 (readChild read shape) := by
  apply nests_skipWhitespace.lift.bind
  intro _
  cases shape with
  | int => exact nests_tryNull.lift.bind fun _ => .ite (nests_pure _) (nests_readInt.lift.map _)
  | string =>
    exact nests_tryNull.lift.bind fun _ => .ite (nests_pure _) (nests_readString.lift.map _)
  | _ => exact hread

theorem nests_readMember (hread : ∀ shape, Nests 1 1 (read shape)) (slots : List Value) :
    Nests 1 1 (readMember read properties slots) := by
  apply nests_readString.lift.bind
  intro name
  apply nests_skipWhitespace.lift.bind
  intro _
  apply (nests_expect (by decide)).lift.bind
  intro _
  cases properties.zipIdx.find? fun entry => entry.1.name = name with
  | some entry => exact (nests_readChild (hread _)).map _
  | none => exact nests_skipValue.lift.bind fun _ => nests_pure slots

/-- A loop ends with the bracket that closes it. -/
theorem nests_round {α β : Type} {close : Char} {finish : α} {entry : Reading β}
    {next : β → Reading α} (hclose : close ∈ ['\x7d', ']']) (hentry : Nests 1 1 entry)
    (hnext : ∀ x, Nests 1 0 (next x)) : Nests 1 0 (round close finish entry next) := by
  apply nests_skipWhitespace.lift.bind
  intro _
  apply nests_get
  intro _
  apply Nests.ite (nests_fail _).lift
  intro c a c' h
  obtain ⟨closed, mid, hclosed, hround⟩ := Running.bind_eq_ok_iff.1 h
  rcases tryChar_eq_ok (eq_ok_of_lift hclosed) with ⟨rfl, hsplit⟩ | ⟨rfl, rfl, -⟩
  · cases hround
    exact closing_of_close hclose
      ((Consumes.tryChar close c'.rest).moves (eq_ok_of_lift hclosed) hsplit)
  · have hcomma : Nests 1 1 (Scan.tryChar ',') := nests_tryWord (passes_char (by decide))
    have hbehind (x : β) : Nests 1 0 (do
        Scan.skipWhitespace
        discard (Scan.tryChar ',')
        next x : Reading α) :=
      nests_skipWhitespace.lift.bind fun _ => (hcomma.lift.map _).bind fun _ => hnext x
    exact hentry.bind hbehind mid a c' hround

theorem nests_readMembers (hread : ∀ shape, Nests 1 1 (read shape)) (bound : Nat)
    (slots : List Value) : Nests 1 0 (readMembers read properties bound slots) := by
  induction bound generalizing slots with
  | zero => exact (nests_fail _).lift
  | succ bound ih => exact nests_round (by decide) (nests_readMember hread slots) ih

theorem nests_readItems (hread : ∀ shape, Nests 1 1 (read shape)) (element : Shape) (bound : Nat) :
    Nests 1 0 (readItems read element bound) := by
  induction bound with
  | zero => exact (nests_fail _).lift
  | succ bound ih =>
    exact nests_round (by decide) (nests_readChild (hread element)) fun _ => ih.map _

theorem nests_readValue (s : Schema) (hread : ∀ shape, Nests 1 1 (read shape)) (shape : Shape) :
    Nests 1 1 (readValue s read shape) := by
  cases shape with
  | object name nullable =>
    refine nests_tryNull.lift.bind fun _ => .ite (nests_pure _) ?_
    refine (nests_expect_opening (by decide)).lift.bind fun _ => nests_get fun start => ?_
    exact (nests_readMembers hread start.rest.length _).inside.map _
  | list element nullable =>
    refine nests_tryNull.lift.bind fun _ => .ite (nests_pure _) ?_
    refine (nests_expect_opening (by decide)).lift.bind fun _ => nests_get fun start => ?_
    exact (nests_readItems hread element start.rest.length).inside.map _
  | int => exact nests_readChild (hread .int)
  | string => exact nests_readChild (hread .string)
  | unsupported text => exact nests_readChild (hread (.unsupported text))

/-- What is read has its brackets closed. -/
theorem nests_read (s : Schema) (levels : Nat) (shape : Shape) :
    Nests 1 1 (Direct.read s levels shape) := by
  have hskipped : Nests 1 1 (do Scan.skipValue; pure .null : Reading Value) :=
    nests_skipValue.lift.bind fun _ => nests_pure Value.null
  induction levels generalizing shape with
  | zero =>
    unfold Direct.read
    exact .ite hskipped (nests_skipWhitespace.lift.bind fun _ => (nests_fail _).lift)
  | succ levels ih =>
    unfold Direct.read
    exact .ite hskipped (nests_skipWhitespace.lift.bind fun _ => nests_readValue s ih shape)

end Nesting

section Same

variable {s : Schema} {shape : Shape} {levels : Nat} {c c' mid : Cursor} {v : Value} {d : Char}

theorem skipValue_of_null (h : Cursor.Moves nullWord c c') : Scan.skipValue c = .ok () c' := by
  have hskip : Consumes Scan.skipValue ([] ++ nullWord) c'.rest () :=
    skipValue_of_head Json.blank_nil rfl (skipWord_null c'.rest)
  exact hskip.eq_ok h

theorem skipValue_of_readString {text : String} (h : Scan.readString c = .ok text c') :
    Scan.skipValue c = .ok () c' := by
  obtain ⟨content, hcontent, -, hsplit⟩ := readString_eq_ok h
  have hstring := Consumes.readString hcontent c'.rest
  have hskip : Consumes Scan.skipValue ([] ++ ('"' :: content ++ ['"'])) c'.rest () :=
    skipValue_of_head Json.blank_nil rfl hstring.discard
  exact hskip.eq_ok (hstring.moves h hsplit)

theorem skipValue_of_readInt {n : Int64} (h : Scan.readInt c = .ok n c')
    (hstops : Json.Number.Stops c'.rest) : Scan.skipValue c = .ok () c' := by
  obtain ⟨taken, hne, hmoves, hparts, hdigit⟩ := readInt_moves h
  obtain ⟨d, tail, rfl⟩ := List.exists_cons_of_ne_nil hne
  have hnumeral : Json.IsNumeral (d :: tail) :=
    ⟨⟨d, tail, rfl, hparts d List.mem_cons_self⟩, hdigit, isNumberPart_of_integer hparts⟩
  exact (skipValue_of_numeral hnumeral Json.blank_nil hstops).eq_ok hmoves

/-- Behind an opening bracket only the brackets count. -/
theorem skipValue_of_opening (hopening : d ∈ ['\x7b', '[']) (hmoves : Cursor.Moves [d] c mid)
    (h : closing 1 mid = .ok () c') : Scan.skipValue c = .ok () c' := by
  have hnested : skipNested c = .ok () c' := (skipNested_eq hopening hmoves).trans h
  cases hmoves with
  | past offset rest =>
    have hdispatch : Text.isSpace d = false ∧ d ≠ '"' ∧ (d = '\x7b' ∨ d = '[') := by
      simp only [List.mem_cons, List.not_mem_nil, or_false] at hopening
      rcases hopening with rfl | rfl <;> decide
    have hskip := skipValue_apply Json.blank_nil hdispatch.1 offset rest
    rw [if_neg hdispatch.2.1, if_pos hdispatch.2.2] at hskip
    exact hskip.trans hnested

theorem orNull_cases {α : Type} {onNull a : α} {other : Reading α}
    (h : (do if ← Scan.tryNull then pure onNull else other : Reading α) c = .ok a c') :
    Cursor.Moves nullWord c c' ∨ other c = .ok a c' := by
  obtain ⟨null, mid, hnull, hrun⟩ := Running.bind_eq_ok_iff.1 h
  rcases tryWord_eq_ok (eq_ok_of_lift hnull) with ⟨rfl, hsplit⟩ | ⟨rfl, rfl, -⟩
  · cases hrun
    exact .inl ((Consumes.tryWord nullWord c'.rest).moves (eq_ok_of_lift hnull) hsplit)
  · exact .inr hrun

/-- Between its brackets a loop ends where the scan does. -/
theorem skipValue_of_bracketed {α : Type} {loop : Nat → Reading α} {g : α → Value}
    (hopening : d ∈ ['\x7b', '[']) (hloop : ∀ bound, Nests 1 0 (loop bound))
    (h : (do
      Scan.expect d
      let start ← get
      g <$> loop start.rest.length : Reading Value) c = .ok v c') :
    Scan.skipValue c = .ok () c' := by
  obtain ⟨_, mid, hopen, h⟩ := Running.bind_eq_ok_iff.1 h
  obtain ⟨start, _, ⟨⟩, h⟩ := Running.bind_eq_ok_iff.1 h
  obtain ⟨a, hrun, -⟩ := Running.map_eq_ok_iff.1 h
  apply skipValue_of_opening hopening (moves_of_expect (eq_ok_of_lift hopen))
  exact hloop _ mid a c' hrun 0

/-- A scalar is read in place, whatever other shapes are read by. -/
theorem skipValue_of_scalar (read : Shape → Reading Value)
    (hscalar : shape = .string ∨ shape = .int ∧ Json.Number.Stops c'.rest)
    (h : readChild read shape c = .ok v c') : Scan.skipValue c = .ok () c' := by
  obtain ⟨_, mid, hspace, h⟩ := Running.bind_eq_ok_iff.1 h
  cases eq_ok_of_lift hspace
  rw [← skipValue_skipWhile]
  rcases hscalar with rfl | ⟨rfl, hstops⟩
  · rcases orNull_cases h with hnull | hstring
    · exact skipValue_of_null hnull
    · obtain ⟨text, hrun, -⟩ := Running.map_eq_ok_iff.1 hstring
      exact skipValue_of_readString (eq_ok_of_lift hrun)
  · rcases orNull_cases h with hnull | hint
    · exact skipValue_of_null hnull
    · obtain ⟨n, hrun, -⟩ := Running.map_eq_ok_iff.1 hint
      exact skipValue_of_readInt (eq_ok_of_lift hrun) hstops

/-- What is read can be skipped, and both end at the same place. Skipping goes on over characters
that an integer cannot have but another number can. -/
theorem skipValue_of_read (hstops : shape = .int → Json.Number.Stops c'.rest)
    (h : Direct.read s levels shape c = .ok v c') : Scan.skipValue c = .ok () c' := by
  cases hfault : s.routineFault? .deserialize shape with
  | some e =>
    rw [read_of_fault hfault] at h
    exact (readInert_eq_ok_iff.1 h).2
  | none =>
    unfold Direct.read at h
    simp only [hfault, Option.isSome_none, Bool.false_eq_true, if_false] at h
    cases levels with
    | zero =>
      obtain ⟨_, mid, -, h⟩ := Running.bind_eq_ok_iff.1 h
      cases h
    | succ levels =>
      obtain ⟨_, mid, hspace, h⟩ := Running.bind_eq_ok_iff.1 h
      cases eq_ok_of_lift hspace
      rw [← skipValue_skipWhile]
      have hread := nests_read s levels
      cases shape with
      | object name nullable =>
        rcases orNull_cases h with hnull | hobject
        · exact skipValue_of_null hnull
        · exact skipValue_of_bracketed (by decide)
            (fun bound => nests_readMembers hread bound _) hobject
      | list element nullable =>
        rcases orNull_cases h with hnull | hlist
        · exact skipValue_of_null hnull
        · exact skipValue_of_bracketed (by decide)
            (fun bound => nests_readItems hread element bound) hlist
      | int => exact skipValue_of_scalar (Direct.read s levels) (.inr ⟨rfl, hstops rfl⟩) h
      | string => exact skipValue_of_scalar (Direct.read s levels) (.inl rfl) h
      | unsupported text => cases hfault

theorem skipValue_of_readChild (hstops : shape = .int → Json.Number.Stops c'.rest)
    (h : readChild (Direct.read s levels) shape c = .ok v c') : Scan.skipValue c = .ok () c' := by
  have hcall (hread : Direct.read s levels shape (c.skipWhile Text.isSpace) = .ok v c') :
      Scan.skipValue c = .ok () c' := by
    rw [← skipValue_skipWhile]
    exact skipValue_of_read hstops hread
  cases shape with
  | int => exact skipValue_of_scalar _ (.inr ⟨rfl, hstops rfl⟩) h
  | string => exact skipValue_of_scalar _ (.inl rfl) h
  | _ =>
    obtain ⟨_, mid, hspace, h⟩ := Running.bind_eq_ok_iff.1 h
    cases eq_ok_of_lift hspace
    exact hcall h

end Same

end Direct

end ShapeCodec
