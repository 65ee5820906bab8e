import Mathlib.Data.List.DropRight
import ShapeCodec.Proofs.Skipping
/-! How far steps look ahead. What a step does depends on the text that it takes and on the next
character at most: an integer ends where no digit follows, while strings, words and all that stands
in brackets end by themselves. A step that has succeeded on one text therefore succeeds on any other
that begins with what it took, and that goes on alike unless the step ends by itself. -/
namespace ShapeCodec

/-- After a success, the step does the same in front of any text that begins like what was left. -/
def Peeks {ε α : Type} (x : EStateM ε Cursor α) : Prop :=
  ∀ c a c', x c = .ok a c' → ∃ taken, c.rest = taken ++ c'.rest ∧
    ∀ rest, rest.head? = c'.rest.head? → Consumes x taken rest a

/-- It also takes something. -/
def Lexes {ε α : Type} (x : EStateM ε Cursor α) : Prop :=
  ∀ c a c', x c = .ok a c' → ∃ taken, taken ≠ [] ∧ c.rest = taken ++ c'.rest ∧
    ∀ rest, rest.head? = c'.rest.head? → Consumes x taken rest a

/-- It takes something and ends by itself: after a success, it does the same before any text. -/
def Delimits {ε α : Type} (x : EStateM ε Cursor α) : Prop :=
  ∀ c a c', x c = .ok a c' → ∃ taken, taken ≠ [] ∧ c.rest = taken ++ c'.rest ∧
    ∀ rest, Consumes x taken rest a

section Step

variable {ε α β : Type} {x : EStateM ε Cursor α} {f : α → EStateM ε Cursor β} {a : α} {b : β}
  {c c' : Cursor}

theorem head?_append_congr {taken a b : List Char} (h : a.head? = b.head?) :
    (taken ++ a).head? = (taken ++ b).head? := by
  rw [List.head?_append, List.head?_append, h]

theorem head?_append_of_ne_nil {taken : List Char} (hne : taken ≠ []) (a b : List Char) :
    (taken ++ a).head? = (taken ++ b).head? := by
  obtain ⟨d, tail, rfl⟩ := List.exists_cons_of_ne_nil hne
  rfl

theorem Delimits.lexes (h : Delimits x) : Lexes x := by
  intro c a c' hrun
  obtain ⟨taken, hne, hsplit, htaken⟩ := h c a c' hrun
  exact ⟨taken, hne, hsplit, fun rest _ => htaken rest⟩

theorem Lexes.peeks (h : Lexes x) : Peeks x := by
  intro c a c' hrun
  obtain ⟨taken, -, hsplit, htaken⟩ := h c a c' hrun
  exact ⟨taken, hsplit, htaken⟩

theorem Peeks.length_le (hx : Peeks x) (h : x c = .ok a c') : c'.rest.length ≤ c.rest.length := by
  obtain ⟨taken, hsplit, -⟩ := hx c a c' h
  rw [hsplit, List.length_append]
  exact Nat.le_add_left _ _

theorem Lexes.length_lt (hx : Lexes x) (h : x c = .ok a c') : c'.rest.length < c.rest.length := by
  obtain ⟨taken, hne, hsplit, -⟩ := hx c a c' h
  rw [hsplit, List.length_append]
  exact Nat.lt_add_of_pos_left (List.length_pos_of_ne_nil hne)

theorem peeks_pure (a : α) : Peeks (pure a : EStateM ε Cursor α) := by
  rintro c _ _ ⟨⟩
  exact ⟨[], rfl, fun rest _ => .nothing a rest⟩

/-- A first step can be taken off a run, and put in front of whatever goes on from there. -/
theorem Peeks.peel (hx : Peeks x) (h : (x >>= f) c = .ok b c') :
    ∃ a mid taken, f a mid = .ok b c' ∧ c.rest = taken ++ mid.rest ∧
      ∀ (g : α → EStateM ε Cursor β) inner rest, (inner ++ rest).head? = mid.rest.head? →
        Consumes (g a) inner rest b → Consumes (x >>= g) (taken ++ inner) rest b := by
  obtain ⟨a, mid, hrun, hnext⟩ := Running.bind_eq_ok_iff.1 h
  obtain ⟨taken, hsplit, htaken⟩ := hx c a mid hrun
  refine ⟨a, mid, taken, hnext, hsplit, ?_⟩
  intro g inner rest hhead hinner
  exact (htaken _ hhead).seq hinner

theorem Lexes.peel (hx : Lexes x) (h : (x >>= f) c = .ok b c') :
    ∃ a mid taken, f a mid = .ok b c' ∧ taken ≠ [] ∧ c.rest = taken ++ mid.rest ∧
      ∀ (g : α → EStateM ε Cursor β) inner rest, (inner ++ rest).head? = mid.rest.head? →
        Consumes (g a) inner rest b → Consumes (x >>= g) (taken ++ inner) rest b := by
  obtain ⟨a, mid, hrun, hnext⟩ := Running.bind_eq_ok_iff.1 h
  obtain ⟨taken, hne, hsplit, htaken⟩ := hx c a mid hrun
  refine ⟨a, mid, taken, hnext, hne, hsplit, ?_⟩
  intro g inner rest hhead hinner
  exact (htaken _ hhead).seq hinner

theorem Peeks.bind_lexes (hx : Peeks x) (hf : ∀ a, Lexes (f a)) : Lexes (x >>= f) := by
  intro c b c' h
  obtain ⟨a, mid, taken, hnext, hsplit, hfront⟩ := hx.peel h
  obtain ⟨inner, hne, hmid, hinner⟩ := hf a mid b c' hnext
  refine ⟨taken ++ inner, by simp [hne], by rw [hsplit, hmid, List.append_assoc], ?_⟩
  intro rest hrest
  apply hfront f inner rest _ (hinner rest hrest)
  rw [hmid]
  exact head?_append_congr hrest

theorem Peeks.bind_delimits (hx : Peeks x) (hf : ∀ a, Delimits (f a)) : Delimits (x >>= f) := by
  intro c b c' h
  obtain ⟨a, mid, taken, hnext, hsplit, hfront⟩ := hx.peel h
  obtain ⟨inner, hne, hmid, hinner⟩ := hf a mid b c' hnext
  refine ⟨taken ++ inner, by simp [hne], by rw [hsplit, hmid, List.append_assoc], ?_⟩
  intro rest
  -- what follows begins with what the second step takes, whatever stands behind that
  apply hfront f inner rest _ (hinner rest)
  rw [hmid]
  exact head?_append_of_ne_nil hne rest c'.rest

theorem Lexes.bind_peeks (hx : Lexes x) (hf : ∀ a, Peeks (f a)) : Lexes (x >>= f) := by
  intro c b c' h
  obtain ⟨a, mid, taken, hnext, hne, hsplit, hfront⟩ := hx.peel h
  obtain ⟨inner, hmid, hinner⟩ := hf a mid b c' hnext
  refine ⟨taken ++ inner, by simp [hne], by rw [hsplit, hmid, List.append_assoc], ?_⟩
  intro rest hrest
  apply hfront f inner rest _ (hinner rest hrest)
  rw [hmid]
  exact head?_append_congr hrest

theorem Lexes.map (hx : Lexes x) (g : α → β) : Lexes (g <$> x) := by
  intro c b c' h
  obtain ⟨a, hrun, rfl⟩ := Running.map_eq_ok_iff.1 h
  obtain ⟨taken, hne, hsplit, htaken⟩ := hx c a c' hrun
  exact ⟨taken, hne, hsplit, fun rest hrest => (htaken rest hrest).map⟩

theorem Peeks.map (hx : Peeks x) (g : α → β) : Peeks (g <$> x) := by
  intro c b c' h
  obtain ⟨a, hrun, rfl⟩ := Running.map_eq_ok_iff.1 h
  obtain ⟨taken, hsplit, htaken⟩ := hx c a c' hrun
  exact ⟨taken, hsplit, fun rest hrest => (htaken rest hrest).map⟩

theorem Delimits.map (hx : Delimits x) (g : α → β) : Delimits (g <$> x) := by
  intro c b c' h
  obtain ⟨a, hrun, rfl⟩ := Running.map_eq_ok_iff.1 h
  obtain ⟨taken, hne, hsplit, htaken⟩ := hx c a c' hrun
  exact ⟨taken, hne, hsplit, fun rest => (htaken rest).map⟩

theorem Lexes.ite {p : Prop} [Decidable p] {y : EStateM ε Cursor α} (hx : Lexes x) (hy : Lexes y) :
    Lexes (if p then x else y) := by
  split
  · exact hx
  · exact hy

/-- A look at the next character alone sees the same wherever the text is taken. -/
theorem get_consumes {f : Cursor → EStateM ε Cursor α} {taken left rest : List Char} {a : α}
    (hpeek : ∀ c c' : Cursor, c.peek? = c'.peek? → f c = f c') (hne : taken ≠ [])
    (hsplit : c.rest = taken ++ left) (h : Consumes (f c) taken rest a) :
    Consumes (get >>= f) taken rest a := by
  refine Consumes.get_bind fun other hother => ?_
  have hsame : other.peek? = c.peek? := by
    rw [Cursor.peek?, Cursor.peek?, hother, hsplit]
    exact head?_append_of_ne_nil hne rest left
  rwa [hpeek other c hsame]

theorem lexes_get {f : Cursor → EStateM ε Cursor α}
    (hpeek : ∀ c c' : Cursor, c.peek? = c'.peek? → f c = f c') (hf : ∀ c, Lexes (f c)) :
    Lexes (get >>= f) := by
  intro c a c' hrun
  obtain ⟨taken, hne, hsplit, htaken⟩ := hf c c a c' hrun
  refine ⟨taken, hne, hsplit, fun rest hrest => ?_⟩
  exact get_consumes hpeek hne hsplit (htaken rest hrest)

end Step

section Lift

variable {α : Type} {x : Scan α}

theorem Peeks.lift (hx : Peeks x) : Peeks (liftM x : Reading α) := by
  intro c a c' h
  obtain ⟨taken, hsplit, htaken⟩ := hx c a c' (eq_ok_of_lift h)
  exact ⟨taken, hsplit, fun rest hrest => (htaken rest hrest).lift⟩

theorem Lexes.lift (hx : Lexes x) : Lexes (liftM x : Reading α) := by
  intro c a c' h
  obtain ⟨taken, hne, hsplit, htaken⟩ := hx c a c' (eq_ok_of_lift h)
  exact ⟨taken, hne, hsplit, fun rest hrest => (htaken rest hrest).lift⟩

theorem Delimits.lift (hx : Delimits x) : Delimits (liftM x : Reading α) := by
  intro c a c' h
  obtain ⟨taken, hne, hsplit, htaken⟩ := hx c a c' (eq_ok_of_lift h)
  exact ⟨taken, hne, hsplit, fun rest => (htaken rest).lift⟩

end Lift

section Scan

variable {c c' : Cursor} {d : Char}

theorem delimits_fail {α : Type} (expected : Expected) :
    Delimits (Scan.fail expected : Scan α) := by
  rintro c a c' ⟨⟩

/-- A run of characters ends with the first that does not belong to it. -/
theorem head?_dropWhile_false (p : Char → Bool) (text : List Char) :
    ∀ d ∈ (text.dropWhile p).head?, p d = false := by
  intro d hd
  have hdrop := List.head?_dropWhile_not p text
  rw [Option.mem_def.1 hd] at hdrop
  simpa using hdrop

theorem Cursor.skipWhile_skipWhile (p : Char → Bool) (c : Cursor) :
    (c.skipWhile p).skipWhile p = c.skipWhile p := by
  have hnone : (c.rest.dropWhile p).takeWhile p = [] := by
    cases hrest : c.rest.dropWhile p with
    | nil => rfl
    | cons d rest =>
      have hd : p d = false := head?_dropWhile_false p c.rest d (by rw [hrest]; rfl)
      rw [List.takeWhile_cons_of_neg (by simp [hd])]
  simp [skipWhile, after, hnone, List.dropWhile_idempotent, Text.utf8Length]

/-- Skipping a value begins with the whitespace in front of it. -/
theorem skipValue_skipWhile (c : Cursor) :
    Scan.skipValue (c.skipWhile Text.isSpace) = Scan.skipValue c := by
  simp only [Scan.skipValue, Running.bind_apply, Consumes.skipWhitespace_apply,
    Cursor.skipWhile_skipWhile]

theorem peeks_skipWhitespace : Peeks Scan.skipWhitespace := by
  rintro c _ _ ⟨⟩
  refine ⟨c.rest.takeWhile Text.isSpace, List.takeWhile_append_dropWhile.symm, ?_⟩
  intro rest hrest
  apply Consumes.skipWhitespace (List.all_eq_true.1 List.all_takeWhile)
  rw [hrest]
  exact head?_dropWhile_false _ _

/-- A word is stepped over, or the cursor stays where it is. -/
theorem tryWord_eq_ok {word : List Char} {found : Bool} (h : Scan.tryWord word c = .ok found c') :
    found = true ∧ c.rest = word ++ c'.rest ∨ found = false ∧ c' = c ∧ ¬ word <+: c.rest := by
  simp only [Scan.tryWord] at h
  split at h
  · next hbegins =>
    cases h
    obtain ⟨tail, htail⟩ := List.isPrefixOf_iff_prefix.1 hbegins
    exact .inl ⟨rfl, by simp [Cursor.after, ← htail]⟩
  · next hbegins =>
    cases h
    exact .inr ⟨rfl, rfl, fun h => hbegins (List.isPrefixOf_iff_prefix.2 h)⟩

theorem tryChar_eq_ok {found : Bool} (h : Scan.tryChar d c = .ok found c') :
    found = true ∧ c.rest = d :: c'.rest ∨
      found = false ∧ c' = c ∧ ∀ e ∈ c.rest.head?, e ≠ d := by
  rcases tryWord_eq_ok h with hfound | ⟨hfound, hsame, hbegins⟩
  · exact .inl hfound
  · refine .inr ⟨hfound, hsame, ?_⟩
    rintro e he rfl
    obtain ⟨tail, htail⟩ := List.head?_eq_some_iff.1 (Option.mem_def.1 he)
    exact hbegins ⟨tail, htail.symm⟩

theorem peeks_tryChar (d : Char) : Peeks (Scan.tryChar d) := by
  intro c found c' h
  rcases tryChar_eq_ok h with ⟨rfl, hsplit⟩ | ⟨rfl, rfl, hmiss⟩
  · exact ⟨[d], hsplit, fun rest _ => Consumes.tryChar d rest⟩
  · exact ⟨[], rfl, fun rest hrest => Consumes.tryChar_miss (hrest ▸ hmiss)⟩

theorem rest_of_expect (h : Scan.expect d c = .ok () c') : c.rest = d :: c'.rest := by
  obtain ⟨found, mid, hfound, h⟩ := Running.bind_eq_ok_iff.1 h
  rcases tryChar_eq_ok hfound with ⟨rfl, hsplit⟩ | ⟨rfl, -, -⟩
  · cases h
    exact hsplit
  · cases h

theorem delimits_expect (d : Char) : Delimits (Scan.expect d) := by
  rintro c ⟨⟩ c' h
  exact ⟨[d], by simp, rest_of_expect h, Consumes.expect d⟩

/-- A string is what stands between two quotes. -/
theorem readString_eq_ok {text : String} (h : Scan.readString c = .ok text c') :
    ∃ content, '"' ∉ content ∧ text = String.ofList content ∧
      c.rest = '"' :: content ++ ['"'] ++ c'.rest := by
  obtain ⟨_, mid, hopen, h⟩ := Running.bind_eq_ok_iff.1 h
  have hrest := rest_of_expect hopen
  simp only [Scan.readContent] at h
  split at h
  · cases h
  · next quote rest hdrop =>
    cases h
    have hquote : quote = '"' := by
      have hhead := head?_dropWhile_false (fun d => decide (d ≠ '"')) mid.rest quote
      rw [hdrop] at hhead
      simpa using hhead rfl
    subst hquote
    refine ⟨mid.rest.takeWhile fun d => decide (d ≠ '"'), ?_, rfl, ?_⟩
    · intro hmem
      simpa using List.all_eq_true.1 List.all_takeWhile _ hmem
    · rw [hrest, List.cons_append, List.cons_append, List.append_assoc]
      exact congrArg _ ((List.takeWhile_append_dropWhile).symm.trans (by rw [hdrop]; rfl))

theorem delimits_readString : Delimits Scan.readString := by
  intro c text c' h
  obtain ⟨content, hcontent, rfl, hrest⟩ := readString_eq_ok h
  exact ⟨_, by simp, hrest, Consumes.readString hcontent⟩

/-- Digits that were read are read again wherever they stand, with the same number as the result. -/
theorem readDigits_eq_ok {start : Nat} {negative : Bool} {n m : Int} {offset : Nat}
    {text : List Char} (h : Scan.readDigits start negative n offset text = .ok m c') :
    ∃ run, text = run ++ c'.rest ∧ (∀ d ∈ run, d.isDigit = true) ∧
      (∀ d ∈ c'.rest.head?, d.isDigit = false) ∧ c'.offset = offset + run.length ∧
      ∀ start offset rest, (∀ d ∈ rest.head?, d.isDigit = false) →
        Scan.readDigits start negative n offset (run ++ rest) =
          .ok m ⟨offset + run.length, rest⟩ := by
  have hstop {n : Int} {text : List Char} (hend : ∀ d ∈ text.head?, d.isDigit = false)
      (start offset : Nat) :
      Scan.readDigits start negative n offset text = .ok n ⟨offset, text⟩ := by
    cases text with
    | nil => rfl
    | cons d text => simp [Scan.readDigits, hend d rfl]
  induction text generalizing n offset with
  | nil =>
    cases h
    exact ⟨[], rfl, by simp, by simp, rfl, fun start offset rest hrest => hstop hrest start offset⟩
  | cons d text ih =>
    by_cases hdigit : d.isDigit = true
    · obtain ⟨next, hstep⟩ : ∃ next, ∀ start offset text,
          Scan.readDigits start negative n offset (d :: text) =
            if Scan.inRange next then Scan.readDigits start negative next (offset + 1) text
            else .error ⟨start, .integerInRange⟩ ⟨offset, d :: text⟩ :=
        ⟨_, fun start offset text => by rw [Scan.readDigits, if_pos hdigit]⟩
      rw [hstep] at h
      split at h
      · next hrange =>
        obtain ⟨run, htext, hrun, hend, hoffset, hread⟩ := ih h
        refine ⟨d :: run, by rw [htext]; rfl, List.forall_mem_cons.2 ⟨hdigit, hrun⟩, hend, ?_, ?_⟩
        · rw [hoffset, List.length_cons]
          omega
        · intro start offset rest hrest
          rw [List.cons_append, hstep, if_pos hrange, hread start (offset + 1) rest hrest,
            List.length_cons, Nat.add_assoc, Nat.add_comm 1]
      · cases h
    · have hend : ∀ e ∈ (d :: text).head?, e.isDigit = false := by simpa using hdigit
      rw [hstop hend] at h
      cases h
      exact ⟨[], rfl, by simp, hend, rfl, fun start offset rest hrest => hstop hrest start offset⟩

/-- An integer consists of digits behind an optional sign, and ends where no digit follows. -/
theorem readInt_eq_ok {n : Int64} (h : Scan.readInt c = .ok n c') :
    ∃ taken, taken ≠ [] ∧ c.rest = taken ++ c'.rest ∧
      (∀ d ∈ taken, d = '-' ∨ d.isDigit = true) ∧ (∃ d ∈ taken, d.isDigit = true) ∧
      (∀ d ∈ c'.rest.head?, d.isDigit = false) ∧
      ∀ rest, (∀ d ∈ rest.head?, d.isDigit = false) → Consumes Scan.readInt taken rest n := by
  obtain ⟨start, _, ⟨⟩, h⟩ := Running.bind_eq_ok_iff.1 h
  obtain ⟨negative, mid, hminus, h⟩ := Running.bind_eq_ok_iff.1 h
  obtain ⟨first, _, ⟨⟩, h⟩ := Running.bind_eq_ok_iff.1 h
  obtain ⟨m, last, hdigits, h⟩ := Running.bind_eq_ok_iff.1 h
  obtain ⟨_, _, ⟨⟩, h⟩ := Running.bind_eq_ok_iff.1 h
  obtain ⟨run, hmid, hrun, hend, hoffset, hread⟩ := readDigits_eq_ok hdigits
  split at h
  · cases h
  next hmoved =>
  cases h
  have hne : run ≠ [] := by
    rintro rfl
    exact hmoved (by simpa using hoffset)
  obtain ⟨digit, hmem⟩ := List.exists_mem_of_ne_nil run hne
  have hinteger {sign rest : List Char} (hrest : ∀ d ∈ rest.head?, d.isDigit = false)
      (hsign : Consumes (Scan.tryChar '-') sign (run ++ rest) negative) :
      Consumes Scan.readInt (sign ++ run) rest (Int64.ofInt m) := by
    apply Consumes.readInt_of_digits hsign hrun hne
    intro start offset
    exact hread start offset rest hrest
  rcases tryChar_eq_ok hminus with ⟨rfl, hsplit⟩ | ⟨rfl, hsame, hmiss⟩
  · refine ⟨'-' :: run, by simp, by rw [hsplit, hmid]; rfl, ?_, ?_, hend, fun rest hrest => ?_⟩
    · exact List.forall_mem_cons.2 ⟨.inl rfl, fun d hd => .inr (hrun d hd)⟩
    · exact ⟨digit, List.mem_cons_of_mem '-' hmem, hrun digit hmem⟩
    · exact hinteger hrest (Consumes.tryChar '-' (run ++ rest))
  · rw [← hsame, hmid] at hmiss ⊢
    refine ⟨run, hne, rfl, fun d hd => .inr (hrun d hd), ⟨digit, hmem, hrun digit hmem⟩, hend, ?_⟩
    intro rest hrest
    have hsign : Consumes (Scan.tryChar '-') [] (run ++ rest) false := by
      apply Consumes.tryChar_miss
      rwa [head?_append_of_ne_nil hne rest c'.rest]
    exact hinteger hrest hsign

theorem lexes_readInt : Lexes Scan.readInt := by
  intro c n c' h
  obtain ⟨taken, hne, hsplit, -, -, hend, htaken⟩ := readInt_eq_ok h
  exact ⟨taken, hne, hsplit, fun rest hrest => htaken rest (hrest ▸ hend)⟩

/-- A number that is skipped ends where nothing follows that numbers consist of. -/
theorem skipNumber_eq_ok (h : Scan.skipNumber c = .ok () c') :
    ∃ taken, taken ≠ [] ∧ c.rest = taken ++ c'.rest ∧
      (∀ d ∈ taken, Scan.isNumberPart d = true) ∧ Json.Number.Stops c'.rest ∧
      ∀ rest, Json.Number.Stops rest → Consumes Scan.skipNumber taken rest () := by
  simp only [Scan.skipNumber] at h
  split at h
  · next hdigit =>
    cases h
    have hparts := List.all_eq_true.1 (List.all_takeWhile (p := Scan.isNumberPart) (l := c.rest))
    refine ⟨c.rest.takeWhile Scan.isNumberPart, ?_, List.takeWhile_append_dropWhile.symm, hparts,
      head?_dropWhile_false _ _, fun rest hrest => skipNumber_of_parts hparts hdigit hrest⟩
    intro hnil
    simp [hnil] at hdigit
  · cases h

theorem lexes_skipNumber : Lexes Scan.skipNumber := by
  rintro c ⟨⟩ c' h
  obtain ⟨taken, hne, hsplit, -, hstops, htaken⟩ := skipNumber_eq_ok h
  refine ⟨taken, hne, hsplit, fun rest hrest => htaken rest ?_⟩
  rwa [Json.Number.Stops, hrest]

/-- The text ends with the bracket that closes the outermost one, for a scan with `depth` brackets
open, wherever it stands and whatever comes behind. Inside a string it does not matter where that
began. -/
def Closes (depth : Nat) (quoted : Bool) (text : List Char) : Prop :=
  ∀ (opened : Option Cursor) offset rest, opened.isSome = quoted →
    Scan.skipBrackets depth opened offset (text ++ rest) =
      .ok () ⟨offset + Text.utf8Length text, rest⟩

section Closes

variable {depth : Nat} {d : Char} {text : List Char}

theorem Closes.ne_nil {quoted : Bool} (h : Closes depth quoted text) : text ≠ [] := by
  rintro rfl
  cases quoted with
  | true => cases h (some ⟨0, []⟩) 0 [] rfl
  | false => cases h none 0 [] rfl

theorem Closes.quoted {start : Cursor}
    (h : Closes depth (if d = '"' then none else some start).isSome text) :
    Closes depth true (d :: text) := by
  rintro (_ | start') offset rest hopened
  · cases hopened
  have hsome : (if d = '"' then none else some start').isSome =
      (if d = '"' then none else some start).isSome := by split <;> rfl
  rw [List.cons_append, Scan.skipBrackets, h _ _ rest hsome, Text.utf8Length, Nat.add_assoc]

/-- Outside a string a character leads to a scan from behind it. -/
theorem Closes.step {deeper : Nat} {quoted : Bool} (h : Closes deeper quoted text)
    (hstep : ∀ offset rest, ∃ opened : Option Cursor, opened.isSome = quoted ∧
      Scan.skipBrackets depth none offset (d :: rest) =
        Scan.skipBrackets deeper opened (offset + d.utf8Size) rest) :
    Closes depth false (d :: text) := by
  rintro (_ | start) offset rest hopened
  · obtain ⟨opened, hsome, heq⟩ := hstep offset (text ++ rest)
    rw [List.cons_append, heq, h opened _ rest hsome, Text.utf8Length, Nat.add_assoc]
  · cases hopened

theorem closes_last (hquote : d ≠ '"') (hopen : ¬ (d = '\x7b' ∨ d = '['))
    (hclose : d = '\x7d' ∨ d = ']') (hlast : depth ≤ 1) : Closes depth false [d] := by
  rintro (_ | start) offset rest hopened
  · simp [Scan.skipBrackets, hquote, hopen, hclose, hlast, Text.utf8Length]
  · cases hopened

end Closes

/-- Scanning for the closing bracket takes a text that ends with it. -/
theorem skipBrackets_eq_ok {depth : Nat} {opened : Option Cursor} {offset : Nat} {text : List Char}
    (h : Scan.skipBrackets depth opened offset text = .ok () c') :
    ∃ taken, text = taken ++ c'.rest ∧ Closes depth opened.isSome taken := by
  fun_induction Scan.skipBrackets depth opened offset text with
  | case1 => cases h
  | case2 => cases h
  | case3 depth offset d rest next start ih =>
    obtain ⟨taken, rfl, hcloses⟩ := ih h
    exact ⟨d :: taken, rfl, hcloses.quoted⟩
  | case4 depth offset rest next ih =>
    obtain ⟨taken, htext, hcloses⟩ := ih h
    refine ⟨'"' :: taken, by rw [htext]; rfl, hcloses.step fun offset rest => ?_⟩
    exact ⟨some ⟨offset + '"'.utf8Size, rest⟩, rfl, by simp [Scan.skipBrackets]⟩
  | case5 depth offset d rest next hquote hopen ih =>
    obtain ⟨taken, rfl, hcloses⟩ := ih h
    refine ⟨d :: taken, rfl, hcloses.step fun offset rest => ⟨none, rfl, ?_⟩⟩
    simp [Scan.skipBrackets, hquote, hopen]
  | case6 depth offset d rest next hquote hopen hclose hlast =>
    cases h
    exact ⟨[d], rfl, closes_last hquote hopen hclose hlast⟩
  | case7 depth offset d rest next hquote hopen hclose hlast ih =>
    obtain ⟨taken, rfl, hcloses⟩ := ih h
    refine ⟨d :: taken, rfl, hcloses.step fun offset rest => ⟨none, rfl, ?_⟩⟩
    simp [Scan.skipBrackets, hquote, hopen, hclose, hlast]
  | case8 depth offset d rest next hquote hopen hclose ih =>
    obtain ⟨taken, rfl, hcloses⟩ := ih h
    refine ⟨d :: taken, rfl, hcloses.step fun offset rest => ⟨none, rfl, ?_⟩⟩
    simp [Scan.skipBrackets, hquote, hopen, hclose]

theorem delimits_skipNested : Delimits skipNested := by
  rintro c ⟨⟩ c' h
  obtain ⟨taken, hsplit, hcloses⟩ := skipBrackets_eq_ok h
  exact ⟨taken, hcloses.ne_nil, hsplit, fun rest => ⟨fun offset => hcloses none offset rest rfl⟩⟩

/-- The words differ in their first letters, so whichever comes next is the one that is taken. -/
theorem skipWord_eq_ok (h : Scan.skipWord c = .ok () c') :
    ∃ word ∈ [nullWord, ['t', 'r', 'u', 'e'], ['f', 'a', 'l', 's', 'e']],
      c.rest = word ++ c'.rest ∧ ∀ rest, Consumes Scan.skipWord word rest () := by
  obtain ⟨found, mid, hword, hrest⟩ := Running.bind_eq_ok_iff.1 h
  rcases tryWord_eq_ok hword with ⟨rfl, hsplit⟩ | ⟨rfl, hmid, -⟩
  · cases hrest
    exact ⟨nullWord, by simp, hsplit, skipWord_null⟩
  rw [hmid] at hrest
  obtain ⟨found, mid, hword, hrest⟩ := Running.bind_eq_ok_iff.1 hrest
  rcases tryWord_eq_ok hword with ⟨rfl, hsplit⟩ | ⟨rfl, hmid, -⟩
  · cases hrest
    exact ⟨['t', 'r', 'u', 'e'], by simp, hsplit, skipWord_true⟩
  rw [hmid] at hrest
  obtain ⟨found, mid, hword, hrest⟩ := Running.bind_eq_ok_iff.1 hrest
  rcases tryWord_eq_ok hword with ⟨rfl, hsplit⟩ | ⟨rfl, hmid, -⟩
  · cases hrest
    exact ⟨['f', 'a', 'l', 's', 'e'], by simp, hsplit, skipWord_false⟩
  · cases hrest

theorem delimits_skipWord : Delimits Scan.skipWord := by
  rintro c ⟨⟩ c' h
  obtain ⟨word, hmem, hsplit, hword⟩ := skipWord_eq_ok h
  refine ⟨word, ?_, hsplit, hword⟩
  rintro rfl
  simp [nullWord] at hmem

theorem lexes_skipValue : Lexes Scan.skipValue := by
  apply peeks_skipWhitespace.bind_lexes
  intro _
  apply lexes_get
  · intro c c' hpeek
    simp only [hpeek]
  · intro c
    split
    · exact (delimits_fail .value).lexes
    · refine .ite (delimits_readString.map _).lexes (.ite delimits_skipNested.lexes ?_)
      exact .ite lexes_skipNumber delimits_skipWord.lexes

end Scan

end ShapeCodec
