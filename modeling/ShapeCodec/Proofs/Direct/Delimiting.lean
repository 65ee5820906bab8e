import ShapeCodec.Proofs.Direct.WireReading
import ShapeCodec.Proofs.Locality
/-! Values end by themselves. Reading an integer needs a look at the character behind it, and so does
skipping a number, but neither can be the last thing in an object or list, which its bracket ends.
Only the text can make reading fail. -/
namespace ShapeCodec.Direct

section Null

variable {α : Type} {onNull a : α} {other : Reading α} {c c' : Cursor}

/-- The step fails in front of a character. -/
def Refuses (d : Char) (x : Reading α) : Prop :=
  ∀ c a c', x c = .ok a c' → c.rest.head? ≠ some d

/-- Null is taken, or what comes instead, which is then not null in any text that begins with it. -/
theorem orNull_peel (hrefuses : Refuses 'n' other)
    (h : (do if ← Scan.tryNull then pure onNull else other : Reading α) c = .ok a c') :
    a = onNull ∧ c.rest = nullWord ++ c'.rest ∨
      other c = .ok a c' ∧ ∀ taken rest, taken ≠ [] → c.rest = taken ++ c'.rest →
        Consumes other taken rest a →
          Consumes (do if ← Scan.tryNull then pure onNull else other : Reading α) taken rest a := by
  obtain ⟨null, mid, hnull, h⟩ := Running.bind_eq_ok_iff.1 h
  rcases tryWord_eq_ok (eq_ok_of_lift hnull) with ⟨rfl, hsplit⟩ | ⟨rfl, hsame, -⟩
  · cases h
    exact .inl ⟨rfl, hsplit⟩
  · have hrun : other c = .ok a c' := hsame ▸ h
    refine .inr ⟨hrun, fun taken rest hne htext hother => notNull_consumes ?_ hother⟩
    rintro d hd rfl
    apply hrefuses c a c' hrun
    rw [htext, head?_append_of_ne_nil hne _ rest]
    exact hd

theorem lexes_orNull (hrefuses : Refuses 'n' other) (hother : Lexes other) (onNull : α) :
    Lexes (do if ← Scan.tryNull then pure onNull else other : Reading α) := by
  intro c a c' h
  rcases orNull_peel hrefuses h with ⟨rfl, hsplit⟩ | ⟨hrun, hfront⟩
  · exact ⟨nullWord, by simp [nullWord], hsplit, fun rest _ => null_consumes (.nothing a rest)⟩
  · obtain ⟨taken, hne, hsplit, htaken⟩ := hother c a c' hrun
    exact ⟨taken, hne, hsplit, fun rest hrest => hfront taken rest hne hsplit (htaken rest hrest)⟩

theorem delimits_orNull (hrefuses : Refuses 'n' other) (hother : Delimits other) (onNull : α) :
    Delimits (do if ← Scan.tryNull then pure onNull else other : Reading α) := by
  intro c a c' h
  rcases orNull_peel hrefuses h with ⟨rfl, hsplit⟩ | ⟨hrun, hfront⟩
  · exact ⟨nullWord, by simp [nullWord], hsplit, fun rest => null_consumes (.nothing a rest)⟩
  · obtain ⟨taken, hne, hsplit, htaken⟩ := hother c a c' hrun
    exact ⟨taken, hne, hsplit, fun rest => hfront taken rest hne hsplit (htaken rest)⟩

theorem refuses_expect {d e : Char} (hne : d ≠ e) {f : Unit → Reading α} :
    Refuses e ((liftM (Scan.expect d) : Reading Unit) >>= f) := by
  intro c a c' h
  obtain ⟨_, mid, hopen, -⟩ := Running.bind_eq_ok_iff.1 h
  rw [rest_of_expect (eq_ok_of_lift hopen)]
  simpa using hne

theorem refuses_readString :
    Refuses 'n' (Value.str <$> (liftM Scan.readString : Reading String)) := by
  intro c a c' h
  obtain ⟨text, hstring, rfl⟩ := Running.map_eq_ok_iff.1 h
  obtain ⟨_, mid, hopen, -⟩ := Running.bind_eq_ok_iff.1 (eq_ok_of_lift hstring)
  rw [rest_of_expect hopen]
  simp

theorem refuses_readInt : Refuses 'n' (Value.int <$> (liftM Scan.readInt : Reading Int64)) := by
  intro c a c' h hhead
  obtain ⟨n, hint, rfl⟩ := Running.map_eq_ok_iff.1 h
  obtain ⟨taken, hne, hsplit, hbegins, -⟩ := readInt_eq_ok (eq_ok_of_lift hint)
  rw [hsplit, head?_append_of_ne_nil hne _ [], List.append_nil] at hhead
  have hn := hbegins 'n' (List.mem_of_mem_head? hhead)
  revert hn
  decide

end Null

section Child

variable {read : Shape → Reading Value} {properties : List Property}

theorem delimits_readString (read : Shape → Reading Value) : Delimits (readChild read .string) := by
  apply peeks_skipWhitespace.lift.bind_delimits
  intro _
  exact delimits_orNull refuses_readString (ShapeCodec.delimits_readString.lift.map _) _

theorem lexes_readChild {shape : Shape} (hread : Lexes (read shape)) :
    Lexes (readChild read shape) := by
  cases shape with
  | string => exact (delimits_readString read).lexes
  | int =>
    apply peeks_skipWhitespace.lift.bind_lexes
    intro _
    exact lexes_orNull refuses_readInt (lexes_readInt.lift.map _) _
  | _ =>
    apply peeks_skipWhitespace.lift.bind_lexes
    intro _
    exact hread

theorem lexes_readMember (hread : ∀ shape, Lexes (read shape)) (slots : List Value) :
    Lexes (readMember read properties slots) := by
  apply ShapeCodec.delimits_readString.lift.lexes.peeks.bind_lexes
  intro name
  apply peeks_skipWhitespace.lift.bind_lexes
  intro _
  apply (delimits_expect ':').lift.lexes.peeks.bind_lexes
  intro _
  cases properties.zipIdx.find? fun entry => entry.1.name = name with
  | some entry => exact (lexes_readChild (hread _)).map _
  | none => exact lexes_skipValue.lift.bind_peeks fun _ => peeks_pure slots

end Child

section Loop

variable {α β : Type} {close : Char} {finish a : α} {entry : Reading β} {next : β → Reading α}
  {c c' : Cursor}

/-- What a round takes, and what it does with it in front of other text: it ends the loop, or it
takes an entry with what surrounds it and leaves the rest to the next round. -/
theorem round_peel (hentry : Lexes entry) (h : round close finish entry next c = .ok a c') :
    (∃ taken, taken ≠ [] ∧ c.rest = taken ++ c'.rest ∧
      ∀ (g : β → Reading α) rest, Consumes (round close finish entry g) taken rest a) ∨
    ∃ x mid taken, taken ≠ [] ∧ c.rest = taken ++ mid.rest ∧ next x mid = .ok a c' ∧
      ∀ (g : β → Reading α) inner rest, (inner ++ rest).head? = mid.rest.head? →
        Consumes (g x) inner rest a →
          Consumes (round close finish entry g) (taken ++ inner) rest a := by
  obtain ⟨_, opened, blanks, h, hblanks, hfront⟩ := peeks_skipWhitespace.lift.peel h
  obtain ⟨_, _, ⟨⟩, h⟩ := Running.bind_eq_ok_iff.1 h
  split at h
  · cases h
  next hmore =>
  obtain ⟨closed, mid, hclosed, h⟩ := Running.bind_eq_ok_iff.1 h
  -- behind the whitespace, text that begins alike is not at its end either
  have hlook (g : β → Reading α) (inner rest : List Char)
      (hhead : (inner ++ rest).head? = opened.rest.head?)
      (hinner : Consumes (do
        if ← Scan.tryChar close then pure finish
        else
          let x ← entry
          Scan.skipWhitespace
          discard (Scan.tryChar ',')
          g x : Reading α) inner rest a) :
      Consumes (round close finish entry g) (blanks ++ inner) rest a := by
    apply hfront _ inner rest hhead
    refine Consumes.get_bind fun cursor hcursor => ?_
    rw [if_neg]
    · exact hinner
    · rw [Cursor.isExhausted, List.isEmpty_iff, ← List.head?_eq_none_iff] at hmore ⊢
      rwa [hcursor, hhead]
  rcases tryChar_eq_ok (eq_ok_of_lift hclosed) with ⟨rfl, hsplit⟩ | ⟨rfl, hsame, hmiss⟩
  · cases h
    refine .inl ⟨blanks ++ [close], by simp, by rw [hblanks, hsplit]; simp, fun g rest => ?_⟩
    apply hlook g [close] rest (by rw [hsplit]; rfl)
    exact (Consumes.tryChar close ([] ++ rest)).lift.seq (Consumes.nothing finish rest)
  · rw [hsame] at h
    obtain ⟨x, m₁, text, h, hne, htext, hfront₁⟩ := hentry.peel h
    obtain ⟨_, m₂, gap, h, hgap, hfront₂⟩ := peeks_skipWhitespace.lift.peel h
    have hcomma : Peeks (discard (liftM (Scan.tryChar ',') : Reading Bool)) :=
      (peeks_tryChar ',').lift.map _
    obtain ⟨_, m₃, comma, h, hcommas, hfront₃⟩ := hcomma.peel h
    refine .inr ⟨x, m₃, blanks ++ (text ++ (gap ++ comma)), by simp [hne], ?_, h, ?_⟩
    · rw [hblanks, htext, hgap, hcommas]
      simp
    intro g inner rest hhead hinner
    have hhead₂ : (comma ++ inner ++ rest).head? = m₂.rest.head? := by
      rw [hcommas, List.append_assoc]
      exact head?_append_congr hhead
    have hhead₁ : (gap ++ (comma ++ inner) ++ rest).head? = m₁.rest.head? := by
      rw [hgap, List.append_assoc]
      exact head?_append_congr hhead₂
    have hhead₀ : (text ++ (gap ++ (comma ++ inner)) ++ rest).head? = opened.rest.head? := by
      rw [htext, List.append_assoc]
      exact head?_append_congr hhead₁
    have hnext := hfront₃ (fun _ => g x) inner rest hhead hinner
    have hbehind := hfront₂ (fun _ => do discard (Scan.tryChar ','); g x) _ rest hhead₂ hnext
    have hrest := hfront₁ (fun x => do Scan.skipWhitespace; discard (Scan.tryChar ','); g x) _ rest
      hhead₁ hbehind
    have hopen : ∀ e ∈ (text ++ (gap ++ (comma ++ inner)) ++ rest).head?, e ≠ close := by
      rwa [hhead₀]
    have hround := hlook g _ rest hhead₀ ((Consumes.tryChar_miss hopen).lift.seq_nil hrest)
    simpa using hround

/-- The loop ends by itself as long as its bound lets it: what it takes is a sufficient bound. -/
def Within (loop : Nat → Reading α) (c : Cursor) (a : α) (c' : Cursor) : Prop :=
  ∃ taken, taken ≠ [] ∧ c.rest = taken ++ c'.rest ∧
    ∀ bound, taken.length ≤ bound → ∀ rest, Consumes (loop bound) taken rest a

theorem round_within {loop : Nat → Reading α} {more : Nat → β → Reading α} {bound : Nat}
    (hloop : ∀ bound, loop (bound + 1) = round close finish entry (more bound))
    (hentry : Lexes entry) (h : loop (bound + 1) c = .ok a c')
    (hmore : ∀ x mid, more bound x mid = .ok a c' → Within (fun bound => more bound x) mid a c') :
    Within loop c a c' := by
  rw [hloop] at h
  rcases round_peel hentry h with ⟨taken, hne, hsplit, hfront⟩ |
    ⟨x, mid, taken, hne, hsplit, hnext, hfront⟩
  · refine ⟨taken, hne, hsplit, fun bound hbound rest => ?_⟩
    have hpos := List.length_pos_of_ne_nil hne
    obtain ⟨less, rfl⟩ : ∃ less, bound = less + 1 := ⟨bound - 1, by omega⟩
    rw [hloop]
    exact hfront (more less) rest
  · obtain ⟨inner, hinner, hmid, hrun⟩ := hmore x mid hnext
    refine ⟨taken ++ inner, by simp [hne], by rw [hsplit, hmid, List.append_assoc], ?_⟩
    intro bound hbound rest
    -- the entry takes a character at least, which pays for the round
    have hpos := List.length_pos_of_ne_nil hne
    rw [List.length_append] at hbound
    obtain ⟨less, rfl⟩ : ∃ less, bound = less + 1 := ⟨bound - 1, by omega⟩
    rw [hloop]
    apply hfront (more less) inner rest
    · rw [hmid]
      exact head?_append_of_ne_nil hinner rest c'.rest
    · exact hrun less (by omega) rest

/-- Between its brackets a loop gets by with the text that it finds there. -/
theorem delimits_bracketed {loop : Nat → Reading α} (opening : Char) (g : α → β)
    (hloop : ∀ bound c a c', loop bound c = .ok a c' → Within loop c a c') :
    Delimits (do
      Scan.expect opening
      let start ← get
      g <$> loop start.rest.length : Reading β) := by
  intro c b c' h
  obtain ⟨_, mid, hopen, h⟩ := Running.bind_eq_ok_iff.1 h
  obtain ⟨start, _, ⟨⟩, h⟩ := Running.bind_eq_ok_iff.1 h
  obtain ⟨a, hrun, rfl⟩ := Running.map_eq_ok_iff.1 h
  obtain ⟨taken, -, hmid, htaken⟩ := hloop _ _ _ _ hrun
  refine ⟨opening :: taken, by simp, ?_, fun rest => ?_⟩
  · rw [rest_of_expect (eq_ok_of_lift hopen), hmid]
    rfl
  · apply (Consumes.expect opening (taken ++ rest)).lift.seq
    refine Consumes.get_bind fun start hstart => ?_
    apply (htaken start.rest.length _ rest).map
    rw [hstart, List.length_append]
    exact Nat.le_add_right _ _

end Loop

section Read

variable {s : Schema} {read : Shape → Reading Value}

theorem readMembers_within (hread : ∀ shape, Lexes (read shape)) {properties : List Property}
    {bound : Nat} {slots fields : List Value} {c c' : Cursor}
    (h : readMembers read properties bound slots c = .ok fields c') :
    Within (fun bound => readMembers read properties bound slots) c fields c' := by
  induction bound generalizing slots c with
  | zero => cases h
  | succ bound ih =>
    exact round_within (fun _ => rfl) (lexes_readMember hread slots) h fun _ _ hnext => ih hnext

theorem readItems_within (hread : ∀ shape, Lexes (read shape)) {element : Shape} {bound : Nat}
    {items : List Value} {c c' : Cursor} (h : readItems read element bound c = .ok items c') :
    Within (readItems read element) c items c' := by
  induction bound generalizing items c with
  | zero => cases h
  | succ bound ih =>
    apply round_within (fun _ => rfl) (lexes_readChild (hread element)) h
    intro item mid hnext
    obtain ⟨rest, hrest, rfl⟩ := Running.map_eq_ok_iff.1 hnext
    obtain ⟨inner, hne, hsplit, hrun⟩ := ih hrest
    exact ⟨inner, hne, hsplit, fun bound hbound rest => (hrun bound hbound rest).map⟩

theorem delimits_object (hread : ∀ shape, Lexes (read shape)) (name : String) (nullable : Bool) :
    Delimits (readValue s read (.object name nullable)) :=
  delimits_orNull (refuses_expect (show '\x7b' ≠ 'n' by decide))
    (delimits_bracketed _ _ fun _ _ _ _ h => readMembers_within hread h) _

theorem delimits_list (hread : ∀ shape, Lexes (read shape)) (element : Shape) (nullable : Bool) :
    Delimits (readValue s read (.list element nullable)) :=
  delimits_orNull (refuses_expect (show '[' ≠ 'n' by decide))
    (delimits_bracketed _ _ fun _ _ _ _ h => readItems_within hread h) _

theorem lexes_readValue (hread : ∀ shape, Lexes (read shape)) (shape : Shape) :
    Lexes (readValue s read shape) := by
  cases shape with
  | object name nullable => exact (delimits_object hread name nullable).lexes
  | list element nullable => exact (delimits_list hread element nullable).lexes
  | int => exact lexes_readChild (hread .int)
  | string => exact lexes_readChild (hread .string)
  | unsupported text => exact lexes_readChild (hread (.unsupported text))

theorem lexes_read (s : Schema) (levels : Nat) (shape : Shape) :
    Lexes (Direct.read s levels shape) := by
  induction levels generalizing shape with
  | zero =>
    unfold Direct.read
    split
    · exact lexes_skipValue.lift.bind_peeks fun _ => peeks_pure Value.null
    · exact peeks_skipWhitespace.lift.bind_lexes fun _ => (delimits_fail _).lift.lexes
  | succ levels ih =>
    unfold Direct.read
    split
    · exact lexes_skipValue.lift.bind_peeks fun _ => peeks_pure Value.null
    · exact peeks_skipWhitespace.lift.bind_lexes fun _ => lexes_readValue ih shape

/-- No loop of the reader is ended by its bound. -/
theorem readMembers_read_unrolls (s : Schema) (levels : Nat) (properties : List Property)
    (slots : List Value) {bound : Nat} {c : Cursor} (h : c.rest.length ≤ bound) :
    readMembers (Direct.read s levels) properties bound slots c =
      round '\x7d' slots (readMember (Direct.read s levels) properties slots)
        (readMembers (Direct.read s levels) properties bound) c :=
  readMembers_unrolls (lexes_readMember (lexes_read s levels)) h

theorem readItems_read_unrolls (s : Schema) (levels : Nat) (element : Shape) {bound : Nat}
    {c : Cursor} (h : c.rest.length ≤ bound) :
    readItems (Direct.read s levels) element bound c =
      round ']' [] (readChild (Direct.read s levels) element)
        (fun item => (item :: ·) <$> readItems (Direct.read s levels) element bound) c :=
  readItems_unrolls (lexes_readChild (lexes_read s levels element)) h

/-- A value of a shape without a fault ends by itself, unless it is an integer. -/
theorem delimits_read {shape : Shape} (hfault : s.routineFault? .deserialize shape = none)
    (hint : shape ≠ .int) (levels : Nat) : Delimits (Direct.read s levels shape) := by
  unfold Direct.read
  rw [hfault]
  cases levels with
  | zero => exact peeks_skipWhitespace.lift.bind_delimits fun _ => (delimits_fail _).lift
  | succ levels =>
    apply peeks_skipWhitespace.lift.bind_delimits
    intro _
    cases shape with
    | object name nullable => exact delimits_object (lexes_read s levels) name nullable
    | list element nullable => exact delimits_list (lexes_read s levels) element nullable
    | string => exact delimits_readString (Direct.read s levels)
    | int => exact absurd rfl hint
    | unsupported text => cases hfault

end Read

end ShapeCodec.Direct
