import ShapeCodec.Proofs.Direct.Delimiting
/-! Where values end. An integer ends in front of any character that no number has, and so does a
number that is skipped; all other values end by themselves. A value that has been read is therefore
read again wherever an object may have it. -/
namespace ShapeCodec

/-- The step takes the text in front of all that does not go on with a number. -/
def Spans {ε α : Type} (x : EStateM ε Cursor α) (text : List Char) (a : α) : Prop :=
  ∀ rest, Json.Number.Stops rest → Consumes x text rest a

/-- It takes something, and what it has taken once it takes again. -/
def Ends {ε α : Type} (x : EStateM ε Cursor α) : Prop :=
  ∀ c a c', x c = .ok a c' → ∃ taken, taken ≠ [] ∧ c.rest = taken ++ c'.rest ∧ Spans x taken a

section Step

variable {ε α β : Type} {x : EStateM ε Cursor α} {f : α → EStateM ε Cursor β}

theorem Delimits.ends (h : Delimits x) : Ends x := by
  intro c a c' hrun
  obtain ⟨taken, hne, hsplit, htaken⟩ := h c a c' hrun
  exact ⟨taken, hne, hsplit, fun rest _ => htaken rest⟩

theorem Peeks.bind_ends (hx : Peeks x) (hf : ∀ a, Ends (f a)) : Ends (x >>= f) := by
  intro c b c' h
  obtain ⟨a, mid, taken, hnext, hsplit, hfront⟩ := hx.peel h
  obtain ⟨inner, hne, hmid, hinner⟩ := hf a mid b c' hnext
  refine ⟨taken ++ inner, by simp [hne], by rw [hsplit, hmid, List.append_assoc], ?_⟩
  intro rest hrest
  apply hfront f inner rest _ (hinner rest hrest)
  rw [hmid]
  exact head?_append_of_ne_nil hne rest c'.rest

theorem Ends.map (hx : Ends x) (g : α → β) : Ends (g <$> x) := by
  intro c b c' h
  obtain ⟨a, hrun, rfl⟩ := Running.map_eq_ok_iff.1 h
  obtain ⟨taken, hne, hsplit, htaken⟩ := hx c a c' hrun
  exact ⟨taken, hne, hsplit, fun rest hrest => (htaken rest hrest).map⟩

theorem Ends.ite {p : Prop} [Decidable p] {y : EStateM ε Cursor α} (hx : Ends x) (hy : Ends y) :
    Ends (if p then x else y) := by
  split
  · exact hx
  · exact hy

theorem ends_get {f : Cursor → EStateM ε Cursor α}
    (hpeek : ∀ c c' : Cursor, c.peek? = c'.peek? → f c = f c') (hf : ∀ c, Ends (f c)) :
    Ends (get >>= f) := by
  intro c a c' hrun
  obtain ⟨taken, hne, hsplit, htaken⟩ := hf c c a c' hrun
  refine ⟨taken, hne, hsplit, fun rest hrest => ?_⟩
  exact get_consumes hpeek hne hsplit (htaken rest hrest)

theorem Ends.lift {x : Scan α} (hx : Ends x) : Ends (liftM x : Reading α) := by
  intro c a c' h
  obtain ⟨taken, hne, hsplit, htaken⟩ := hx c a c' (eq_ok_of_lift h)
  exact ⟨taken, hne, hsplit, fun rest hrest => (htaken rest hrest).lift⟩

end Step

theorem ends_readInt : Ends Scan.readInt := by
  intro c n c' h
  obtain ⟨taken, hne, hsplit, -, -, -, htaken⟩ := readInt_eq_ok h
  exact ⟨taken, hne, hsplit, fun rest hrest => htaken rest hrest.not_digit⟩

theorem ends_skipNumber : Ends Scan.skipNumber := by
  rintro c ⟨⟩ c' h
  obtain ⟨taken, hne, hsplit, -, -, htaken⟩ := skipNumber_eq_ok h
  exact ⟨taken, hne, hsplit, htaken⟩

theorem ends_skipValue : Ends Scan.skipValue := by
  apply peeks_skipWhitespace.bind_ends
  intro _
  apply ends_get
  · intro c c' hpeek
    simp only [hpeek]
  · intro c
    split
    · exact (delimits_fail .value).ends
    · refine .ite (delimits_readString.map _).ends (.ite delimits_skipNested.ends ?_)
      exact .ite ends_skipNumber delimits_skipWord.ends

namespace Direct

theorem ends_orNull {α : Type} {other : Reading α} (hrefuses : Refuses 'n' other)
    (hother : Ends other) (onNull : α) :
    Ends (do if ← Scan.tryNull then pure onNull else other : Reading α) := by
  intro c a c' h
  rcases orNull_peel hrefuses h with ⟨rfl, hsplit⟩ | ⟨hrun, hfront⟩
  · exact ⟨nullWord, by simp [nullWord], hsplit, fun rest _ => null_consumes (.nothing a rest)⟩
  · obtain ⟨taken, hne, hsplit, htaken⟩ := hother c a c' hrun
    exact ⟨taken, hne, hsplit, fun rest hrest => hfront taken rest hne hsplit (htaken rest hrest)⟩

theorem readInert_eq_map :
    Machine.readInert = (fun _ => Value.null) <$> (liftM Scan.skipValue : Reading Unit) := by
  rw [map_eq_pure_bind]
  rfl

theorem ends_readInert : Ends Machine.readInert :=
  readInert_eq_map ▸ ends_skipValue.lift.map _

theorem readInert_eq_ok_iff {c c' : Cursor} {v : Value} :
    Machine.readInert c = .ok v c' ↔ v = .null ∧ Scan.skipValue c = .ok () c' := by
  rw [readInert_eq_map, Running.map_eq_ok_iff]
  constructor
  · rintro ⟨_, hskip, rfl⟩
    exact ⟨rfl, eq_ok_of_lift hskip⟩
  · rintro ⟨rfl, hskip⟩
    exact ⟨(), lift_of_ok hskip, rfl⟩

/-- A child ends in front of anything that an object may go on with, whether it is read or only
skipped. -/
theorem ends_readChild (s : Schema) (shape : Shape) (levels : Nat) :
    Ends (readChild (Direct.read s levels) shape) := by
  have hread (hscalar : shape ≠ .int) : Ends (Direct.read s levels shape) := by
    cases hfault : s.routineFault? .deserialize shape with
    | none => exact (delimits_read hfault hscalar levels).ends
    | some e => exact read_of_fault hfault levels ▸ ends_readInert
  cases shape with
  | int =>
    apply peeks_skipWhitespace.lift.bind_ends
    intro _
    exact ends_orNull refuses_readInt (ends_readInt.lift.map _) _
  | string => exact (delimits_readString _).ends
  | _ =>
    apply peeks_skipWhitespace.lift.bind_ends
    intro _
    exact hread nofun

end Direct

end ShapeCodec
