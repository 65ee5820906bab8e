import ShapeCodec.Proofs.Locality
/-! Values frame themselves. What is stepped over is one value of JSON, exactly, whatever comes behind
it, and of an object or list that is cut off nothing is stepped over at all. -/
namespace ShapeCodec

open Json (Blank)

/-- A step that ends by itself and takes a whole text fails on every part that the text begins
with. -/
theorem Delimits.error_of_cut {ε α : Type} {x : EStateM ε Cursor α} {a : α}
    {text part more : List Char} (hx : Delimits x) (htext : Consumes x text [] a)
    (hcut : text = part ++ more) (hmore : more ≠ []) (offset : Nat) :
    ∃ e c, x ⟨offset, part⟩ = .error e c := by
  cases hpart : x ⟨offset, part⟩ with
  | error e c => exact ⟨e, c, rfl⟩
  | ok b c =>
    -- what was taken of the part is taken of the text, of which something is left then
    obtain ⟨taken, -, htaken, hfront⟩ := hx _ b c hpart
    have htaken : part = taken ++ c.rest := htaken
    have hshort := (hfront (c.rest ++ more)).run offset
    have hwhole := htext.run offset
    rw [List.append_nil, hcut, htaken, List.append_assoc, hshort, EStateM.Result.ok.injEq] at hwhole
    have hrest : c.rest ++ more = [] := congrArg Cursor.rest hwhole.2
    exact absurd (List.append_eq_nil_iff.1 hrest).2 hmore

theorem skipNested_of_bracketed {text : List Char} (h : Json.ValueText text)
    (hescape : Json.escapesQuote text = false) {c : Char} (hc : c = '\x7b' ∨ c = '[')
    (hhead : text.head? = some c) : Consumes skipNested text [] () := by
  obtain ⟨tail, rfl⟩ := List.head?_eq_some_iff.1 hhead
  have hspace : Text.isSpace c = false ∧ c ≠ '"' := by
    rcases hc with rfl | rfl <;> decide
  have hskip : Consumes Scan.skipValue ([] ++ c :: tail) [] () :=
    skipValue_consumes h hescape Json.blank_nil fun _ => by simp [Json.Number.Stops]
  constructor
  intro offset
  have hvalue := skipValue_apply Json.blank_nil hspace.1 offset tail
  rw [if_neg hspace.2, if_pos hc] at hvalue
  have hrun := hskip.run offset
  simp only [List.nil_append, List.append_nil] at hrun hvalue ⊢
  rw [← hrun, hvalue]
  rfl

theorem skipValue_of_blank {lead : List Char} (hlead : Blank lead) (offset : Nat) :
    ∃ e c, Scan.skipValue ⟨offset, lead⟩ = .error e c := by
  have hskip : Consumes Scan.skipWhitespace lead [] () :=
    Consumes.skipWhitespace hlead (by simp)
  have hrun := hskip.run offset
  rw [List.append_nil] at hrun
  exact ⟨_, _, Running.bind_of_ok hrun⟩

/-- One value of JSON in which no quote is escaped is stepped over, with whitespace in front of it,
and what comes behind it is left as it is; behind a number nothing may come that goes on with it. An
object or list is stepped over only as a whole. -/
theorem skipValue_frames {text lead : List Char} (h : Json.ValueText text)
    (hescape : Json.escapesQuote text = false) (hlead : Blank lead) :
    (∀ offset rest, (Json.NumberText text → Json.Number.Stops rest) →
      Scan.skipValue ⟨offset, lead ++ text ++ rest⟩ =
        .ok () ⟨offset + Text.utf8Length (lead ++ text), rest⟩) ∧
    ∀ c part more, text.head? = some c → c = '\x7b' ∨ c = '[' → text = part ++ more → more ≠ [] →
      ∀ offset, ∃ e c', Scan.skipValue ⟨offset, lead ++ part⟩ = .error e c' := by
  constructor
  · intro offset rest hrest
    exact (skipValue_consumes h hescape hlead hrest).run offset
  · intro c part more hhead hc hcut hmore offset
    have hnested := skipNested_of_bracketed h hescape hc hhead
    cases part with
    | nil =>
      rw [List.append_nil]
      exact skipValue_of_blank hlead offset
    | cons d tail =>
      obtain rfl : d = c := by simpa [hcut] using hhead
      have hspace : Text.isSpace d = false ∧ d ≠ '"' := by
        rcases hc with rfl | rfl <;> decide
      rw [skipValue_apply hlead hspace.1, if_neg hspace.2, if_pos hc]
      exact delimits_skipNested.error_of_cut hnested hcut hmore _

/-- The text of a list with a string and an object. The string holds a bracket and an escaped
backslash. -/
def framedList : List Char :=
  ['[', '"', ']', '\\', '\\', '"', ',', '\x7b', '\x7d', ']']

theorem skipValue_frames_list :
    Json.ValueText framedList ∧ Json.escapesQuote framedList = false ∧ Blank [' '] ∧
    Scan.skipValue ⟨0, [' '] ++ framedList ++ [']']⟩ = .ok () ⟨11, [']']⟩ ∧
    ∃ e c, Scan.skipValue ⟨0, [' '] ++ framedList.dropLast⟩ = .error e c := by
  have hstring : Json.EntryText false ['"', ']', '\\', '\\', '"'] :=
    .item (.string (.plain (by decide) (.short (by decide) .nil)))
  have hobject : Json.EntryText false ['\x7b', '\x7d'] := .item (.object (.nil Json.blank_nil))
  have htext : Json.ValueText framedList :=
    .array (.cons (.first Json.blank_nil) hstring
      (.cons (.later Json.blank_nil Json.blank_nil) hobject (.nil Json.blank_nil)))
  have hescape : Json.escapesQuote framedList = false := by decide
  obtain ⟨hwhole, hcut⟩ := skipValue_frames htext hescape Json.blank_space
  refine ⟨htext, hescape, Json.blank_space, ?_, ?_⟩
  · exact hwhole 0 [']'] fun _ => by simp [Json.Number.Stops, Scan.isNumberPart]
  · exact hcut '[' framedList.dropLast [']'] rfl (.inr rfl) rfl (by simp) 0

end ShapeCodec
