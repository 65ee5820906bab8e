import Mathlib.Data.List.Chain
import ShapeCodec.Routine.Literals
/-! Merged literals as a canonical form. Two blocks have the same merged form exactly if they spell
the same text between the same instructions, and merged blocks are those in which nothing is left to
merge, at any level of nesting. -/
namespace ShapeCodec.WriteStep

def isLiteral : WriteStep → Bool
  | literal _ => true
  | _ => false

/-- A literal for each character. -/
def spell (text : String) : List WriteStep :=
  text.toList.map fun c => literal (String.singleton c)

mutual

/-- The block with all literals split into single characters, in loop bodies as well. -/
def split : List WriteStep → List WriteStep
  | [] => []
  | literal text :: rest => spell text ++ split rest
  | instr :: rest => instr.splitInside :: split rest

def splitInside : WriteStep → WriteStep
  | each list body separator terminator => each list (split body) separator terminator
  | instr => instr

end

mutual

/-- The block without literals, in loop bodies as well. -/
def skeleton : List WriteStep → List WriteStep
  | [] => []
  | literal _ :: rest => skeleton rest
  | instr :: rest => instr.skeletonInside :: skeleton rest

def skeletonInside : WriteStep → WriteStep
  | each list body separator terminator => each list (skeleton body) separator terminator
  | instr => instr

end

/-- There is no empty literal in the block, and there are no two next to each other. -/
structure Merged (block : List WriteStep) : Prop where
  nonempty : literal "" ∉ block
  apart : block.IsChain fun a b => ¬ (a.isLiteral = true ∧ b.isLiteral = true)

/-- A block and the bodies of the loops in it, at any level of nesting. -/
inductive Nested (block : List WriteStep) : List WriteStep → Prop
  | self : Nested block block
  | loop {code list body separator terminator} : each list body separator terminator ∈ code →
      Nested block body → Nested block code

section Prepend

variable {text a b : String} {code : List WriteStep}

theorem spell_append (a b : String) : spell (a ++ b) = spell a ++ spell b := by
  simp [spell]

theorem prependLiteral_empty (code : List WriteStep) : prependLiteral "" code = code := by
  simp [prependLiteral]

theorem prependLiteral_append (a b : String) (code : List WriteStep) :
    prependLiteral (a ++ b) code = prependLiteral a (prependLiteral b code) := by
  by_cases ha : a = ""
  · rw [ha, String.empty_append, prependLiteral_empty]
  by_cases hb : b = ""
  · rw [hb, String.append_empty, prependLiteral_empty]
  have hab : a ++ b ≠ "" := by simp [ha]
  simp only [prependLiteral, String.isEmpty_iff, ha, hb, hab, if_false]
  split <;> simp [String.append_assoc]

theorem merged_prependLiteral (h : Merged code) : Merged (prependLiteral text code) := by
  by_cases htext : text = ""
  · rwa [htext, prependLiteral_empty]
  obtain ⟨hnonempty, hapart⟩ := h
  simp only [prependLiteral, String.isEmpty_iff, htext, if_false]
  split
  · next next rest =>
    -- the longer literal stands where the next one stood
    rw [List.isChain_cons] at hapart
    refine ⟨?_, List.isChain_cons.2 ⟨by simpa [isLiteral] using hapart.1, hapart.2⟩⟩
    simp only [List.mem_cons, not_or] at hnonempty ⊢
    exact ⟨by simp [htext], hnonempty.2⟩
  · next hfirst =>
    refine ⟨by simp [hnonempty, Ne.symm htext], List.isChain_cons.2 ⟨?_, hapart⟩⟩
    rintro instr hhead ⟨-, hinstr⟩
    obtain ⟨rest, rfl⟩ := List.head?_eq_some_iff.1 (Option.mem_def.1 hhead)
    cases instr with
    | literal next => exact hfirst next rest rfl
    | _ => cases hinstr

end Prepend

section Split

variable {text : String} {code : List WriteStep}

theorem split_append (a b : List WriteStep) : split (a ++ b) = split a ++ split b := by
  induction a with
  | nil => rfl
  | cons instr a ih => cases instr <;> simp [split, ih]

theorem split_prependLiteral (text : String) (code : List WriteStep) :
    split (prependLiteral text code) = spell text ++ split code := by
  unfold prependLiteral
  split
  · next hempty => simp [String.isEmpty_iff.1 hempty, spell]
  · split
    · simp [split, spell_append]
    · rw [split]

mutual

theorem splitInside_mergeInside (instr : WriteStep) :
    instr.mergeInside.splitInside = instr.splitInside := by
  cases instr with
  | each list body separator terminator =>
    simp only [mergeInside, splitInside, split_mergeLiterals body]
  | _ => rfl

/-- Merging keeps what is spelled. -/
theorem split_mergeLiterals (code : List WriteStep) : split (mergeLiterals code) = split code := by
  cases code with
  | nil => rfl
  | cons instr rest =>
    have hrest := split_mergeLiterals rest
    have hinstr := splitInside_mergeInside instr
    cases instr with
    | literal text => rw [mergeLiterals, split_prependLiteral, hrest, split]
    | _ => simp_all [mergeLiterals, split, mergeInside]

end

theorem mergeLiterals_spell (text : String) (code : List WriteStep) :
    mergeLiterals (spell text ++ code) = prependLiteral text (mergeLiterals code) := by
  have hchars (chars : List Char) :
      mergeLiterals (chars.map (fun c => literal (String.singleton c)) ++ code) =
        prependLiteral (String.ofList chars) (mergeLiterals code) := by
    induction chars with
    | nil => rw [String.ofList_nil, prependLiteral_empty]; rfl
    | cons c chars ih =>
      rw [List.map_cons, List.cons_append, mergeLiterals, ih, ← prependLiteral_append]
      simp
  simpa [spell] using hchars text.toList

mutual

theorem mergeInside_splitInside (instr : WriteStep) :
    instr.splitInside.mergeInside = instr.mergeInside := by
  cases instr with
  | each list body separator terminator =>
    simp only [mergeInside, splitInside, mergeLiterals_split body]
  | _ => rfl

/-- What is spelled decides the merged form. -/
theorem mergeLiterals_split (code : List WriteStep) :
    mergeLiterals (split code) = mergeLiterals code := by
  cases code with
  | nil => rfl
  | cons instr rest =>
    have hrest := mergeLiterals_split rest
    have hinstr := mergeInside_splitInside instr
    cases instr with
    | literal text => rw [split, mergeLiterals_spell, hrest, mergeLiterals]
    | _ => simp_all [mergeLiterals, split, splitInside]

end

theorem mergeLiterals_eq_iff {a b : List WriteStep} :
    mergeLiterals a = mergeLiterals b ↔ split a = split b := by
  constructor
  · intro h
    rw [← split_mergeLiterals a, h, split_mergeLiterals]
  · intro h
    rw [← mergeLiterals_split a, h, mergeLiterals_split]

end Split

section Merged

variable {block code : List WriteStep}

theorem Merged.tail {instr : WriteStep} (h : Merged (instr :: code)) : Merged code :=
  ⟨fun hmem => h.nonempty (List.mem_cons_of_mem instr hmem), h.apart.tail⟩

theorem Merged.cons {instr : WriteStep} (hinstr : instr.isLiteral = false) (h : Merged code) :
    Merged (instr :: code) := by
  refine ⟨?_, List.isChain_cons.2 ⟨by simp [hinstr], h.apart⟩⟩
  rw [List.mem_cons, not_or]
  refine ⟨?_, h.nonempty⟩
  rintro rfl
  cases hinstr

theorem mergeLiterals_merged (code : List WriteStep) : Merged (mergeLiterals code) := by
  induction code with
  | nil => exact ⟨by simp [mergeLiterals], by simp [mergeLiterals]⟩
  | cons instr rest ih =>
    cases instr with
    | literal text => exact merged_prependLiteral ih
    | _ => exact ih.cons rfl

theorem filter_prependLiteral (text : String) (code : List WriteStep) :
    (prependLiteral text code).filter (!·.isLiteral) = code.filter (!·.isLiteral) := by
  unfold prependLiteral
  split
  · rfl
  · split <;> simp [isLiteral]

/-- All other instructions stay in order, with the bodies of loops merged. -/
theorem filter_mergeLiterals (code : List WriteStep) :
    (mergeLiterals code).filter (!·.isLiteral) = (code.filter (!·.isLiteral)).map mergeInside := by
  induction code with
  | nil => rfl
  | cons instr rest ih =>
    cases instr with
    | literal text =>
      rw [mergeLiterals, filter_prependLiteral, ih]
      rfl
    | _ =>
      simp only [mergeLiterals]
      exact congrArg (List.cons _) ih

theorem body_of_mem_mergeLiterals {list : ValueSource} {body : List WriteStep}
    {separator terminator : String}
    (h : each list body separator terminator ∈ mergeLiterals code) :
    ∃ body', body = mergeLiterals body' := by
  have hmem : each list body separator terminator ∈
      (mergeLiterals code).filter (!·.isLiteral) := List.mem_filter.2 ⟨h, rfl⟩
  rw [filter_mergeLiterals, List.mem_map] at hmem
  obtain ⟨instr, -, hinstr⟩ := hmem
  cases instr with
  | each =>
    cases hinstr
    exact ⟨_, rfl⟩
  | _ => cases hinstr

theorem merged_of_nested (h : Nested block (mergeLiterals code)) : Merged block := by
  generalize hmerged : mergeLiterals code = merged at h
  induction h generalizing code with
  | self => exact hmerged ▸ mergeLiterals_merged code
  | loop hmem _ ih =>
    obtain ⟨body', rfl⟩ := body_of_mem_mergeLiterals (hmerged ▸ hmem)
    exact ih rfl

/-- A literal stays as it is in front of what does not begin with one. -/
theorem prependLiteral_of_merged {text : String} (h : Merged (literal text :: code)) :
    prependLiteral text code = literal text :: code := by
  have htext : text ≠ "" := by
    rintro rfl
    exact h.nonempty List.mem_cons_self
  simp only [prependLiteral, String.isEmpty_iff, htext, if_false]
  split
  · next next rest => exact absurd ⟨rfl, rfl⟩ (List.isChain_cons_cons.1 h.apart).1
  · rfl

mutual

theorem mergeInside_of_merged (instr : WriteStep)
    (h : ∀ list body separator terminator, instr = each list body separator terminator →
      ∀ block, Nested block body → Merged block) : instr.mergeInside = instr := by
  cases instr with
  | each list body separator terminator =>
    rw [mergeInside, mergeLiterals_of_merged body (h _ _ _ _ rfl)]
  | _ => rfl

/-- Where nothing is left to merge, merging changes nothing. -/
theorem mergeLiterals_of_merged (code : List WriteStep)
    (h : ∀ block, Nested block code → Merged block) : mergeLiterals code = code := by
  cases code with
  | nil => rfl
  | cons instr rest =>
    have hrest : mergeLiterals rest = rest := by
      refine mergeLiterals_of_merged rest fun block hblock => ?_
      cases hblock with
      | self => exact (h _ .self).tail
      | loop hmem hbody => exact h block (.loop (List.mem_cons_of_mem instr hmem) hbody)
    have hinstr : instr.mergeInside = instr := by
      refine mergeInside_of_merged instr ?_
      rintro list body separator terminator rfl block hblock
      exact h block (.loop List.mem_cons_self hblock)
    cases instr with
    | literal text => rw [mergeLiterals, hrest, prependLiteral_of_merged (h _ .self)]
    | _ => simp_all [mergeLiterals, mergeInside]

end

end Merged

section Kept

theorem skeleton_prependLiteral (text : String) (code : List WriteStep) :
    skeleton (prependLiteral text code) = skeleton code := by
  unfold prependLiteral
  split
  · rfl
  · split <;> simp [skeleton]

theorem literalCount_prependLiteral_le (text : String) (code : List WriteStep) :
    literalCount (prependLiteral text code) ≤ literalCount code + 1 := by
  unfold prependLiteral
  split
  · exact Nat.le_succ _
  · split
    · simp [literalCount, literalsInside]
    · rw [literalCount, literalsInside, Nat.add_comm]

mutual

theorem skeletonInside_mergeInside (instr : WriteStep) :
    instr.mergeInside.skeletonInside = instr.skeletonInside := by
  cases instr with
  | each list body separator terminator =>
    simp only [mergeInside, skeletonInside, skeleton_mergeLiterals body]
  | _ => rfl

theorem skeleton_mergeLiterals (code : List WriteStep) :
    skeleton (mergeLiterals code) = skeleton code := by
  cases code with
  | nil => rfl
  | cons instr rest =>
    have hrest := skeleton_mergeLiterals rest
    have hinstr := skeletonInside_mergeInside instr
    cases instr with
    | literal text => rw [mergeLiterals, skeleton_prependLiteral, hrest, skeleton]
    | _ => simp_all [mergeLiterals, skeleton, mergeInside]

end

mutual

theorem literalsInside_mergeInside_le (instr : WriteStep) :
    instr.mergeInside.literalsInside ≤ instr.literalsInside := by
  cases instr with
  | each list body separator terminator => exact literalCount_mergeLiterals_le body
  | _ => exact Nat.le_refl _

theorem literalCount_mergeLiterals_le (code : List WriteStep) :
    literalCount (mergeLiterals code) ≤ literalCount code := by
  cases code with
  | nil => exact Nat.le_refl _
  | cons instr rest =>
    have hrest := literalCount_mergeLiterals_le rest
    have hinstr := literalsInside_mergeInside_le instr
    cases instr with
    | literal text =>
      have hmerged := literalCount_prependLiteral_le text (mergeLiterals rest)
      simp only [mergeLiterals, literalCount, literalsInside]
      omega
    | _ =>
      simp only [mergeLiterals, literalCount]
      exact Nat.add_le_add hinstr hrest

end

end Kept

/-- The merged form is canonical. It tells blocks apart exactly as their characters and other
instructions do, at every level of nesting. What is merged has nothing left to merge, and is not
changed by merging; a part can be merged before the whole. Instructions other than literals stay
what they are, loops with merged bodies, and there are never more literals than before. -/
theorem mergeLiterals_canonical (a b : List WriteStep) :
    (mergeLiterals a = mergeLiterals b ↔ split a = split b) ∧
    (∀ block, Nested block (mergeLiterals a) → Merged block) ∧
    (mergeLiterals a = a ↔ ∀ block, Nested block a → Merged block) ∧
    mergeLiterals (mergeLiterals a) = mergeLiterals a ∧
    mergeLiterals (a ++ b) = mergeLiterals (mergeLiterals a ++ mergeLiterals b) ∧
    (mergeLiterals a).filter (!·.isLiteral) = (a.filter (!·.isLiteral)).map mergeInside ∧
    skeleton (mergeLiterals a) = skeleton a ∧
    literalCount (mergeLiterals a) ≤ literalCount a := by
  have hmerged (block : List WriteStep) (h : Nested block (mergeLiterals a)) : Merged block :=
    merged_of_nested h
  refine ⟨mergeLiterals_eq_iff, hmerged, ⟨?_, mergeLiterals_of_merged a⟩, ?_, ?_,
    filter_mergeLiterals a, skeleton_mergeLiterals a, literalCount_mergeLiterals_le a⟩
  · intro hfixed
    rwa [hfixed] at hmerged
  · exact mergeLiterals_eq_iff.2 (split_mergeLiterals a)
  · rw [mergeLiterals_eq_iff, split_append, split_append, split_mergeLiterals, split_mergeLiterals]

end ShapeCodec.WriteStep
