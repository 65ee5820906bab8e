import ShapeCodec.Json
/-! Objects that repeat no key, in which every member keeps its place and its value. Members put in
one by one repeat none. -/
namespace ShapeCodec.Json

mutual

/-- No object of the value repeats a key. -/
def DistinctKeys : Json → Prop
  | array items => DistinctKeysInItems items
  | object members => (members.map Prod.fst).Nodup ∧ DistinctKeysInMembers members
  | _ => True

def DistinctKeysInItems : List Json → Prop
  | [] => True
  | item :: rest => item.DistinctKeys ∧ DistinctKeysInItems rest

def DistinctKeysInMembers : List (String × Json) → Prop
  | [] => True
  | (_, value) :: rest => value.DistinctKeys ∧ DistinctKeysInMembers rest

end

/-- A new key goes to the end. -/
theorem insertMember_of_notMem {key : String} {value : Json} {before : List (String × Json)}
    (h : key ∉ before.map Prod.fst) : insertMember key value before = before ++ [(key, value)] := by
  induction before with
  | nil => rfl
  | cons member before ih =>
    simp only [List.map_cons, List.mem_cons, not_or] at h
    rw [insertMember, if_neg (Ne.symm h.1), ih h.2, List.cons_append]

section Insert

variable {key : String} {value : Json} {members : List (String × Json)}

theorem keys_insertMember (key : String) (value : Json) (members : List (String × Json)) :
    (insertMember key value members).map Prod.fst =
      if key ∈ members.map Prod.fst then members.map Prod.fst else members.map Prod.fst ++ [key] := by
  induction members with
  | nil => rfl
  | cons member members ih =>
    obtain ⟨other, old⟩ := member
    rw [insertMember]
    split
    · next h => simp [h]
    · next h =>
      rw [List.map_cons, ih, List.map_cons]
      have hkey : key ≠ other := Ne.symm h
      split <;> simp_all

theorem nodup_insertMember (h : (members.map Prod.fst).Nodup) :
    ((insertMember key value members).map Prod.fst).Nodup := by
  rw [keys_insertMember]
  split
  · exact h
  · next hfresh =>
    refine List.nodup_append.2 ⟨h, by simp, fun other hother last hlast => ?_⟩
    rintro rfl
    exact hfresh (List.mem_singleton.1 hlast ▸ hother)

theorem distinctKeysInMembers_insertMember (hvalue : value.DistinctKeys)
    (h : DistinctKeysInMembers members) : DistinctKeysInMembers (insertMember key value members) := by
  induction members with
  | nil => exact ⟨hvalue, trivial⟩
  | cons member members ih =>
    obtain ⟨other, old⟩ := member
    rw [insertMember]
    split
    · exact ⟨hvalue, h.2⟩
    · exact ⟨h.1, ih h.2⟩

end Insert

mutual

theorem distinct_of_distinctKeys : ∀ json : Json, json.DistinctKeys → json.distinct = json
  | null, _ | bool _, _ | number _, _ | string _, _ => rfl
  | array items, h => by
    rw [distinct, distinctItems_of_distinctKeys items h]
  | object members, h => by
    rw [distinct, distinctMembers_of_distinctKeys members [] h.1 h.2, List.nil_append]

theorem distinctItems_of_distinctKeys :
    ∀ items : List Json, DistinctKeysInItems items → distinctItems items = items
  | [], _ => rfl
  | item :: rest, h => by
    rw [distinctItems, distinct_of_distinctKeys item h.1, distinctItems_of_distinctKeys rest h.2]

theorem distinctMembers_of_distinctKeys :
    ∀ (members before : List (String × Json)), ((before ++ members).map Prod.fst).Nodup →
      DistinctKeysInMembers members → distinctMembers before members = before ++ members
  | [], before, _, _ => by rw [distinctMembers, List.append_nil]
  | (key, value) :: rest, before, hnodup, h => by
    have hfresh : key ∉ before.map Prod.fst := by
      simp only [List.map_append, List.map_cons, List.nodup_append] at hnodup
      exact fun hmem => hnodup.2.2 key hmem key List.mem_cons_self rfl
    rw [distinctMembers, distinct_of_distinctKeys value h.1, insertMember_of_notMem hfresh,
      distinctMembers_of_distinctKeys rest _ (by simpa using hnodup) h.2]
    simp

end

end ShapeCodec.Json
