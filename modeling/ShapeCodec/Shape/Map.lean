import ShapeCodec.Shape
/-! Maps from shapes, as lists that are searched from the front. -/
namespace ShapeCodec

/-- What shapes have, in the order in which the shapes came first. -/
abbrev ShapeMap (α : Type) := List (Shape × α)

namespace ShapeMap

variable {α : Type}

def shapes (m : ShapeMap α) : List Shape :=
  m.map Prod.fst

def get? (m : ShapeMap α) (shape : Shape) : Option α :=
  (m.find? fun entry => entry.1 = shape).map Prod.snd

/-- Changes what a shape has. A new shape goes to the end, and starts from the given value. -/
def update (shape : Shape) (start : α) (change : α → α) : ShapeMap α → ShapeMap α
  | [] => [(shape, change start)]
  | (other, a) :: rest =>
    if other = shape then (other, change a) :: rest
    else (other, a) :: ShapeMap.update shape start change rest

/-- A shape that is there keeps its place. -/
def insert (shape : Shape) (a : α) (m : ShapeMap α) : ShapeMap α :=
  m.update shape a fun _ => a

theorem mem_shapes_of_get? {m : ShapeMap α} {shape : Shape} {a : α} (h : m.get? shape = some a) :
    shape ∈ m.shapes := by
  obtain ⟨entry, hentry, rfl⟩ := Option.map_eq_some_iff.1 h
  obtain rfl : entry.1 = shape := by simpa using List.find?_some hentry
  exact List.mem_map_of_mem (List.mem_of_find?_eq_some hentry)

theorem get?_append (m more : ShapeMap α) (shape : Shape) :
    ShapeMap.get? (m ++ more) shape = (m.get? shape).or (more.get? shape) := by
  simp only [get?, List.find?_append]
  cases List.find? (fun entry => entry.1 = shape) m <;> rfl

theorem get?_update (shape other : Shape) (start : α) (change : α → α) (m : ShapeMap α) :
    (m.update shape start change).get? other =
      if shape = other then some (change ((m.get? shape).getD start)) else m.get? other := by
  induction m with
  | nil => by_cases h : shape = other <;> simp [update, get?, h]
  | cons entry rest ih =>
    obtain ⟨key, a⟩ := entry
    by_cases hkey : key = shape
    · subst hkey
      by_cases h : key = other <;> simp [update, get?, h]
    · by_cases h : shape = other
      · subst h
        simpa [update, get?, hkey] using ih
      · by_cases hother : key = other
        · subst hother
          simp [update, get?, hkey, h]
        · simpa [update, get?, hkey, h, hother] using ih

theorem mem_shapes_update {shape other : Shape} {start : α} {change : α → α} {m : ShapeMap α} :
    other ∈ (m.update shape start change).shapes ↔ other = shape ∨ other ∈ m.shapes := by
  induction m with
  | nil => simp [update, shapes]
  | cons entry rest ih =>
    obtain ⟨key, a⟩ := entry
    by_cases hkey : key = shape
    · simp [update, shapes, hkey]
    · simp only [shapes] at ih
      simp only [update, if_neg hkey, shapes, List.map_cons, List.mem_cons, ih]
      exact or_left_comm

theorem update_of_notMem {shape : Shape} {m : ShapeMap α} (h : shape ∉ m.shapes) (start : α)
    (change : α → α) : m.update shape start change = m ++ [(shape, change start)] := by
  induction m with
  | nil => rfl
  | cons entry rest ih =>
    obtain ⟨key, a⟩ := entry
    simp only [shapes, List.map_cons, List.mem_cons, not_or] at h
    rw [update, if_neg (Ne.symm h.1), ih h.2, List.cons_append]

end ShapeMap

end ShapeCodec
