import ShapeCodec.Files.Glob
import ShapeCodec.Files.Tree
/-! Looking at a host. Reading a file, asking what is at a path and searching for the paths that a
pattern stands for leave the host as it is, and what they come to is a matter of its files alone. -/
namespace ShapeCodec.Files

/-- Whatever the host is, it stays, and what has been printed on it does not count. -/
structure Looks {α : Type} (x : StateM Host α) : Prop where
  stays : ∀ h, (x.run h).2 = h
  result : ∀ h h' : Host, h.tree = h'.tree → (x.run h).1 = (x.run h').1

namespace Looks

section Step

variable {α β : Type} {x : StateM Host α} {f : α → StateM Host β}

theorem pure (a : α) : Looks (pure a : StateM Host α) :=
  ⟨fun _ => rfl, fun _ _ _ => rfl⟩

theorem run_bind (hx : Looks x) (f : α → StateM Host β) (h : Host) :
    (x >>= f).run h = (f (x.run h).1).run h := by
  have hrun : (x >>= f).run h = (f (x.run h).1).run (x.run h).2 := rfl
  rw [hrun, hx.stays]

theorem bind (hx : Looks x) (hf : ∀ a, Looks (f a)) : Looks (x >>= f) := by
  constructor
  · intro h
    rw [hx.run_bind, (hf _).stays]
  · intro h h' htree
    rw [hx.run_bind, hx.run_bind, hx.result h h' htree]
    exact (hf _).result h h' htree

theorem map (hx : Looks x) (g : α → β) : Looks (g <$> x) :=
  ⟨hx.stays, fun h h' htree => congrArg g (hx.result h h' htree)⟩

theorem ite {p : Prop} [Decidable p] {y : StateM Host α} (hx : Looks x) (hy : Looks y) :
    Looks (if p then x else y) := by
  split
  · exact hx
  · exact hy

theorem mapM {as : List α} (h : ∀ a, Looks (f a)) : Looks (as.mapM f) := by
  induction as with
  | nil => exact pure []
  | cons a as ih =>
    rw [List.mapM_cons]
    exact (h a).bind fun b => ih.bind fun bs => pure (b :: bs)

end Step

section Tree

/-- An operation that hands out something about the files. -/
theorem of_tree {α : Type} (f : FileTree → α) : Looks fun h : Host => (f h.tree, h) :=
  ⟨fun _ => rfl, fun _ _ htree => congrArg f htree⟩

variable (path : String)

theorem readText : Looks (FileSystem.readText path : StateM Host _) :=
  of_tree fun t => t.readText path

theorem kind? : Looks (FileSystem.kind? path : StateM Host _) :=
  of_tree fun t => t.kind? path

theorem names : Looks (FileSystem.names path : StateM Host _) :=
  of_tree fun t => t.names path

end Tree

section Glob

variable {onlyDirectories : Bool}

theorem isDirectory (path : String) : Looks (Glob.isDirectory path : StateM Host Bool) :=
  (kind? path).bind fun _ => pure _

theorem found (path : String) :
    Looks (Glob.found onlyDirectories path : StateM Host (List String)) := by
  rw [Glob.found]
  exact .ite ((isDirectory path).bind fun _ => pure _) (pure _)

/-- Within a number of steps, searching only looks. -/
structure Searching (onlyDirectories : Bool) (steps : Nat) : Prop where
  search : ∀ parts path,
    Looks (Glob.search onlyDirectories steps parts path : StateM Host _)
  advance : ∀ parts path,
    Looks (Glob.advance onlyDirectories steps parts path : StateM Host _)
  visit : ∀ parts path,
    Looks (Glob.visit onlyDirectories steps parts path : StateM Host _)
  compare : ∀ tokens parts path,
    Looks (Glob.compare onlyDirectories steps tokens parts path : StateM Host _)

namespace Searching

theorem zero : Searching onlyDirectories 0 where
  search parts _ := by cases parts <;> exact pure []
  advance _ _ := pure []
  visit parts _ := by cases parts <;> exact pure []
  compare _ _ _ := pure []

variable {steps : Nat}

theorem search_succ (h : Searching onlyDirectories steps) (parts : List (List PatternToken))
    (path : String) :
    Looks (Glob.search onlyDirectories (steps + 1) parts path : StateM Host _) := by
  cases parts with
  | nil => exact pure []
  | cons tokens rest =>
    rw [Glob.search]
    split
    · next letters _ =>
      have hgo (present : Bool) : Looks (if present then
          Glob.advance onlyDirectories steps rest (Glob.below path (String.ofList letters))
          else Pure.pure [] : StateM Host (List String)) :=
        .ite (h.advance _ _) (pure _)
      exact .ite ((isDirectory path).bind hgo) ((kind? _).bind fun _ => (pure _).bind hgo)
    · refine (isDirectory path).bind fun _ => .ite ?_ (pure _)
      refine (mapM fun name => h.advance _ _).bind fun special => ?_
      refine (names path).bind fun children => ?_
      exact (mapM fun name => h.visit _ _).bind fun ordinary => pure _

theorem advance_succ (h : Searching onlyDirectories steps) (parts : List (List PatternToken))
    (path : String) :
    Looks (Glob.advance onlyDirectories (steps + 1) parts path : StateM Host _) := by
  cases parts with
  | nil => exact found path
  | cons tokens rest => exact h.search _ _

theorem compare_succ (h : Searching onlyDirectories steps) (tokens : List PatternToken)
    (parts : List (List PatternToken)) (path : String) :
    Looks (Glob.compare onlyDirectories (steps + 1) tokens parts path : StateM Host _) := by
  rw [Glob.compare]
  split
  · exact .ite (h.advance _ _) (pure _)
  · exact pure _

theorem visit_succ (h : Searching onlyDirectories steps) (parts : List (List PatternToken))
    (path : String) :
    Looks (Glob.visit onlyDirectories (steps + 1) parts path : StateM Host _) := by
  cases parts with
  | nil => exact pure []
  | cons tokens rest =>
    rw [Glob.visit]
    refine .ite ?_ (h.compare _ _ _)
    refine (isDirectory path).bind fun _ =>
      .ite ((h.search _ _).bind fun deeper => ?_) ((pure _).bind fun deeper => ?_)
    all_goals
      split
      · exact (isDirectory path).bind fun _ => pure _
      · exact (h.compare _ _ _).bind fun _ => pure _

theorem of_steps (steps : Nat) : Searching onlyDirectories steps := by
  induction steps with
  | zero => exact zero
  | succ steps ih => exact ⟨ih.search_succ, ih.advance_succ, ih.visit_succ, ih.compare_succ⟩

end Searching

theorem expand (pattern : String) :
    Looks (Glob.expand pattern : StateM Host (Except PatternError (List String))) := by
  unfold Glob.expand
  dsimp only
  split
  · exact pure _
  · exact ((Searching.of_steps _).search _ _).map _

end Glob

end Looks

end ShapeCodec.Files
