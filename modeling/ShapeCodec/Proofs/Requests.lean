import Mathlib.Data.List.Induction
import ShapeCodec.Proofs.Code
import ShapeCodec.Proofs.Emission
/-! Emitters that serve requests of every kind in any order. Emission calls itself for children
while the routine of their parent is still pending, so nothing is said of the table in between; what
is said holds whenever a request has been served, and rests on what emission adds to any well-formed
table. -/
namespace ShapeCodec.Emitter

/-- What can be asked of an emitter. -/
inductive Request where
  | emit (shape : Shape) (direction : Direction)
  | stub (shape : Shape) (direction : Direction) (cause : StubCause)
  /-- A layout, whose children get their routines from the emitter. -/
  | layout (shape : Shape) (direction : Direction)
  | report (d : Diagnostic)

/-- The emitter after a request, whether there was an answer or a fault. -/
def serve (e : Emitter) : Request → Emitter
  | .emit shape direction => (emit shape direction e).2
  | .stub shape direction cause => (Emitter.stub shape direction cause e).2
  | .layout shape direction =>
    match Emitter.layout shape direction e with
    | .ok _ e => e
    | .error _ e => e
  | .report d => e.report d

/-- A new emitter after requests in order. -/
def served (s : Schema) (requests : List Request) : Emitter :=
  requests.foldl serve (ofSchema s)

/-- The order of a table between requests. -/
structure Orderly (s : Schema) (requests : List Request) (e : Emitter) : Prop where
  numbered : ∀ (i : Nat) (r : Routine), e.routines[i]? = some r → r.id = ⟨i⟩
  nodup : (e.routines.map Routine.key).Nodup
  cached : ∀ shape direction id,
    e.cache.get? shape direction = some id ↔ Table.At e.routines id shape direction
  written : ∀ r ∈ e.routines, ∀ code, r.body = .write code → r.WritesBy s e.routines code
  planned : ∀ r ∈ e.routines, ∀ plan, r.body = .read plan → r.ReadsBy s e.routines plan
  pending : ∀ r ∈ e.routines, r.body = .stub .pending →
    Request.stub r.shape r.direction .pending ∈ requests

/-- The routine is a stub, or has the code for a layout of its shape. -/
structure Coded (s : Schema) (table : List Routine) (r : Routine) : Prop where
  fieldCount : r.fieldCount = fieldCount? s r.shape
  body : (∃ cause, r.body = .stub cause) ∨ ∃ layout,
    Layout.For s table r.direction r.shape layout ∧ bodyOf s layout r.direction = .ok r.body

variable {s : Schema} {e e' : Emitter} {root shape : Shape} {direction : Direction}
  {requests : List Request} {table more : List Routine} {r : Routine}

section Coded

theorem Coded.append (h : Coded s table r) (more : List Routine) : Coded s (table ++ more) r := by
  refine ⟨h.fieldCount, h.body.imp_right ?_⟩
  rintro ⟨layout, hlayout, hbody⟩
  exact ⟨layout, hlayout.congr fun _ _ hat => hat.append more, hbody⟩

theorem coded_of_faithful (h : r.Faithful s table) : Coded s table r := by
  refine ⟨h.fieldCount, ?_⟩
  cases hfault : s.routineFault? r.direction r.shape with
  | some fault => exact .inl ⟨_, h.stub fault hfault⟩
  | none => exact .inr (h.code hfault)

theorem not_pending_of_faithful (h : r.Faithful s table) : r.body ≠ .stub .pending := by
  cases hfault : s.routineFault? r.direction r.shape with
  | some fault => simp [h.stub fault hfault]
  | none =>
    cases hdirection : r.direction with
    | serialize =>
      obtain ⟨layout, -, hbody⟩ := h.writeCode hdirection (hdirection ▸ hfault)
      simp [hbody]
    | deserialize =>
      obtain ⟨layout, plan, -, -, hbody⟩ := h.readCode hdirection (hdirection ▸ hfault)
      simp [hbody]

theorem Coded.writesBy (h : Coded s table r) {code : List WriteStep}
    (hcode : r.body = .write code) : r.WritesBy s table code := by
  rcases h.body with ⟨cause, hstub⟩ | ⟨layout, hlayout, hbody⟩
  · simp [hcode] at hstub
  · cases hdirection : r.direction with
    | serialize =>
      rw [hdirection] at hlayout hbody
      simp only [bodyOf, hcode, Except.ok.injEq, RoutineCode.write.injEq] at hbody
      exact hbody ▸ hlayout.writesBy hdirection h.fieldCount
    | deserialize =>
      rw [hdirection] at hbody
      cases hplan : layout.readPlan s <;> simp [bodyOf, hplan, hcode, Except.map] at hbody

theorem Coded.readsBy (h : Coded s table r) {plan : ReadPlan} (hplan : r.body = .read plan) :
    r.ReadsBy s table plan := by
  rcases h.body with ⟨cause, hstub⟩ | ⟨layout, hlayout, hbody⟩
  · simp [hplan] at hstub
  · cases hdirection : r.direction with
    | serialize =>
      rw [hdirection] at hbody
      simp [bodyOf, hplan] at hbody
    | deserialize =>
      rw [hdirection] at hlayout hbody
      cases hread : layout.readPlan s with
      | error fault => simp [bodyOf, hread, Except.map] at hbody
      | ok plan' =>
        simp only [bodyOf, hread, hplan, Except.map, Except.ok.injEq, RoutineCode.read.injEq]
          at hbody
        exact hlayout.readsBy hdirection h.fieldCount (hbody ▸ hread)

end Coded

/-- What every request keeps. -/
structure Kept (s : Schema) (requests : List Request) (e : Emitter) : Prop where
  schema : e.schema = s
  wellFormed : e.WellFormed
  coded : ∀ r ∈ e.routines, Coded s e.routines r
  pending : ∀ r ∈ e.routines, r.body = .stub .pending →
    Request.stub r.shape r.direction .pending ∈ requests

theorem kept_ofSchema (s : Schema) : Kept s [] (ofSchema s) :=
  ⟨rfl, wellFormed_ofSchema s, by simp [ofSchema], by simp [ofSchema]⟩

theorem Kept.orderly (h : Kept s requests e) : Orderly s requests e where
  numbered := h.wellFormed.numbered
  nodup := h.wellFormed.nodup
  cached := h.wellFormed.cached
  written r hr _ hcode := (h.coded r hr).writesBy hcode
  planned r hr _ hplan := (h.coded r hr).readsBy hplan
  pending := h.pending

section Serve

/-- Emission keeps everything: what it adds is faithful, and so never pending. -/
theorem Kept.grows (h : Kept s requests e) (hwell : e'.WellFormed)
    (hgrows : Grows root direction e e') : Kept s requests e' ∧ e.routines <+: e'.routines := by
  obtain ⟨new, said, hemits⟩ := hgrows
  have hfaithful : ∀ r ∈ new, r.Faithful s e'.routines := h.schema ▸ hemits.faithful
  refine ⟨⟨hemits.schema.trans h.schema, hwell, ?_, ?_⟩, hemits.routines ▸ List.prefix_append _ _⟩
  · intro r hr
    rw [hemits.routines, List.mem_append] at hr
    rcases hr with hr | hr
    · rw [hemits.routines]
      exact (h.coded r hr).append new
    · exact coded_of_faithful (hfaithful r hr)
  · intro r hr hpending
    rw [hemits.routines, List.mem_append] at hr
    rcases hr with hr | hr
    · exact h.pending r hr hpending
    · exact absurd hpending (not_pending_of_faithful (hfaithful r hr))

theorem Kept.stub (h : Kept s requests e) (shape : Shape) (direction : Direction)
    (cause : StubCause) :
    Kept s (requests ++ [.stub shape direction cause]) (Emitter.stub shape direction cause e).2 ∧
      e.routines <+: (Emitter.stub shape direction cause e).2.routines := by
  unfold Emitter.stub
  cases hfind : e.find? shape direction with
  | some id =>
    exact ⟨⟨h.schema, h.wellFormed, h.coded, fun r hr hpending =>
      List.mem_append_left _ (h.pending r hr hpending)⟩, List.prefix_rfl⟩
  | none =>
    refine ⟨⟨h.schema, h.wellFormed.reserve hfind cause, ?_, ?_⟩, List.prefix_append _ _⟩
    · intro r hr
      rcases List.mem_append.1 hr with hr | hr
      · exact (h.coded r hr).append _
      · obtain rfl := List.mem_singleton.1 hr
        exact ⟨by rw [h.schema], .inl ⟨cause, rfl⟩⟩
    · intro r hr hpending
      rcases List.mem_append.1 hr with hr | hr
      · exact List.mem_append_left _ (h.pending r hr hpending)
      · obtain rfl := List.mem_singleton.1 hr
        cases hpending
        exact List.mem_append_right _ List.mem_cons_self

theorem parts_subset_closure {child : Shape} (h : child ∈ s.closure root) :
    child.parts ⊆ s.closure root := by
  induction child with
  | list element nullable ih =>
    exact List.cons_subset.2 ⟨h, ih (Schema.element_mem_closure h)⟩
  | _ => simpa [Shape.parts] using h

/-- What lies in the closure of a child lies in that of its parent. -/
theorem closure_subset {child : Shape} (h : child ∈ s.closure root) :
    s.closure child ⊆ s.closure root :=
  List.append_subset.2 ⟨parts_subset_closure h, List.subset_append_right _ _⟩

theorem Grows.widen {child : Shape} (h : Grows child direction e e')
    (hchild : child ∈ e.schema.closure root) : Grows root direction e e' := by
  obtain ⟨new, said, h⟩ := h
  exact ⟨new, said, h.schema, h.routines, h.diagnostics, h.faithful, h.warnings,
    fun r hr => ⟨(h.scope r hr).1, closure_subset hchild (h.scope r hr).2⟩⟩

/-- An emitter serves as the resolver for a layout. -/
theorem resolves_emit (s : Schema) (root : Shape) (direction : Direction) :
    Resolves s (fun e => e.WellFormed ∧ e.schema = s) root direction
      (fun child => emit child direction) := by
  rintro e child ⟨hwell, rfl⟩ hchild
  obtain ⟨hwell', hgrows, hat⟩ := emit_answers hwell child direction
  exact ⟨⟨hwell', hgrows.schema⟩, hgrows.widen hchild, hat⟩

theorem Kept.layout (h : Kept s requests e) (shape : Shape) (direction : Direction) :
    Kept s requests (e.serve (.layout shape direction)) ∧
      e.routines <+: (e.serve (.layout shape direction)).routines := by
  have hbuilds := build_builds (resolves_emit s shape direction) ⟨h.wellFormed, h.schema⟩
    (Schema.self_mem_closure s shape)
  rw [← h.schema] at hbuilds
  rw [serve, Emitter.layout]
  cases hbuild : Layout.build e.schema (fun child => emit child direction) shape e with
  | ok layout e' =>
    rw [hbuild] at hbuilds
    exact h.grows hbuilds.1.1 hbuilds.2.1
  | error fault e' =>
    rw [hbuild] at hbuilds
    exact h.grows hbuilds.1.1 hbuilds.2.1

theorem Kept.later (h : Kept s requests e) (request : Request) :
    Kept s (requests ++ [request]) e :=
  ⟨h.schema, h.wellFormed, h.coded, fun r hr hpending =>
    List.mem_append_left _ (h.pending r hr hpending)⟩

/-- A request keeps the table in order and adds routines behind those that are there. -/
theorem Kept.serve (h : Kept s requests e) (request : Request) :
    Kept s (requests ++ [request]) (e.serve request) ∧
      e.routines <+: (e.serve request).routines := by
  cases request with
  | emit shape direction =>
    obtain ⟨hwell, hgrows, -⟩ := emit_answers h.wellFormed shape direction
    exact (h.later _).grows hwell hgrows
  | stub shape direction cause => exact h.stub shape direction cause
  | layout shape direction => exact (h.later _).layout shape direction
  | report d =>
    exact ⟨⟨h.schema, h.wellFormed.report d, h.coded, (h.later _).pending⟩, List.prefix_rfl⟩

theorem served_append (s : Schema) (requests : List Request) (request : Request) :
    served s (requests ++ [request]) = (served s requests).serve request := by
  simp [served]

theorem kept_served (s : Schema) (requests : List Request) :
    Kept s requests (served s requests) := by
  induction requests using List.reverseRecOn with
  | nil => exact kept_ofSchema s
  | append_singleton requests request ih =>
    rw [served_append]
    exact (ih.serve request).1

end Serve

/-- After any sequence of requests the table is in order, and the next request leaves the routines
that are there as they are. -/
theorem requests_orderly (s : Schema) (requests : List Request) :
    Orderly s requests (served s requests) ∧
      ∀ request, (served s requests).routines <+: (served s (requests ++ [request])).routines := by
  have hkept := kept_served s requests
  refine ⟨hkept.orderly, fun request => ?_⟩
  rw [served_append]
  exact (hkept.serve request).2

end ShapeCodec.Emitter
