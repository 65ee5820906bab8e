import ShapeCodec.Document
import ShapeCodec.Proofs.Declaring
import ShapeCodec.Proofs.Running
/-! Documents merged into one schema. Types come before call sites in each document, but declaring
does not look at call sites, so what counts is the order among the types and the order among the
call sites. Documents that follow one another can be glued into one. -/
namespace ShapeCodec

namespace Schema

/-- A schema with more call sites behind its own. -/
def addCalls (s : Schema) (more : List CallSite) : Schema :=
  { s with calls := s.calls ++ more }

theorem addCalls_nil (s : Schema) : s.addCalls [] = s := by
  simp [addCalls]

theorem addCalls_addCalls (s : Schema) (a b : List CallSite) :
    (s.addCalls a).addCalls b = s.addCalls (a ++ b) := by
  simp [addCalls]

/-- Whether a type can be declared does not depend on the call sites. -/
theorem declare_addCalls (s : Schema) (more : List CallSite) (decl : Declaration) :
    (s.addCalls more).declare decl = (s.declare decl).map (·.addCalls more) := by
  rcases valid_or_refused (s.types.map Declaration.name) decl with ⟨hvalid, hfresh⟩ | ⟨e, hrefused⟩
  · have hdeclared := isDeclared_eq_false_iff.2 hfresh
    have hmore : (s.addCalls more).isDeclared decl.name = false := hdeclared
    rw [declare, declare, Declaration.addTo_of_valid hvalid hdeclared,
      Declaration.addTo_of_valid hvalid hmore]
    rfl
  · have hmore : decl.Refused ((s.addCalls more).types.map Declaration.name) e := hrefused
    rw [declare, declare, Declaration.addTo_of_refused hrefused,
      Declaration.addTo_of_refused hmore]
    rfl

theorem declareAll_addCalls (s : Schema) (more : List CallSite) (decls : List Declaration) :
    (s.addCalls more).declareAll decls = (s.declareAll decls).map (·.addCalls more) := by
  induction decls generalizing s with
  | nil => rfl
  | cons decl decls ih =>
    rw [declareAll, declareAll, List.foldlM_cons, List.foldlM_cons, declare_addCalls]
    cases s.declare decl with
    | error e => rfl
    | ok s' => exact ih s'

end Schema

namespace Document

/-- The call site that a document asks for. -/
def site (call : DocumentCall) : CallSite :=
  ⟨call.direction, .ofText call.expression⟩

theorem addCalls_apply (calls : List DocumentCall) (s : Schema) :
    addCalls calls s = .ok () (s.addCalls (calls.map site)) := by
  have hfold : calls.foldl (fun s call => s.call call.direction (.ofText call.expression)) s =
      s.addCalls (calls.map site) := by
    induction calls generalizing s with
    | nil => rw [List.foldl_nil, List.map_nil, Schema.addCalls_nil]
    | cons call calls ih =>
      rw [List.foldl_cons, ih, List.map_cons]
      exact s.addCalls_addCalls [site call] (calls.map site)
  rw [← hfold]
  rfl

/-- Adding types one after the other, where the schema that a refusal leaves is forgotten. -/
theorem declareAll_decls (types : List DocumentType) (s : Schema) :
    s.declareAll (types.map DocumentType.decl) =
      match (types.forM fun type => type.decl.addTo : Declaring Unit) s with
      | .ok _ s => .ok s
      | .error e _ => .error e := by
  induction types generalizing s with
  | nil => rfl
  | cons type types ih =>
    rw [List.map_cons, Schema.declareAll, List.foldlM_cons, Schema.declare, List.forM,
      Running.bind_apply]
    cases type.decl.addTo s with
    | ok _ s' => exact ih s'
    | error e s' => rfl

/-- A document declares its types, and if none is refused adds its call sites and options. -/
theorem add_eq (s : Schema) (options : Options) (d : Document) :
    add (s, options) d = (s.declareAll (d.types.map DocumentType.decl)).map fun s' =>
      (s'.addCalls (d.calls.map site), d.mergeOptions options) := by
  rw [add, addTo, declareAll_decls]
  cases hrun : (d.types.forM fun type => type.decl.addTo : Declaring Unit) s with
  | ok _ s' =>
    rw [Running.bind_of_ok hrun, addCalls_apply]
    rfl
  | error e s' =>
    rw [Running.bind_of_error hrun]
    rfl

/-- Two documents as one. A flag that either sets is set. -/
def glue (a b : Document) : Document :=
  ⟨a.types ++ b.types, a.calls ++ b.calls, a.options.merge Options.merge b.options⟩

/-- Documents that follow one another as one. -/
def glueAll (documents : List Document) : Document :=
  documents.foldr glue ⟨[], [], none⟩

theorem mergeOptions_glue (a b : Document) (options : Options) :
    (glue a b).mergeOptions options = b.mergeOptions (a.mergeOptions options) := by
  cases ha : a.options <;> cases hb : b.options <;>
    simp [mergeOptions, glue, ha, hb, Options.merge, Bool.or_assoc]

theorem add_glue_eq (s : Schema) (options : Options) (a b : Document) :
    add (s, options) (glue a b) =
      (s.declareAll (a.types.map DocumentType.decl ++ b.types.map DocumentType.decl)).map fun s' =>
        ((s'.addCalls (a.calls.map site)).addCalls (b.calls.map site),
          b.mergeOptions (a.mergeOptions options)) := by
  simp only [add_eq, mergeOptions_glue, Schema.addCalls_addCalls, ← List.map_append]
  rfl

/-- The types of the second document can be declared before or after the call sites of the first. -/
theorem add_glue (done : Schema × Options) (a b : Document) :
    add done (glue a b) = add done a >>= fun done => add done b := by
  obtain ⟨s, options⟩ := done
  rw [add_glue_eq, add_eq, Schema.declareAll, List.foldlM_append]
  change ((s.declareAll _ >>= fun mid => mid.declareAll _).map _) = _
  cases s.declareAll (a.types.map DocumentType.decl) with
  | error e => rfl
  | ok mid =>
    have hsecond := add_eq (mid.addCalls (a.calls.map site)) (a.mergeOptions options) b
    rw [Schema.declareAll_addCalls] at hsecond
    refine Eq.trans ?_ hsecond.symm
    change (mid.declareAll (b.types.map DocumentType.decl)).map _ = _
    cases mid.declareAll (b.types.map DocumentType.decl) <;> rfl

theorem add_glueAll (done : Schema × Options) (documents : List Document) :
    add done (glueAll documents) = addAll done documents := by
  induction documents generalizing done with
  | nil =>
    rw [glueAll, List.foldr_nil, add_eq]
    simp only [List.map_nil, Schema.declareAll, Except.map, Schema.addCalls_nil, mergeOptions]
    rfl
  | cons d documents ih =>
    have hsplit : glueAll (d :: documents) = glue d (glueAll documents) := rfl
    rw [hsplit, add_glue, addAll, List.foldlM_cons]
    exact bind_congr fun done => ih done

/-- Documents lead to the same schema and options, or to the same fault, if any that follow one
another are glued into one. -/
theorem addAll_glue (done : Schema × Options) (groups : List (List Document)) :
    addAll done (groups.map glueAll) = addAll done groups.flatten := by
  induction groups generalizing done with
  | nil => rfl
  | cons group groups ih =>
    rw [List.map_cons, List.flatten_cons, addAll, addAll, List.foldlM_cons, List.foldlM_append,
      add_glueAll]
    exact bind_congr fun done => ih done

end Document

end ShapeCodec
