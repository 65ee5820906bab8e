import ShapeCodec.Command
import ShapeCodec.Proofs.Default
import ShapeCodec.Proofs.Files.Looking
/-! Steps of a command that change no file and print nothing, though they may report. What such a
step comes to is a matter of the files alone: those at the paths it was given, the schema that they
hold, and the codec that is generated for it. -/
namespace ShapeCodec

namespace Files.Host

/-- From one host to another, at most something has been reported. -/
structure OnlyReports (h h' : Host) : Prop where
  tree : h'.tree = h.tree
  stdout : h'.stdout = h.stdout

theorem OnlyReports.refl (h : Host) : OnlyReports h h :=
  ⟨rfl, rfl⟩

theorem OnlyReports.trans {h h' h'' : Host} (first : OnlyReports h h')
    (second : OnlyReports h' h'') : OnlyReports h h'' :=
  ⟨second.tree.trans first.tree, second.stdout.trans first.stdout⟩

theorem onlyReports_forM {α : Type} (as : List α) (text : α → String) (h : Host) :
    OnlyReports h ((as.forM fun a => FileSystem.report (text a) : StateM Host Unit).run h).2 := by
  induction as generalizing h with
  | nil => exact .refl h
  | cons a as ih =>
    have hfirst : OnlyReports h { h with stderr := h.stderr ++ text a } := ⟨rfl, rfl⟩
    exact hfirst.trans (ih _)

end Files.Host

namespace Command

open Files (FileSystem FileTree Host Looks)

variable {t : FileTree} {h h' : Host} {α β : Type}

theorem run_bind_of_eq {σ α β : Type} {x : StateM σ α} {f : α → StateM σ β} {st st' : σ} {a : α}
    (h : x.run st = (a, st')) : (x >>= f).run st = (f a).run st' := by
  rw [StateT.run_bind, h]
  rfl

/-- On any host with these files a step at most reports, and comes to what a property holds of. If
that is nothing, it ends with a fault. -/
structure Settles (t : FileTree) (x : Step (StateM Host) α) (P : α → Prop) : Prop where
  quiet : ∀ h : Host, h.tree = t → h.OnlyReports (x.run.run h).2
  result : ∀ h : Host, h.tree = t → ∀ a, (x.run.run h).1 = .ok a ↔ P a

namespace Settles

variable {x : Step (StateM Host) α} {f : α → Step (StateM Host) β} {P Q : α → Prop}
  {R : α → β → Prop}

section Run

theorem run_of_ok (hx : Settles h.tree x P) {a : α} (ha : P a) :
    ∃ h', x.run.run h = (.ok a, h') ∧ h.OnlyReports h' :=
  ⟨_, Prod.ext ((hx.result h rfl a).2 ha) rfl, hx.quiet h rfl⟩

theorem run_of_not (hx : Settles h.tree x P) (hnone : ¬ ∃ a, P a) :
    ∃ e h', x.run.run h = (.error e, h') ∧ h.OnlyReports h' := by
  cases hresult : (x.run.run h).1 with
  | ok a => exact absurd ⟨a, (hx.result h rfl a).1 hresult⟩ hnone
  | error e => exact ⟨e, _, Prod.ext hresult rfl, hx.quiet h rfl⟩

theorem run_bind_of_ok {a : α} (hx : x.run.run h = (.ok a, h')) :
    (x >>= f).run.run h = (f a).run.run h' := by
  rw [ExceptT.run_bind, run_bind_of_eq hx]

theorem run_bind_of_error {e : CommandError} (hx : x.run.run h = (.error e, h')) :
    (x >>= f).run.run h = (.error e, h') := by
  rw [ExceptT.run_bind, run_bind_of_eq hx]
  rfl

theorem run_lift {y : StateM Host α} {a : α} (hy : y.run h = (a, h')) :
    (ExceptT.lift y).run.run h = ((.ok a : Except CommandError α), h') := by
  simp only [ExceptT.run_lift, StateT.run_map, hy]
  rfl

end Run

theorem congr (hx : Settles t x P) (hiff : ∀ a, P a ↔ Q a) : Settles t x Q :=
  ⟨hx.quiet, fun h htree a => (hx.result h htree a).trans (hiff a)⟩

/-- A result that is there whatever the files are. -/
theorem except (r : Except CommandError α) :
    Settles t (ExceptT.mk (Pure.pure r)) (r = .ok ·) :=
  ⟨fun h _ => .refl h, fun _ _ _ => .rfl⟩

theorem pure (a : α) : Settles t (Pure.pure a) (a = ·) :=
  ⟨fun h _ => .refl h, fun _ _ b => (Except.ok.injEq a b).to_iff⟩

theorem throw (e : CommandError) : Settles t (throw e : Step (StateM Host) α) fun _ => False :=
  ⟨fun h _ => .refl h, fun _ _ _ => iff_of_false nofun id⟩

theorem report {ι : Type} (as : List ι) (text : ι → String) :
    Settles t (ExceptT.lift (as.forM fun a => FileSystem.report (text a))) fun _ => True :=
  ⟨fun h _ => Host.onlyReports_forM as text h, fun _ _ _ => iff_of_true rfl trivial⟩

theorem bind (hx : Settles t x P) (hf : ∀ a, P a → Settles t (f a) (R a)) :
    Settles t (x >>= f) fun b => ∃ a, P a ∧ R a b := by
  -- where the first step ends, the files are what they were, so the second settles there
  have hrun (h : Host) (htree : h.tree = t) :
      (∃ a h', P a ∧ h'.tree = t ∧ h.OnlyReports h' ∧
        (x >>= f).run.run h = (f a).run.run h') ∨
      (∃ e h', (¬ ∃ a, P a) ∧ h.OnlyReports h' ∧ (x >>= f).run.run h = (.error e, h')) := by
    subst htree
    by_cases hsome : ∃ a, P a
    · obtain ⟨a, ha⟩ := hsome
      obtain ⟨h', hok, hquiet⟩ := hx.run_of_ok ha
      exact .inl ⟨a, h', ha, hquiet.tree, hquiet, run_bind_of_ok hok⟩
    · obtain ⟨e, h', herror, hquiet⟩ := hx.run_of_not hsome
      exact .inr ⟨e, h', hsome, hquiet, run_bind_of_error herror⟩
  constructor
  · intro h htree
    rcases hrun h htree with ⟨a, h', ha, htree', hquiet, heq⟩ | ⟨e, h', -, hquiet, heq⟩
    · rw [heq]
      exact hquiet.trans ((hf a ha).quiet h' htree')
    · rw [heq]
      exact hquiet
  · intro h htree b
    rcases hrun h htree with ⟨a, h', ha, htree', -, heq⟩ | ⟨e, h', hnone, -, heq⟩
    · rw [heq, (hf a ha).result h' htree' b]
      refine ⟨fun hb => ⟨a, ha, hb⟩, fun ⟨a', ha', hb⟩ => ?_⟩
      -- the first step comes to one thing only
      have hone := ((hx.result h htree a).2 ha).symm.trans ((hx.result h htree a').2 ha')
      exact Except.ok.inj hone ▸ hb
    · rw [heq]
      exact iff_of_false nofun fun ⟨a, ha, _⟩ => hnone ⟨a, ha⟩

theorem map (hx : Settles t x P) (g : α → β) : Settles t (g <$> x) fun b => ∃ a, P a ∧ g a = b := by
  rw [← bind_pure_comp]
  exact hx.bind fun a _ => pure (g a)

/-- One round for each item, in order, up to the first that faults. -/
theorem mapM {as : List α} (hf : ∀ a, Settles t (f a) (R a)) :
    Settles t (as.mapM f) (List.Forall₂ R as) := by
  induction as with
  | nil => exact (pure []).congr fun bs => by rw [List.forall₂_nil_left_iff, eq_comm]
  | cons a as ih =>
    rw [List.mapM_cons]
    refine ((hf a).bind fun b _ => ih.bind fun bs _ => pure (b :: bs)).congr fun all => ?_
    constructor
    · rintro ⟨b, hb, bs, hbs, rfl⟩
      exact .cons hb hbs
    · intro h
      cases h with
      | cons hb hbs => exact ⟨_, hb, _, hbs, rfl⟩

section Looking

variable {y : StateM Host α}

theorem lift (hy : Looks y) : Settles t (ExceptT.lift y) ((y.run (.ofTree t)).1 = ·) := by
  constructor
  · intro h _
    have hstays : ((ExceptT.lift y : Step (StateM Host) α).run.run h).2 = h := hy.stays h
    rw [hstays]
    exact .refl h
  · intro h htree a
    rw [← hy.result h (.ofTree t) htree]
    exact (Except.ok.injEq (y.run h).1 a).to_iff

/-- An operation that only looks comes to what it finds. -/
theorem attempt {fault : Files.OsError → CommandError}
    {operation : StateM Host (Except Files.OsError α)} (hlooks : Looks operation) :
    Settles t (Command.attempt fault operation) ((operation.run (.ofTree t)).1 = .ok ·) := by
  refine ((lift hlooks).bind (R := fun r a => r = .ok a) fun r _ => ?_).congr fun a => ?_
  · cases r with
    | ok a => exact (pure a).congr fun _ => (Except.ok.injEq ..).to_iff.symm
    | error e => exact (throw _).congr fun _ => iff_of_false id nofun
  · exact exists_eq_left'

theorem readText {fault : Files.OsError → CommandError} (path : String) :
    Settles t (Command.attempt fault (FileSystem.readText path)) (t.readText path = .ok ·) :=
  attempt (Looks.readText path)

end Looking

end Settles

section Paths

/-- A path stands for itself, and a pattern for the paths that it matches, if there is one. -/
inductive Stands (t : FileTree) (path : String) : List String → Prop
  | path (h : Files.Glob.isPattern path = false) : Stands t path [path]
  | pattern {paths : List String} (h : Files.Glob.isPattern path = true)
    (hfound : ((Files.Glob.expand path : StateM Host _).run (.ofTree t)).1 = .ok paths)
    (hsome : paths ≠ []) : Stands t path paths

/-- What paths and patterns stand for, one after the other. -/
def Stand (t : FileTree) (given paths : List String) : Prop :=
  ∃ found, List.Forall₂ (Stands t) given found ∧ found.flatten = paths

theorem settles_resolveOne (path : String) : Settles t (resolveOne path) (Stands t path) := by
  rw [resolveOne]
  split
  · next hpattern =>
    refine ((Settles.lift (Looks.expand path)).bind
      (R := fun r paths => r = .ok paths ∧ paths ≠ []) fun r _ => ?_).congr fun paths => ?_
    · split
      · exact (Settles.throw _).congr fun _ => iff_of_false id nofun
      · refine (Settles.throw _).congr fun _ => iff_of_false id ?_
        rintro ⟨⟨⟩, hsome⟩
        exact hsome rfl
      · next found hsome _ =>
        refine (Settles.pure found).congr fun paths => ?_
        constructor
        · rintro rfl
          exact ⟨rfl, fun hnone => hsome (hnone ▸ rfl)⟩
        · rintro ⟨⟨⟩, -⟩
          rfl
    · constructor
      · rintro ⟨_, hfound, rfl, hsome⟩
        exact .pattern hpattern hfound hsome
      · intro h
        cases h with
        | path h => exact absurd hpattern (by simp [h])
        | pattern _ hfound hsome => exact ⟨_, hfound, rfl, hsome⟩
  · next hpath =>
    rw [Bool.not_eq_true] at hpath
    refine (Settles.pure [path]).congr fun paths => ?_
    constructor
    · rintro rfl
      exact .path hpath
    · intro h
      cases h with
      | path => rfl
      | pattern h => exact absurd h (by simp [hpath])

theorem settles_resolve (given : List String) : Settles t (resolve given) (Stand t given) :=
  (Settles.mapM settles_resolveOne).map List.flatten

end Paths

section Schema

variable {schema : List String} {stubUnused : Bool}

/-- The file at a path holds a schema document. -/
def HoldsSchema (t : FileTree) (path : String) (d : Document) : Prop :=
  ∃ text, t.readText path = .ok text ∧ Document.parse path text = .ok d

/-- The schema of all documents together, and what is generated for it. -/
def Generates (t : FileTree) (schema : List String) (stubUnused : Bool)
    (done : Schema × Generation) : Prop :=
  ∃ paths documents options, Stand t schema paths ∧ List.Forall₂ (HoldsSchema t) paths documents ∧
    Document.addAll (Schema.empty, ⟨false⟩) documents = .ok (done.1, options) ∧
    done.2 = .ofSchema done.1 (options.merge ⟨stubUnused⟩)

theorem addText_eq_ok_iff {done done' : Schema × Options} {path text : String} :
    Document.addText done path text = .ok done' ↔
      ∃ d, Document.parse path text = .ok d ∧ Document.add done d = .ok done' := by
  unfold Document.addText
  cases Document.parse path text with
  | error e => exact iff_of_false nofun (by rintro ⟨_, ⟨⟩, -⟩)
  | ok d =>
    dsimp only
    cases h : Document.add done d <;> simp [h]

theorem settles_loadDocument (done : Schema × Options) (path : String) :
    Settles t (loadDocument done path) fun done' =>
      ∃ d, HoldsSchema t path d ∧ Document.add done d = .ok done' := by
  refine ((Settles.readText path).bind
    (R := fun text done' => Document.addText done path text = .ok done') fun text _ => ?_).congr
    fun done' => ?_
  · split
    · next h => exact (Settles.pure _).congr fun _ => by rw [h, Except.ok.injEq]
    · next h => exact (Settles.throw _).congr fun _ => by simp [h]
  · simp only [addText_eq_ok_iff, HoldsSchema]
    tauto

/-- Documents are added as they are read, up to the first that faults. -/
theorem settles_loadDocuments (done : Schema × Options) (paths : List String) :
    Settles t (paths.foldlM loadDocument done) fun done' =>
      ∃ documents, List.Forall₂ (HoldsSchema t) paths documents ∧
        Document.addAll done documents = .ok done' := by
  induction paths generalizing done with
  | nil =>
    refine (Settles.pure done).congr fun done' => ?_
    simp only [List.forall₂_nil_left_iff, exists_eq_left]
    exact (Except.ok.injEq ..).to_iff.symm
  | cons path paths ih =>
    rw [List.foldlM_cons]
    refine ((settles_loadDocument done path).bind fun done _ => ih done).congr fun done' => ?_
    constructor
    · rintro ⟨mid, ⟨d, hd, hadd⟩, documents, hdocuments, hall⟩
      refine ⟨d :: documents, .cons hd hdocuments, ?_⟩
      rw [Document.addAll, List.foldlM_cons, hadd]
      exact hall
    · rintro ⟨_, h, hall⟩
      cases h with
      | @cons _ d _ documents hd hdocuments =>
        rw [Document.addAll, List.foldlM_cons] at hall
        cases hadd : Document.add done d with
        | error e => simp [hadd, bind, Except.bind] at hall
        | ok mid =>
          rw [hadd] at hall
          exact ⟨mid, ⟨d, hd, hadd⟩, documents, hdocuments, hall⟩

theorem settles_generate (c : Command) :
    Settles t (generate c) (Generates t c.schema c.stubUnused) := by
  unfold generate
  refine ((settles_resolve c.schema).bind fun paths _ =>
    (settles_loadDocuments (Schema.empty, ⟨false⟩) paths).bind fun done _ =>
      (Settles.report _ _).bind fun _ _ =>
        Settles.pure (done.1, Generation.ofSchema done.1 (done.2.merge ⟨c.stubUnused⟩))).congr
    fun made => ?_
  constructor
  · rintro ⟨paths, hpaths, ⟨s, options⟩, ⟨documents, hdocuments, hall⟩, -, -, rfl⟩
    exact ⟨paths, documents, options, hpaths, hdocuments, hall, rfl⟩
  · rintro ⟨paths, documents, options, hpaths, hdocuments, hall, hmade⟩
    exact ⟨paths, hpaths, (made.1, options), ⟨documents, hdocuments, hall⟩, (), trivial,
      Prod.ext rfl hmade.symm⟩

end Schema

end Command

end ShapeCodec
