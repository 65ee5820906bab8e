import ShapeCodec.Proofs.Files.Writing
import ShapeCodec.Proofs.Settling
/-! Encoding is all or nothing. The texts of all documents are there before anything is printed or
written: either every step comes to something and the texts are given out together, or nothing is
printed and all files are as they were. This is so for every language of filters. -/
namespace ShapeCodec.Command

open Files (FileTree Host OsError)

variable {language : Filter.Language} {t : FileTree} {h h' : Host} {s : Schema} {g : Generation}
  {codec : Codec} {shape : Shape} {filter : Option String} {path text type : String}
  {input texts : List String}

section Texts

/-- The documents that a source text stands for: its value, or what a filter makes of it. Each
output of the filter is the text of a document. -/
inductive Selects (language : Filter.Language) (text : String) : Option String → List Json → Prop
  | whole {json : Json} (hparse : Json.parse text = .ok json) : Selects language text none [json]
  | filtered {json : Json} {expression : String} {run : Json → List (Except String String)}
    {found : List Json} (hparse : Json.parse text = .ok json)
    (hlanguage : language expression = .ok run)
    (houtputs : List.Forall₂ (fun output json => ∃ text, output = .ok text ∧
      Json.parse text = .ok json) (run json) found) :
    Selects language text (some expression) found

/-- The file at a path holds documents. -/
def HoldsDocuments (language : Filter.Language) (t : FileTree) (filter : Option String)
    (path : String) (found : List Json) : Prop :=
  ∃ text, t.readText path = .ok text ∧ Selects language text filter found

/-- A document fits a shape, and a text is what its value is written as. -/
def Encodes (s : Schema) (codec : Codec) (shape : Shape) (json : Json) (text : String) : Prop :=
  ∃ v, Value.ofJson s json shape = .ok v ∧ codec.serialize shape v = .ok text

theorem document_eq_ok_iff {output : Except String String} {json : Json} :
    Filter.document output = .ok json ↔ ∃ text, output = .ok text ∧ Json.parse text = .ok json := by
  unfold Filter.document
  cases output with
  | error detail => simp
  | ok text => cases hparse : Json.parse text <;> simp [hparse]

theorem apply_eq_ok_iff {expression : String} {json : Json} {found : List Json} :
    Filter.apply language expression json = .ok found ↔
      ∃ run, language expression = .ok run ∧ List.Forall₂ (fun output json =>
        ∃ text, output = .ok text ∧ Json.parse text = .ok json) (run json) found := by
  unfold Filter.apply
  cases language expression with
  | error flaws => simp
  | ok run =>
    simp only [Except.ok.injEq, exists_eq_left']
    exact ⟨fun h => (forall₂_of_mapM h).imp fun _ _ => document_eq_ok_iff.1,
      fun h => mapM_of_forall₂ (h.imp fun _ _ => document_eq_ok_iff.2)⟩

theorem documents_eq_ok_iff {found : List Json} :
    documents language filter path text = .ok found ↔ Selects language text filter found := by
  unfold documents
  constructor
  · intro h
    cases hparse : Json.parse text with
    | error e => simp [hparse] at h
    | ok json =>
      rw [hparse] at h
      cases filter with
      | none =>
        cases h
        exact .whole hparse
      | some expression =>
        dsimp only at h
        cases happly : Filter.apply language expression json with
        | error e => simp [happly] at h
        | ok outputs =>
          simp only [happly, Except.ok.injEq] at h
          obtain ⟨run, hlanguage, houtputs⟩ := apply_eq_ok_iff.1 (h ▸ happly)
          exact .filtered hparse hlanguage houtputs
  · intro h
    cases h with
    | whole hparse => rw [hparse]
    | filtered hparse hlanguage houtputs =>
      simp only [hparse, apply_eq_ok_iff.2 ⟨_, hlanguage, houtputs⟩]

theorem encodeDocument_eq_ok_iff {json : Json} :
    encodeDocument s codec shape path json = .ok text ↔ Encodes s codec shape json text := by
  unfold encodeDocument Encodes
  cases Value.ofJson s json shape with
  | error e => simp
  | ok v =>
    dsimp only
    cases hwrite : codec.serialize shape v <;> simp [hwrite]

theorem mapM_encodeDocument_eq_ok_iff {found : List Json} :
    found.mapM (encodeDocument s codec shape path) = .ok texts ↔
      List.Forall₂ (Encodes s codec shape) found texts :=
  ⟨fun h => (forall₂_of_mapM h).imp fun _ _ => encodeDocument_eq_ok_iff.1,
    fun h => mapM_of_forall₂ (h.imp fun _ _ => encodeDocument_eq_ok_iff.2)⟩

theorem settles_encodeSource (path : String) :
    Settles t (encodeSource language s codec shape filter path) fun texts =>
      ∃ found, HoldsDocuments language t filter path found ∧
        List.Forall₂ (Encodes s codec shape) found texts := by
  unfold encodeSource
  refine ((Settles.readText path).bind fun text _ =>
    (Settles.except (documents language filter path text)).bind fun found _ =>
      Settles.except (found.mapM (encodeDocument s codec shape path))).congr fun texts => ?_
  simp only [documents_eq_ok_iff, mapM_encodeDocument_eq_ok_iff, HoldsDocuments]
  tauto

/-- Texts file by file are the texts of all documents of all files. -/
theorem texts_iff {paths : List String} :
    (∃ parts, List.Forall₂ (fun path texts => ∃ found, HoldsDocuments language t filter path found ∧
        List.Forall₂ (Encodes s codec shape) found texts) paths parts ∧ parts.flatten = texts) ↔
      ∃ found, List.Forall₂ (HoldsDocuments language t filter) paths found ∧
        List.Forall₂ (Encodes s codec shape) found.flatten texts := by
  constructor
  · rintro ⟨parts, h, rfl⟩
    induction h with
    | nil => exact ⟨[], .nil, .nil⟩
    | cons hpart _ ih =>
      obtain ⟨found, hfound, htexts⟩ := hpart
      obtain ⟨rest, hrest, hmore⟩ := ih
      exact ⟨found :: rest, .cons hfound hrest, List.rel_append htexts hmore⟩
  · rintro ⟨found, h, htexts⟩
    induction h generalizing texts with
    | nil =>
      cases htexts
      exact ⟨[], .nil, rfl⟩
    | @cons path own paths rest hown _ ih =>
      rw [List.flatten_cons] at htexts
      have hhere := List.forall₂_take own.length htexts
      have hthere := List.forall₂_drop own.length htexts
      rw [List.take_left] at hhere
      rw [List.drop_left] at hthere
      obtain ⟨parts, hparts, hflatten⟩ := ih hthere
      refine ⟨texts.take own.length :: parts, .cons ⟨own, hown, hhere⟩ hparts, ?_⟩
      rw [List.flatten_cons, hflatten, List.take_append_drop]

end Texts

section Gather

/-- All steps of encoding with a codec before its texts are given out. -/
def collect (language : Filter.Language) (s : Schema) (g : Generation) (type : String)
    (filter : Option String) (input : List String) : Step (StateM Host) (List String) := do
  let shape ← ExceptT.mk (pure (entryShape g.codec type))
  let paths ← resolve input
  List.flatten <$> paths.mapM (encodeSource language s g.codec shape filter)

/-- The codec has an entry for a type, the input stands for files that hold documents, and texts are
what all these documents are written as, in order. -/
inductive Collects (language : Filter.Language) (t : FileTree) (s : Schema) (codec : Codec)
    (type : String) (filter : Option String) (input : List String) : List String → Prop
  | intro {paths : List String} {found : List (List Json)} {texts : List String}
    (hentry : (codec.entry? (.ofText type)).isSome) (hinput : Stand t input paths)
    (hfound : List.Forall₂ (HoldsDocuments language t filter) paths found)
    (htexts : List.Forall₂ (Encodes s codec (.ofText type)) found.flatten texts) :
    Collects language t s codec type filter input texts

theorem entryShape_eq_ok_iff :
    entryShape codec type = .ok shape ↔
      (codec.entry? (.ofText type)).isSome ∧ .ofText type = shape := by
  unfold entryShape
  dsimp only
  split <;> simp_all

theorem settles_collect :
    Settles t (collect language s g type filter input)
      (Collects language t s g.codec type filter input) := by
  refine ((Settles.except (entryShape g.codec type)).bind fun shape _ =>
    (settles_resolve input).bind fun paths _ =>
      (Settles.mapM settles_encodeSource).map List.flatten).congr fun texts => ?_
  simp only [texts_iff, entryShape_eq_ok_iff]
  constructor
  · rintro ⟨_, ⟨hentry, rfl⟩, paths, hinput, found, hfound, htexts⟩
    exact .intro hentry hinput hfound htexts
  · rintro ⟨hentry, hinput, hfound, htexts⟩
    exact ⟨_, ⟨hentry, rfl⟩, _, hinput, _, hfound, htexts⟩

/-- All steps of a command that encodes before its texts are given out. -/
def gather (language : Filter.Language) (c : Command) (type : String) (filter : Option String)
    (input : List String) : Step (StateM Host) (List String) := do
  let (s, g) ← generate c
  collect language s g type filter input

/-- Every step of encoding comes to something, and texts are what it comes to: the schema loads, and
its codec makes texts of all documents in the input. -/
def Encoded (language : Filter.Language) (t : FileTree) (schema : List String) (stubUnused : Bool)
    (type : String) (filter : Option String) (input texts : List String) : Prop :=
  ∃ s g, Generates t schema stubUnused (s, g) ∧
    Collects language t s g.codec type filter input texts

theorem settles_gather (language : Filter.Language) (c : Command) (type : String)
    (filter : Option String) (input : List String) :
    Settles t (gather language c type filter input)
      (Encoded language t c.schema c.stubUnused type filter input) := by
  refine ((settles_generate c).bind fun made _ => settles_collect).congr fun texts => ?_
  simp only [Encoded, Prod.exists]

theorem perform_encode (schema : List String) (stubUnused color : Bool) (out : Option String) :
    let c : Command := ⟨schema, stubUnused, .encode type filter input out, color⟩
    perform language c = (do
      let texts ← gather language c type filter input
      emit out ("\n".intercalate texts)
      pure true : Step (StateM Host) Bool) := by
  simp only [perform, encode, gather, collect, bind_assoc, bind_map_left]

end Gather

section Output

/-- The tree with a text in the file that a path leads to, and the directories for it. -/
def save (t : FileTree) (path text : String) : Except OsError FileTree := do
  (← t.createDirectories (Files.parent path)).writeText path text

theorem onlyWrites_of_save {t' : FileTree} (h : save t path text = .ok t') :
    t.OnlyWrites t' path text := by
  unfold save at h
  cases hcreate : t.createDirectories (Files.parent path) with
  | error e => simp [hcreate, bind, Except.bind] at h
  | ok mid =>
    rw [hcreate] at h
    have hfiles := FileTree.files_createDirectories hcreate
    exact (FileTree.onlyWrites_of_writeText h).of_files_eq hfiles

section Attempt

variable {fault : OsError → CommandError} (operation : FileTree → Except OsError FileTree)

theorem attempt_of_ok {t' : FileTree} (hdone : operation h.tree = .ok t') :
    (attempt fault (Host.attempt operation)).run.run h = (.ok (), { h with tree := t' }) := by
  have hrun : (Host.attempt operation).run h = (.ok (), { h with tree := t' }) := by
    simp only [StateT.run, Host.attempt, hdone]
  exact Settles.run_bind_of_ok (Settles.run_lift hrun)

theorem attempt_of_error {e : OsError} (hdone : operation h.tree = .error e) :
    (attempt fault (Host.attempt operation)).run.run h = (.error (fault e), h) := by
  have hrun : (Host.attempt operation).run h = (.error e, h) := by
    simp only [StateT.run, Host.attempt, hdone]
  exact Settles.run_bind_of_ok (Settles.run_lift hrun)

end Attempt

theorem emit_none (text : String) (h : Host) :
    (emit none text : Step (StateM Host) Unit).run.run h =
      (.ok (), { h with stdout := h.stdout ++ (text ++ "\n") }) := rfl

theorem emit_some_eq (path text : String) : (emit (some path) text : Step (StateM Host) Unit) = (do
    attempt .directory (Host.attempt (·.createDirectories (Files.parent path)))
    attempt (.unwritable path) (Host.attempt (·.writeText path text))) := rfl

theorem emit_of_save {t' : FileTree} (hsave : save h.tree path text = .ok t') :
    (emit (some path) text : Step (StateM Host) Unit).run.run h =
      (.ok (), { h with tree := t' }) := by
  rw [emit_some_eq]
  unfold save at hsave
  cases hcreate : h.tree.createDirectories (Files.parent path) with
  | error e => simp [hcreate, bind, Except.bind] at hsave
  | ok mid =>
    rw [hcreate] at hsave
    rw [Settles.run_bind_of_ok (attempt_of_ok (·.createDirectories _) hcreate)]
    exact attempt_of_ok (·.writeText path text) hsave

/-- Directories may have been made for a file that cannot be written. -/
theorem emit_of_save_error {e : OsError} (hsave : save h.tree path text = .error e) :
    ∃ fault t', (emit (some path) text : Step (StateM Host) Unit).run.run h =
      (.error fault, { h with tree := t' }) ∧ t'.files = h.tree.files := by
  rw [emit_some_eq]
  unfold save at hsave
  cases hcreate : h.tree.createDirectories (Files.parent path) with
  | error e =>
    exact ⟨_, h.tree,
      Settles.run_bind_of_error (attempt_of_error (·.createDirectories _) hcreate), rfl⟩
  | ok mid =>
    rw [hcreate] at hsave
    refine ⟨.unwritable path e, mid, ?_, FileTree.files_createDirectories hcreate⟩
    rw [Settles.run_bind_of_ok (attempt_of_ok (·.createDirectories _) hcreate)]
    exact attempt_of_error (·.writeText path text) hsave

end Output

section Execute

variable {c : Command}

theorem execute_of_ok {succeeded : Bool}
    (hrun : (perform language c : Step (StateM Host) Bool).run.run h = (.ok succeeded, h')) :
    (execute language c : StateM Host Nat).run h = (if succeeded then 0 else 1, h') := by
  rw [execute, run_bind_of_eq hrun]
  rfl

theorem execute_of_error {e : CommandError}
    (hrun : (perform language c : Step (StateM Host) Bool).run.run h = (.error e, h')) :
    ∃ last, (execute language c : StateM Host Nat).run h = (1, last) ∧ h'.OnlyReports last := by
  refine ⟨{ h' with stderr := h'.stderr ++ errorLine c.color e }, ?_, rfl, rfl⟩
  rw [execute, run_bind_of_eq hrun]
  rfl

end Execute

section Encode

variable {schema : List String} {stubUnused : Bool} (color : Bool) (out : Option String)

/-- Where a step comes to nothing, the command ends before anything is given out. -/
theorem execute_encode_of_not
    (hnone : ¬ ∃ texts, Encoded language h.tree schema stubUnused type filter input texts) :
    ∃ last, (execute language ⟨schema, stubUnused, .encode type filter input out, color⟩ :
      StateM Host Nat).run h = (1, last) ∧ h.OnlyReports last := by
  obtain ⟨e, h', hgather, hquiet⟩ := (settles_gather language
    ⟨schema, stubUnused, .encode type filter input out, color⟩ type filter input).run_of_not hnone
  have hperform : (perform language ⟨schema, stubUnused, .encode type filter input out, color⟩ :
      Step (StateM Host) Bool).run.run h = (.error e, h') := by
    rw [perform_encode]
    exact Settles.run_bind_of_error hgather
  obtain ⟨last, hrun, hlast⟩ := execute_of_error hperform
  exact ⟨last, hrun, hquiet.trans hlast⟩

/-- Where every step comes to something, giving out the texts decides. Reports may come before. -/
theorem perform_encode_of_encoded
    (hall : Encoded language h.tree schema stubUnused type filter input texts) :
    ∃ h', h.OnlyReports h' ∧
      (perform language ⟨schema, stubUnused, .encode type filter input out, color⟩ :
        Step (StateM Host) Bool).run.run h =
      (do emit out ("\n".intercalate texts); pure true : Step (StateM Host) Bool).run.run h' := by
  obtain ⟨h', hgather, hquiet⟩ := (settles_gather language
    ⟨schema, stubUnused, .encode type filter input out, color⟩ type filter input).run_of_ok hall
  refine ⟨h', hquiet, ?_⟩
  rw [perform_encode]
  exact Settles.run_bind_of_ok hgather

/-- A schema, a file of documents that fit its type and one with a document that does not. -/
def oneFits : FileTree :=
  .ofFiles [
    ("schema", "\x7b\"types\": [\x7b\"name\": \"A\", \"properties\": [\x7b\"name\": \"n\", " ++
      "\"type\": \"int\"\x7d]\x7d], \"calls\": [\x7b\"serialize\": \"A\"\x7d]\x7d"),
    ("a", "[\x7b\"n\": 1\x7d, \x7b\"n\": 2\x7d]"), ("b", "[\x7b\"n\": 3\x7d, \x7b\"n\": []\x7d]")]

/-- The last document does not fit, so the texts of those before it are not given out either. -/
example :
    let encode (input : List String) (out : Option String) :=
      (run ⟨["schema"], false, .encode "A" (some ".[]") input out, false⟩).run oneFits
    (encode ["a", "b"] none).1.stdout = "" ∧
      (encode ["a", "b"] (some "c")).2.files = oneFits.files ∧
      (encode ["a"] (some "c")).2.readText "c" =
        .ok "\x7b\n\"n\": 1\n\x7d\n\x7b\n\"n\": 2\n\x7d" := by
  decide +kernel

end Encode

end ShapeCodec.Command
