import Mathlib.Data.List.Induction
import ShapeCodec.Proofs.Running
/-! Declaring one type after the other, whatever became of those before. A declaration is accepted,
or refused for the first thing that is wrong with it, given the names that are taken by then. What
is refused leaves no trace, so a schema holds what was accepted, in the order of the calls. -/
namespace ShapeCodec

/-- The first thing that is wrong with a declaration, given the names that are taken: its own name,
that the name is taken, or the first property which the properties before it leave no place for. -/
inductive Declaration.Refused (names : List String) (decl : Declaration) : DeclareError → Prop
  | name (identifier : isIdentifier decl.name = false) :
      Refused names decl (.invalidIdentifier decl.name)
  | type (identifier : isIdentifier decl.name = true) (taken : decl.name ∈ names) :
      Refused names decl (.duplicateType decl.name)
  | propertyName {before : List Property} {p : Property} {after : List Property}
      (identifier : isIdentifier decl.name = true)
      (fresh : decl.name ∉ names) (split : decl.properties = before ++ p :: after)
      (distinct : Property.Distinct before) (property : isIdentifier p.name = false) :
      Refused names decl (.invalidIdentifier p.name)
  | property {before : List Property} {p : Property} {after : List Property}
      (identifier : isIdentifier decl.name = true)
      (fresh : decl.name ∉ names) (split : decl.properties = before ++ p :: after)
      (distinct : Property.Distinct before) (property : isIdentifier p.name = true)
      (repeated : p.name ∈ before.map Property.name) :
      Refused names decl (.duplicateProperty decl.name p.name)

variable {decl : Declaration} {before first rest : List Property} {p : Property} {e : DeclareError}
  {s s' : Schema}

section Faults

/-- Properties are distinct, or there is a first one that those before it leave no place for. -/
theorem Property.distinct_or_split (properties : List Property) :
    Distinct properties ∨ ∃ before p after, properties = before ++ p :: after ∧ Distinct before ∧
      (isIdentifier p.name = false ∨
        isIdentifier p.name = true ∧ p.name ∈ before.map Property.name) := by
  induction properties using List.reverseRecOn with
  | nil => exact .inl ⟨by simp, by simp⟩
  | append_singleton before p ih =>
    rcases ih with hbefore | ⟨first, q, after, rfl, hfirst, hq⟩
    · rw [distinct_append_iff]
      cases hp : isIdentifier p.name with
      | false => exact .inr ⟨before, p, [], rfl, hbefore, .inl hp⟩
      | true =>
        by_cases hmem : p.name ∈ before.map Property.name
        · exact .inr ⟨before, p, [], rfl, hbefore, .inr ⟨hp, hmem⟩⟩
        · exact .inl ⟨hbefore, rfl, hmem⟩
    · exact .inr ⟨first, q, after ++ [p], by simp, hfirst, hq⟩

/-- There is something wrong with a declaration, or nothing is. -/
theorem valid_or_refused (names : List String) (decl : Declaration) :
    decl.Valid ∧ decl.name ∉ names ∨ ∃ e, decl.Refused names e := by
  cases hname : isIdentifier decl.name with
  | false => exact .inr ⟨_, .name hname⟩
  | true =>
    by_cases htaken : decl.name ∈ names
    · exact .inr ⟨_, .type hname htaken⟩
    · rcases Property.distinct_or_split decl.properties with
        ⟨hproperty, hnodup⟩ | ⟨before, p, after, hsplit, hbefore, hp | ⟨hp, hrepeated⟩⟩
      · exact .inl ⟨⟨hname, hproperty, hnodup⟩, htaken⟩
      · exact .inr ⟨_, .propertyName hname htaken hsplit hbefore hp⟩
      · exact .inr ⟨_, .property hname htaken hsplit hbefore hp hrepeated⟩

end Faults

theorem Schema.isDeclared_eq_false_iff : s.isDeclared decl.name = false ↔
    decl.name ∉ s.types.map Declaration.name := by
  rw [← isDeclared_iff, Bool.not_eq_true]

namespace Declaring

section Checks

variable {condition : Prop} [Decidable condition] {type : String}

theorem require_of (h : condition) (e : DeclareError) (s : Schema) :
    require condition e s = .ok ⟨h⟩ s := by
  rw [require, dif_pos h]
  rfl

theorem require_of_not (h : ¬ condition) (e : DeclareError) (s : Schema) :
    require condition e s = .error e s := by
  rw [require, dif_neg h]
  rfl

theorem checkProperties_of_distinct (distinct : Property.Distinct before)
    (h : Property.Distinct (before ++ rest)) :
    checkProperties type before distinct rest s = .ok ⟨h⟩ s := by
  induction rest generalizing before with
  | nil => rfl
  | cons p rest ih =>
    have hall : Property.Distinct (before ++ [p] ++ rest) := by simpa using h
    obtain ⟨-, hp, hfresh⟩ := Property.distinct_append_iff.1 hall.of_append
    exact (Running.bind_of_ok (require_of hp _ s)).trans <|
      (Running.bind_of_ok (require_of hfresh _ s)).trans (Running.bind_of_ok (ih _ hall))

/-- Distinct properties are passed over. -/
theorem checkProperties_append {passed : List Property} (hpassed : passed = before ++ first)
    (distinct : Property.Distinct before) (hdistinct : Property.Distinct passed)
    (herror : checkProperties type passed hdistinct rest s = .error e s) :
    checkProperties type before distinct (first ++ rest) s = .error e s := by
  induction first generalizing before with
  | nil =>
    obtain rfl : passed = before := by simpa using hpassed
    exact herror
  | cons p first ih =>
    have hnext : passed = before ++ [p] ++ first := by simpa using hpassed
    obtain ⟨-, hp, hfresh⟩ := Property.distinct_append_iff.1 (hnext ▸ hdistinct).of_append
    exact (Running.bind_of_ok (require_of hp _ s)).trans <|
      (Running.bind_of_ok (require_of hfresh _ s)).trans (Running.bind_of_error (ih hnext _))

end Checks

end Declaring

section Step

open Declaring

/-- Behind the checks of the name come those of the properties, and then the declaration is added. -/
theorem Declaration.addTo_of_fresh (hname : isIdentifier decl.name = true)
    (hfresh : s.isDeclared decl.name = false) :
    decl.addTo s = (do
      let distinct ← checkProperties decl.name [] Property.distinct_nil decl.properties
      set (s.insert decl ⟨hname, distinct.down.identifier, distinct.down.nodup⟩ hfresh) :
        Declaring Unit) s :=
  (Running.bind_of_ok (require_of hname _ s)).trans <|
    (Running.bind_of_ok (Running.get_apply s)).trans (Running.bind_of_ok (require_of hfresh _ s))

/-- What nothing is wrong with is added. -/
theorem Declaration.addTo_of_valid (hvalid : decl.Valid) (hfresh : s.isDeclared decl.name = false) :
    decl.addTo s = .ok () (s.insert decl hvalid hfresh) := by
  have hproperties : Property.Distinct ([] ++ decl.properties) := ⟨hvalid.property, hvalid.nodup⟩
  rw [addTo_of_fresh hvalid.name hfresh,
    Running.bind_of_ok (checkProperties_of_distinct _ hproperties)]
  rfl

/-- What the checks of the properties refuse is refused, however many properties they passed over. -/
theorem Declaration.addTo_of_split (hname : isIdentifier decl.name = true)
    (hfresh : decl.name ∉ s.types.map Declaration.name) (hsplit : decl.properties = first ++ rest)
    (hdistinct : Property.Distinct first)
    (herror : checkProperties decl.name first hdistinct rest s = .error e s) :
    decl.addTo s = .error e s := by
  have hproperties : checkProperties decl.name [] Property.distinct_nil decl.properties s =
      .error e s := by
    rw [hsplit]
    exact checkProperties_append rfl _ hdistinct herror
  rw [addTo_of_fresh hname (Schema.isDeclared_eq_false_iff.2 hfresh),
    Running.bind_of_error hproperties]

/-- A refusal names the first thing that is wrong, and changes nothing. -/
theorem Declaration.addTo_of_refused (h : decl.Refused (s.types.map Declaration.name) e) :
    decl.addTo s = .error e s := by
  cases h with
  | name hname => exact Running.bind_of_error (require_of_not (by simp [hname]) _ s)
  | type hname htaken =>
    have hdeclared := (Schema.isDeclared_iff s decl.name).2 htaken
    exact (Running.bind_of_ok (require_of hname _ s)).trans <|
      (Running.bind_of_ok (Running.get_apply s)).trans
        (Running.bind_of_error (require_of_not (by simp [hdeclared]) _ s))
  | propertyName hname hfresh hsplit hdistinct hp =>
    refine addTo_of_split hname hfresh hsplit hdistinct ?_
    exact Running.bind_of_error (require_of_not (by simp [hp]) _ s)
  | property hname hfresh hsplit hdistinct hp hrepeated =>
    refine addTo_of_split hname hfresh hsplit hdistinct ?_
    exact (Running.bind_of_ok (require_of hp _ s)).trans
      (Running.bind_of_error (require_of_not (not_not_intro hrepeated) _ s))

end Step

namespace Schema

/-- A call with its answer. What comes after a refusal finds the schema that the refusal left. -/
def attempt (decl : Declaration) : Declaring (Declaration × Except DeclareError Unit) := do
  return (decl, ← observing decl.addTo)

/-- Calls in order. A refusal does not end them. -/
def attemptAll (decls : List Declaration) :
    Declaring (List (Declaration × Except DeclareError Unit)) :=
  decls.mapM attempt

/-- The declarations that were accepted. -/
def accepted (calls : List (Declaration × Except DeclareError Unit)) : List Declaration :=
  (calls.filter fun call => call.2.isOk).map Prod.fst

/-- What a call on a schema does: it is accepted if nothing is wrong with it and refused for the
first thing that is; when accepted it adds its declaration behind the others, and when refused it
changes nothing. -/
structure Answers (s : Schema) (decl : Declaration) (answer : Except DeclareError Unit)
    (s' : Schema) : Prop where
  run : decl.addTo s = match answer with
    | .ok _ => .ok () s'
    | .error e => .error e s'
  ok_iff : answer = .ok () ↔ decl.Valid ∧ decl.name ∉ s.types.map Declaration.name
  error_iff : ∀ e, answer = .error e ↔ decl.Refused (s.types.map Declaration.name) e
  adds : answer = .ok () → s'.types = s.types ++ [decl] ∧ s'.calls = s.calls
  keeps : ∀ e, answer = .error e → s' = s

/-- The schema holds what was accepted in a history of calls, and nothing else. Nothing is wrong
with its declarations, each by itself or together. -/
structure Holds (s : Schema) (history : List (Declaration × Except DeclareError Unit)) : Prop where
  types : s.types = accepted history
  calls : s.calls = []
  valid : ∀ decl ∈ accepted history, decl.Valid
  nodup : ((accepted history).map Declaration.name).Nodup

variable {answer : Except DeclareError Unit}
  {history : List (Declaration × Except DeclareError Unit)}

/-- Nothing is wrong with a declaration that is added, and one thing is the first that is wrong. -/
theorem exists_answers (s : Schema) (decl : Declaration) :
    ∃ answer s', Answers s decl answer s' := by
  rcases valid_or_refused (s.types.map Declaration.name) decl with ⟨hvalid, hfresh⟩ | ⟨e, hrefused⟩
  · have hrun := Declaration.addTo_of_valid hvalid (isDeclared_eq_false_iff.2 hfresh)
    refine ⟨.ok (), _, hrun, iff_of_true rfl ⟨hvalid, hfresh⟩, fun e => ?_, fun _ => ⟨rfl, rfl⟩,
      nofun⟩
    refine iff_of_false nofun fun hrefused => ?_
    exact nomatch hrun.symm.trans (Declaration.addTo_of_refused hrefused)
  · have hrun := Declaration.addTo_of_refused hrefused
    refine ⟨.error e, s, hrun, iff_of_false nofun fun ⟨hvalid, hfresh⟩ => ?_, fun e' => ?_, nofun,
      fun _ _ => rfl⟩
    · exact nomatch hrun.symm.trans
        (Declaration.addTo_of_valid hvalid (isDeclared_eq_false_iff.2 hfresh))
    · constructor
      · rintro ⟨⟩
        exact hrefused
      · intro hrefused'
        cases hrun.symm.trans (Declaration.addTo_of_refused hrefused')
        rfl

theorem Answers.attempt (h : Answers s decl answer s') :
    attempt decl s = .ok (decl, answer) s' := by
  have hrun := h.run
  cases answer with
  | ok a => exact Running.bind_of_ok (Running.observing_of_ok hrun)
  | error e => exact Running.bind_of_ok (Running.observing_of_error hrun)

theorem accepted_append_ok :
    accepted (history ++ [(decl, .ok ())]) = accepted history ++ [decl] := by
  simp [accepted, Except.isOk, Except.toBool]

theorem accepted_append_error :
    accepted (history ++ [(decl, .error e)]) = accepted history := by
  simp [accepted, Except.isOk, Except.toBool]

/-- What a history holds, and one more call. -/
theorem Holds.step (h : s.Holds history) (hanswer : s.Answers decl answer s') :
    s'.Holds (history ++ [(decl, answer)]) := by
  cases answer with
  | error e =>
    rw [hanswer.keeps e rfl]
    refine ⟨?_, h.calls, ?_, ?_⟩ <;> rw [accepted_append_error]
    exacts [h.types, h.valid, h.nodup]
  | ok _ =>
    obtain ⟨htypes, hcalls⟩ := hanswer.adds rfl
    have hheld : s'.types = accepted (history ++ [(decl, .ok ())]) := by
      rw [htypes, h.types, accepted_append_ok]
    exact ⟨hheld, hcalls.trans h.calls, hheld ▸ s'.valid, hheld ▸ s'.nodup⟩

theorem attemptAll_append {decls : List Declaration} {start : Schema}
    (h : attemptAll decls start = .ok history s) (hanswer : s.Answers decl answer s') :
    attemptAll (decls ++ [decl]) start = .ok (history ++ [(decl, answer)]) s' := by
  have hlast : [decl].mapM attempt s =
      (.ok [(decl, answer)] s' : EStateM.Result DeclareError Schema _) := by
    rw [List.mapM_cons, Running.bind_of_ok hanswer.attempt]
    rfl
  rw [attemptAll, List.mapM_append]
  exact (Running.bind_of_ok h).trans (Running.bind_of_ok hlast)

theorem holds_empty : Holds empty [] :=
  ⟨rfl, rfl, by simp [accepted], by simp [accepted]⟩

theorem exists_attemptAll (decls : List Declaration) :
    ∃ history s, attemptAll decls empty = .ok history s ∧ history.map Prod.fst = decls ∧
      s.Holds history := by
  induction decls using List.reverseRecOn with
  | nil => exact ⟨[], empty, rfl, rfl, holds_empty⟩
  | append_singleton decls decl ih =>
    obtain ⟨history, s, hrun, hdecls, hholds⟩ := ih
    obtain ⟨answer, s', hanswer⟩ := exists_answers s decl
    refine ⟨_, s', attemptAll_append hrun hanswer, ?_, hholds.step hanswer⟩
    rw [List.map_append, hdecls]
    rfl

/-- After any calls on an empty schema, refused ones among them, the schema holds what was accepted,
and the next call is answered as it has to be. -/
theorem attempts_exact (decls : List Declaration) (decl : Declaration) :
    ∃ history s answer s', attemptAll decls empty = .ok history s ∧
      attemptAll (decls ++ [decl]) empty = .ok (history ++ [(decl, answer)]) s' ∧
      history.map Prod.fst = decls ∧ s.Holds history ∧ s.Answers decl answer s' := by
  obtain ⟨history, s, hrun, hdecls, hholds⟩ := exists_attemptAll decls
  obtain ⟨answer, s', hanswer⟩ := exists_answers s decl
  exact ⟨history, s, answer, s', hrun, attemptAll_append hrun hanswer, hdecls, hholds, hanswer⟩

end Schema

end ShapeCodec
