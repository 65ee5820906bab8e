import ShapeCodec.Proofs.Brackets
/-! The way of a run through the routines that it calls. A plan calls routines from within the
brackets of an object or list only, one bracket further in, and what has been read before the call
is closed again. So a run has used up one level for each bracket that is open where it calls, and
the limit of the levels is met nowhere else. -/
namespace ShapeCodec

namespace Machine

/-- Objects and lists alone call routines. -/
def CallsInside (m : Machine) : Prop :=
  ∀ id r, m.routine? id = some r → ∀ next, r.body ≠ .read (.scalar (.call next))

/-- The cursor stands in front of no blank. -/
def AtToken (c : Cursor) : Prop :=
  ∀ d ∈ c.rest.head?, Text.isSpace d = false

/-- The calls, except that one of them at one place comes to an error instead. -/
def failing (call : RoutineId → Reading Value) (id : RoutineId) (spot : Cursor) (e : CodecError)
    (c' : Cursor) : RoutineId → Reading Value :=
  fun other c => if other = id ∧ c = spot then .error e c' else call other c

/-- Run from a place, the plan calls a routine at another: whatever error that call comes to, the
plan ends with it. -/
def Reaches (call : RoutineId → Reading Value) (plan : ReadPlan) (c : Cursor) (id : RoutineId)
    (spot : Cursor) : Prop :=
  ∀ e c', runPlan (failing call id spot e c') plan c = .error e c'

/-- A run of a routine from a place comes, by calls in calls, to another routine at another place.
It has some levels to go at the start, and fewer there. -/
inductive Comes (m : Machine) :
    Nat → RoutineId → Cursor → Nat → RoutineId → Cursor → Prop
  | here {levels id c} : Comes m levels id c levels id c
  | call {levels id c r plan between mid levels' next spot} : m.routine? id = some r →
      r.body = .read plan → Reaches (m.readWithin levels) plan c between mid →
      Comes m levels between mid levels' next spot →
      Comes m (levels + 1) id c levels' next spot

/-- Where one way to call succeeds, so does the other. -/
def Extends (call call' : RoutineId → Reading Value) : Prop :=
  ∀ id c v c', call id c = .ok v c' → call' id c = .ok v c'

/-- The error is not one of a scanning step. -/
def Foreign (e : CodecError) : Prop :=
  ∀ error, e = .parse error → error.expected = .depthLimit

/-- A step that may call routines goes from `m` open brackets to `n`, if calls leave none open. An
error that is not its own is that of a call, made with one bracket open; and whatever error that
call comes to, the step ends with it. -/
structure Traces {α : Type} (m n : Nat) (x : (RoutineId → Reading Value) → Reading α) : Prop where
  balances : ∀ call, (∀ id, Balances 0 0 (call id)) → Balances m n (x call)
  extend : ∀ call call', Extends call call' →
    ∀ c a c', x call c = .ok a c' → x call' c = .ok a c'
  error : ∀ call e, (∀ id, Balances 0 0 (call id)) → Foreign e →
    ∀ c c', x call c = .error e c' → ∃ id spot taken, Cursor.Moves taken c spot ∧
      Text.Balanced false m 1 taken ∧ AtToken spot ∧ call id spot = .error e c' ∧
      ∀ call' e' c'', Extends call call' → call' id spot = .error e' c'' →
        x call' c = .error e' c''

section Step

variable {α β : Type} {m n k : Nat} {x : (RoutineId → Reading Value) → Reading α}
  {f : α → (RoutineId → Reading Value) → Reading β}

theorem traces_lift {x : Scan α} (hx : Balances m n x) (hplain : Plain x) :
    Traces m n fun _ => (liftM x : Reading α) := by
  refine ⟨fun _ _ => hx.lift, fun _ _ _ _ _ _ h => h, fun call e _ he c c' h => ?_⟩
  obtain ⟨error, rfl, hown⟩ := hplain.lift h
  exact absurd (he error rfl) hown

theorem traces_pure (a : α) : Traces n n fun _ => (pure a : Reading α) := by
  refine ⟨fun _ _ => balances_pure a, fun _ _ _ _ _ _ h => h, ?_⟩
  rintro _ _ _ _ _ _ ⟨⟩

theorem Traces.bind (hx : Traces m n x) (hf : ∀ a, Traces n k (f a)) :
    Traces m k fun call => x call >>= fun a => f a call := by
  constructor
  · exact fun call hcall => (hx.balances call hcall).bind fun a => (hf a).balances call hcall
  · intro call call' hextends c b c' h
    obtain ⟨a, mid, hrun, hnext⟩ := Running.bind_eq_ok_iff.1 h
    rw [Running.bind_of_ok (hx.extend call call' hextends c a mid hrun)]
    exact (hf a).extend call call' hextends mid b c' hnext
  · intro call e hcall he c c' h
    rcases Running.bind_eq_error_iff.1 h with h | ⟨a, mid, hrun, hnext⟩
    · obtain ⟨id, spot, taken, hmoves, hbalanced, htoken, herror, hsame⟩ :=
        hx.error call e hcall he c c' h
      exact ⟨id, spot, taken, hmoves, hbalanced, htoken, herror, fun call' e' c'' hextends h' =>
        Running.bind_of_error (hsame call' e' c'' hextends h')⟩
    · obtain ⟨first, hfirst, hopen⟩ := hx.balances call hcall c a mid hrun
      obtain ⟨id, spot, second, hsecond, hrest, htoken, herror, hsame⟩ :=
        (hf a).error call e hcall he mid c' hnext
      refine ⟨id, spot, first ++ second, hfirst.trans hsecond, hopen.append hrest, htoken, herror,
        fun call' e' c'' hextends h' => ?_⟩
      rw [Running.bind_of_ok (hx.extend call call' hextends c a mid hrun)]
      exact hsame call' e' c'' hextends h'

theorem Traces.map (hx : Traces m n x) (g : α → β) : Traces m n fun call => g <$> x call :=
  hx.bind fun a => traces_pure (g a)

theorem Traces.ite {p : Prop} [Decidable p] {y : (RoutineId → Reading Value) → Reading α}
    (hx : Traces m n x) (hy : Traces m n y) :
    Traces m n fun call => if p then x call else y call := by
  split
  · exact hx
  · exact hy

theorem traces_get {f : Cursor → (RoutineId → Reading Value) → Reading α}
    (hf : ∀ c, Traces m n (f c)) : Traces m n fun call => get >>= fun c => f c call :=
  ⟨fun call hcall c => (hf c).balances call hcall c,
    fun call call' hextends c => (hf c).extend call call' hextends c,
    fun call e hcall he c => (hf c).error call e hcall he c⟩

end Step

section Scan

variable {n : Nat}

theorem traces_skipWhitespace : Traces n n fun _ => (liftM Scan.skipWhitespace : Reading Unit) :=
  traces_lift balances_skipWhitespace plain_skipWhitespace

theorem traces_tryNull : Traces n n fun _ => (liftM Scan.tryNull : Reading Bool) :=
  traces_lift balances_tryNull (plain_tryWord _)

theorem traces_expect {m : Nat} {d : Char} (h : Text.Balanced false m n [d]) :
    Traces m n fun _ => (liftM (Scan.expect d) : Reading Unit) :=
  traces_lift (balances_expect h) (plain_expect d)

theorem traces_contentOr {α : Type} {m : Nat} (close : Char) :
    Traces m n fun _ => (liftM (Scan.fail (.contentOr close)) : Reading α) := by
  refine traces_lift ?_ (plain_fail (by simp))
  rintro c _ _ ⟨⟩

end Scan

theorem atToken_skipWhile (c : Cursor) : AtToken (c.skipWhile Text.isSpace) :=
  head?_dropWhile_false _ _

/-- A routine is called in front of what it is to read. -/
theorem traces_call (id : RoutineId) :
    Traces 1 1 fun call => (do Scan.skipWhitespace; call id : Reading Value) := by
  have hspace (c : Cursor) : (liftM Scan.skipWhitespace : Reading Unit) c =
      .ok () (c.skipWhile Text.isSpace) := lift_of_ok rfl
  constructor
  · intro call hcall
    exact balances_skipWhitespace.lift.bind fun _ => (hcall id).inside 1
  · intro call call' hextends c v c' h
    rw [Running.bind_of_ok (hspace c)] at h ⊢
    exact hextends id _ v c' h
  · intro call e hcall he c c' h
    rw [Running.bind_of_ok (hspace c)] at h
    obtain ⟨taken, hmoves, hbalanced⟩ := balances_skipWhitespace.lift c _ _ (hspace c)
    refine ⟨id, _, taken, hmoves, hbalanced, atToken_skipWhile c, h, fun call' e' c'' _ h' => ?_⟩
    rw [Running.bind_of_ok (hspace c)]
    exact h'

section Plan

theorem traces_readOperand {n : Nat} {operand : Operand}
    (h : n = 1 ∨ ∀ id, operand ≠ .call id) : Traces n n fun call => readOperand call operand := by
  cases operand with
  | int =>
    refine traces_skipWhitespace.bind fun _ => traces_tryNull.bind fun _ => ?_
    exact (traces_pure _).ite ((traces_lift balances_readInt plain_readInt).map _)
  | str =>
    refine traces_skipWhitespace.bind fun _ => traces_tryNull.bind fun _ => ?_
    exact (traces_pure _).ite ((traces_lift balances_readString plain_readString).map _)
  | call id =>
    obtain rfl := h.resolve_right fun hcall => hcall id rfl
    exact traces_call id

theorem traces_readMember (fields : List FieldPlan) (slots : List Value) :
    Traces 1 1 fun call => readMember call fields slots := by
  refine (traces_lift balances_readString plain_readString).bind fun name => ?_
  refine traces_skipWhitespace.bind fun _ => ?_
  refine (traces_expect (Text.balanced_char (by decide))).bind fun _ => ?_
  split
  · exact (traces_readOperand (.inl rfl)).map _
  · exact (traces_lift balances_skipValue plain_skipValue).bind fun _ => traces_pure slots

/-- The bracket that closes an object or list, if it comes next. -/
theorem traces_close {α : Type} {close : Char} {finish : α}
    {other : (RoutineId → Reading Value) → Reading α} (hclose : close ∈ ['\x7d', ']'])
    (hother : Traces 1 0 other) : Traces 1 0 fun call =>
      (do if ← Scan.tryChar close then pure finish else other call : Reading α) := by
  have htry (c : Cursor) : ∃ found mid, (liftM (Scan.tryChar close) : Reading Bool) c =
      .ok found mid ∧ (found = true ∧ Cursor.Moves [close] c mid ∨ found = false ∧ mid = c) := by
    obtain ⟨found, mid, hfound⟩ : ∃ found mid, Scan.tryChar close c = .ok found mid := by
      rw [Scan.tryChar, Scan.tryWord]
      split <;> exact ⟨_, _, rfl⟩
    refine ⟨found, mid, lift_of_ok hfound, ?_⟩
    rcases tryChar_eq_ok hfound with ⟨rfl, hsplit⟩ | ⟨rfl, rfl, -⟩
    · exact .inl ⟨rfl, (Consumes.tryChar close mid.rest).moves hfound hsplit⟩
    · exact .inr ⟨rfl, rfl⟩
  constructor
  · intro call hcall c a c' h
    obtain ⟨_, mid, hfound, ⟨rfl, hmoves⟩ | ⟨rfl, rfl⟩⟩ := htry c
    · rw [Running.bind_of_ok hfound] at h
      cases h
      exact ⟨[close], hmoves, Text.balanced_close hclose⟩
    · rw [Running.bind_of_ok hfound] at h
      exact hother.balances call hcall mid a c' h
  · intro call call' hextends c a c' h
    obtain ⟨_, mid, hfound, ⟨rfl, -⟩ | ⟨rfl, rfl⟩⟩ := htry c
    · rw [Running.bind_of_ok hfound] at h ⊢
      exact h
    · rw [Running.bind_of_ok hfound] at h ⊢
      exact hother.extend call call' hextends mid a c' h
  · intro call e hcall he c c' h
    obtain ⟨_, mid, hfound, ⟨rfl, -⟩ | ⟨rfl, rfl⟩⟩ := htry c
    · rw [Running.bind_of_ok hfound] at h
      cases h
    · rw [Running.bind_of_ok hfound] at h
      obtain ⟨id, spot, taken, hmoves, hbalanced, htoken, herror, hsame⟩ :=
        hother.error call e hcall he mid c' h
      refine ⟨id, spot, taken, hmoves, hbalanced, htoken, herror,
        fun call' e' c'' hextends h' => ?_⟩
      rw [Running.bind_of_ok hfound]
      exact hsame call' e' c'' hextends h'

theorem traces_round {α β : Type} {close : Char} {finish : α}
    {entry : (RoutineId → Reading Value) → Reading β}
    {next : β → (RoutineId → Reading Value) → Reading α} (hclose : close ∈ ['\x7d', ']'])
    (hentry : Traces 1 1 entry) (hnext : ∀ x, Traces 1 0 (next x)) :
    Traces 1 0 fun call => Direct.round close finish (entry call) fun x => next x call := by
  refine traces_skipWhitespace.bind fun _ => traces_get fun _ => ?_
  refine (traces_contentOr close).ite (traces_close hclose ?_)
  refine hentry.bind fun x => traces_skipWhitespace.bind fun _ => ?_
  exact ((traces_lift balances_comma (plain_tryWord _)).map _).bind fun _ => hnext x

theorem traces_readMembers (fields : List FieldPlan) (bound : Nat) (slots : List Value) :
    Traces 1 0 fun call => readMembers call fields bound slots := by
  induction bound generalizing slots with
  | zero => exact traces_contentOr _
  | succ bound ih => exact traces_round (by decide) (traces_readMember fields slots) ih

theorem traces_readItems (element : Operand) (bound : Nat) :
    Traces 1 0 fun call => readItems call element bound := by
  induction bound with
  | zero => exact traces_contentOr _
  | succ bound ih =>
    exact traces_round (by decide) (traces_readOperand (.inl rfl)) fun _ => ih.map _

/-- A plan calls routines from within the bracket of an object or list. -/
theorem traces_runPlan {plan : ReadPlan} (hplan : ∀ id, plan ≠ .scalar (.call id)) :
    Traces 0 0 fun call => runPlan call plan := by
  refine traces_skipWhitespace.bind fun _ => ?_
  cases plan with
  | scalar operand => exact traces_readOperand (.inr fun id h => hplan id (h ▸ rfl))
  | object type nullable fields defaults =>
    refine traces_tryNull.bind fun _ => (traces_pure _).ite ?_
    refine (traces_expect (Text.balanced_opening (by decide))).bind fun _ => ?_
    exact traces_get fun start => (traces_readMembers fields _ _).map _
  | list nullable element =>
    refine traces_tryNull.bind fun _ => (traces_pure _).ite ?_
    refine (traces_expect (Text.balanced_opening (by decide))).bind fun _ => ?_
    exact traces_get fun start => (traces_readItems element _).map _

end Plan

section Run

variable {m : Machine} {call : RoutineId → Reading Value} {plan : ReadPlan} {r : Routine}
  {id next : RoutineId} {c c' spot : Cursor} {e : CodecError} {levels levels' offset : Nat}

theorem AtToken.skipWhile (h : AtToken c) : c.skipWhile Text.isSpace = c := by
  obtain ⟨offset, rest⟩ := c
  cases rest with
  | nil => rfl
  | cons d rest =>
    have hd : Text.isSpace d = false := h d rfl
    simp [Cursor.skipWhile, Cursor.after, hd, Text.utf8Length]

theorem readWithin_of_read (hr : m.routine? id = some r) (hbody : r.body = .read plan) :
    m.readWithin (levels + 1) id = runPlan (m.readWithin levels) plan := by
  rw [readWithin, hr]
  simp only [hbody]

/-- With no levels to go, even null is too deep. -/
theorem readWithin_zero (hr : m.routine? id = some r) (hbody : r.body = .read plan) :
    m.readWithin 0 id c = .error (.parse ⟨(c.skipWhile Text.isSpace).offset, .depthLimit⟩)
      (c.skipWhile Text.isSpace) := by
  rw [readWithin, hr]
  simp only [hbody]
  rfl

/-- What does not read a value by a plan calls nothing. -/
theorem readWithin_of_not_read (h : ¬∃ r plan, m.routine? id = some r ∧ r.body = .read plan)
    (levels : Nat) : m.readWithin levels id = readInert ∨
      ∃ shape, m.readWithin levels id = throw (.noEntry shape .deserialize) := by
  unfold readWithin
  cases hr : m.routine? id with
  | none => exact .inl rfl
  | some r =>
    cases hbody : r.body with
    | stub => exact .inl (by simp only [hbody])
    | write => exact .inr ⟨r.shape, by simp only [hbody]⟩
    | read plan => exact absurd ⟨r, plan, hr, hbody⟩ h

theorem plain_readInert : readInert c ≠ .error (.parse ⟨offset, .depthLimit⟩) c' := by
  intro h
  rcases Running.bind_eq_error_iff.1 h with h | ⟨_, _, _, ⟨⟩⟩
  obtain ⟨_, ⟨⟩, hown⟩ := plain_skipValue.lift h
  exact hown rfl

theorem balances_of_not_read
    (h : ¬∃ r plan, m.routine? id = some r ∧ r.body = .read plan) :
    Balances 0 0 (m.readWithin levels id) := by
  rcases readWithin_of_not_read h levels with hinert | ⟨shape, hthrow⟩
  · rw [hinert]
    exact balances_skipValue.lift.bind fun _ => balances_pure _
  · rw [hthrow]
    rintro _ _ _ ⟨⟩

/-- What a routine reads has all its brackets closed. -/
theorem balances_readWithin (hinside : m.CallsInside) (levels : Nat) (id : RoutineId) :
    Balances 0 0 (m.readWithin levels id) := by
  induction levels generalizing id with
  | zero =>
    by_cases hread : ∃ r plan, m.routine? id = some r ∧ r.body = .read plan
    · obtain ⟨r, plan, hr, hbody⟩ := hread
      intro c v c' h
      rw [readWithin_zero hr hbody] at h
      cases h
    · exact balances_of_not_read hread
  | succ levels ih =>
    by_cases hread : ∃ r plan, m.routine? id = some r ∧ r.body = .read plan
    · obtain ⟨r, plan, hr, hbody⟩ := hread
      rw [readWithin_of_read hr hbody]
      exact (traces_runPlan fun next h => hinside id r hr next (h ▸ hbody)).balances _ ih
    · exact balances_of_not_read hread

theorem extends_failing (h : ∀ v mid, call id spot ≠ .ok v mid) (e : CodecError) (c' : Cursor) :
    Extends call (failing call id spot e c') := by
  intro other start v mid hok
  rw [failing, if_neg]
  · exact hok
  · rintro ⟨rfl, rfl⟩
    exact h v mid hok

/-- Between the place where a plan begins and the one where it calls a routine, one bracket is
opened. -/
theorem Reaches.counts (h : Reaches call plan c next spot)
    (hplan : ∀ id, plan ≠ .scalar (.call id)) (hcall : ∀ id, Balances 0 0 (call id)) :
    AtToken spot ∧ ∃ taken, Cursor.Moves taken c spot ∧ Text.Balanced false 0 1 taken := by
  have hbalances (other : RoutineId) :
      Balances 0 0 (failing call next spot (.depthLimit 0) spot other) := by
    intro start v mid hok
    rw [failing] at hok
    split at hok
    · cases hok
    · exact hcall other start v mid hok
  obtain ⟨id, place, taken, hmoves, hbalanced, htoken, herror, hsame⟩ :=
    (traces_runPlan hplan).error _ (.depthLimit 0) hbalances nofun c spot (h _ _)
  by_cases heq : id = next ∧ place = spot
  · obtain ⟨rfl, rfl⟩ := heq
    exact ⟨htoken, taken, hmoves, hbalanced⟩
  -- an error of another call would not depend on what this one comes to
  · rw [failing, if_neg heq] at herror
    have hextends : Extends (failing call next spot (.depthLimit 0) spot)
        (failing call next spot (.depthLimit 1) spot) := by
      intro other start v mid hok
      rw [failing] at hok ⊢
      split at hok
      · cases hok
      · next hother => rwa [if_neg hother]
    have hother := hsame _ (.depthLimit 0) spot hextends (by rw [failing, if_neg heq, herror])
    cases hother.symm.trans (h (.depthLimit 1) spot)

theorem Reaches.fails (h : Reaches call plan c next spot) (herror : call next spot = .error e c') :
    runPlan call plan c = .error e c' := by
  have hsame : failing call next spot e c' = call := by
    funext other start
    rw [failing]
    split
    · next heq => rw [heq.1, heq.2, herror]
    · rfl
  have hrun := h e c'
  rwa [hsame] at hrun

/-- For every level that a run has used up, there is an open bracket. -/
theorem Comes.counts (h : Comes m levels id c levels' next spot) (hinside : m.CallsInside) :
    (∃ taken, Cursor.Moves taken c spot ∧ Text.Balanced false levels' levels taken) ∧
      (levels' = levels ∧ spot = c ∨ levels' < levels ∧ AtToken spot) := by
  induction h with
  | here => exact ⟨⟨[], Cursor.moves_nil _, Text.balanced_nil _⟩, .inl ⟨rfl, rfl⟩⟩
  | @call levels id c r plan between mid levels' next spot hr hbody hreaches _ ih =>
    obtain ⟨htoken, first, hfirst, hopen⟩ := hreaches.counts
      (fun next h => hinside id r hr next (h ▸ hbody)) (balances_readWithin hinside levels)
    obtain ⟨⟨second, hsecond, hrest⟩, hspot⟩ := ih
    have hboth := (hopen.inside levels').append (Nat.add_comm 1 levels' ▸ hrest.inside 1)
    rw [Nat.zero_add] at hboth
    refine ⟨⟨first ++ second, hfirst.trans hsecond, hboth⟩, .inr ?_⟩
    rcases hspot with ⟨rfl, rfl⟩ | ⟨hless, htoken⟩
    · exact ⟨Nat.lt_succ_self _, htoken⟩
    · exact ⟨Nat.lt_succ_of_lt hless, htoken⟩

/-- A run fails with the routine that it comes to. -/
theorem Comes.fails (h : Comes m levels id c levels' next spot)
    (herror : m.readWithin levels' next spot = .error e c') :
    m.readWithin levels id c = .error e c' := by
  induction h with
  | here => exact herror
  | call hr hbody hreaches _ ih =>
    rw [readWithin_of_read hr hbody]
    exact hreaches.fails (ih herror)

/-- Only what reads a value by a plan meets the limit. -/
theorem read_of_limit (h : m.readWithin levels id c = .error (.parse ⟨offset, .depthLimit⟩) c') :
    ∃ r plan, m.routine? id = some r ∧ r.body = .read plan := by
  by_contra hread
  rcases readWithin_of_not_read hread levels with hinert | ⟨shape, hthrow⟩
  · exact plain_readInert (hinert ▸ h)
  · rw [hthrow] at h
    cases h

/-- The limit is met where a run comes to a routine with no levels to go. -/
theorem comes_of_limit (hinside : m.CallsInside)
    (h : m.readWithin levels id c = .error (.parse ⟨offset, .depthLimit⟩) c') :
    ∃ next spot, Comes m levels id c 0 next spot ∧
      (spot.skipWhile Text.isSpace).offset = offset := by
  obtain ⟨r, plan, hr, hbody⟩ := read_of_limit h
  induction levels generalizing id c r plan with
  | zero =>
    rw [readWithin_zero hr hbody] at h
    cases h
    exact ⟨id, c, .here, rfl⟩
  | succ levels ih =>
    rw [readWithin_of_read hr hbody] at h
    have hforeign : Foreign (.parse ⟨offset, .depthLimit⟩) := by
      rintro _ ⟨⟩
      rfl
    obtain ⟨between, mid, -, -, -, -, herror, hsame⟩ :=
      (traces_runPlan fun next h => hinside id r hr next (h ▸ hbody)).error _ _
        (balances_readWithin hinside levels) hforeign c c' h
    obtain ⟨r', plan', hr', hbody'⟩ := read_of_limit herror
    obtain ⟨next, spot, hcomes, hoffset⟩ := ih herror r' plan' hr' hbody'
    refine ⟨next, spot, .call hr hbody (fun e' c'' => ?_) hcomes, hoffset⟩
    have hnot (v : Value) (last : Cursor) : m.readWithin levels between mid ≠ .ok v last := by
      rw [herror]
      exact nofun
    exact hsame _ e' c'' (extends_failing hnot e' c'') (if_pos ⟨rfl, rfl⟩)

end Run

end Machine

end ShapeCodec
