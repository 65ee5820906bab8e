import ShapeCodec.Machine.Read
import ShapeCodec.Machine.Write
/-! Running steps one after the other. A run of a step is a value or an error with the state it ends
in; the lemmas take sequences of steps apart, and lift scanning steps into read routines. -/
namespace ShapeCodec.Running

/-- Runs on fixed texts are compared as a whole, with the cursor they end at. -/
instance decideResult {ε σ α : Type} [DecidableEq ε] [DecidableEq σ] [DecidableEq α] :
    DecidableEq (EStateM.Result ε σ α)
  | .ok a st, .ok b st' => decidable_of_iff (a = b ∧ st = st') (by simp)
  | .error e st, .error e' st' => decidable_of_iff (e = e' ∧ st = st') (by simp)
  | .ok .., .error .. | .error .., .ok .. => isFalse nofun

section Step

variable {ε σ α β : Type} {x : EStateM ε σ α} {f f' : α → EStateM ε σ β} {g : α → β} {st st' : σ}
  {a : α} {b : β} {e : ε}

theorem pure_apply (a : α) (st : σ) : (pure a : EStateM ε σ α) st = .ok a st := rfl

theorem throw_apply (e : ε) (st : σ) : (throw e : EStateM ε σ α) st = .error e st := rfl

theorem get_apply (st : σ) : (get : EStateM ε σ σ) st = .ok st st := rfl

theorem bind_apply (x : EStateM ε σ α) (f : α → EStateM ε σ β) (st : σ) :
    (x >>= f) st =
      match x st with
      | .ok a st => f a st
      | .error e st => .error e st := rfl

theorem map_apply (g : α → β) (x : EStateM ε σ α) (st : σ) :
    (g <$> x) st =
      match x st with
      | .ok a st => .ok (g a) st
      | .error e st => .error e st := rfl

theorem throw_bind (e : ε) (f : α → EStateM ε σ β) :
    (throw e : EStateM ε σ α) >>= f = throw e := rfl

theorem map_throw (e : ε) (g : α → β) : g <$> (throw e : EStateM ε σ α) = throw e := rfl

theorem discard_eq_map (x : EStateM ε σ α) : discard x = (fun _ => ()) <$> x := rfl

theorem bind_of_ok (h : x st = .ok a st') : (x >>= f) st = f a st' := by
  rw [bind_apply, h]

theorem bind_of_error (h : x st = .error e st') : (x >>= f) st = .error e st' := by
  rw [bind_apply, h]

/-- What comes after a step need agree only where the step leads. -/
theorem bind_congr (h : ∀ a st', x st = .ok a st' → f a st' = f' a st') :
    (x >>= f) st = (x >>= f') st := by
  rw [bind_apply, bind_apply]
  cases hx : x st with
  | ok a st' => exact h a st' hx
  | error => rfl

theorem tryCatch_apply (x : EStateM ε σ α) (handle : ε → EStateM ε σ α) (st : σ) :
    (tryCatch x handle : EStateM ε σ α) st =
      match x st with
      | .ok a st => .ok a st
      | .error e st => handle e st := by
  change EStateM.tryCatch x handle st = _
  delta EStateM.tryCatch
  cases x st with
  | ok => rfl
  | error => rfl

/-- A step that is observed does not fail. The state stays as the step leaves it, also if it fails. -/
theorem observing_of_ok (h : x st = .ok a st') :
    (observing x : EStateM ε σ (Except ε α)) st = .ok (.ok a) st' := by
  have hrun : (x >>= fun a => (pure (Except.ok a) : EStateM ε σ (Except ε α))) st =
      .ok (.ok a) st' := bind_of_ok h
  exact (tryCatch_apply _ _ st).trans (by rw [hrun])

theorem observing_of_error (h : x st = .error e st') :
    (observing x : EStateM ε σ (Except ε α)) st = .ok (.error e) st' := by
  have hrun : (x >>= fun a => (pure (Except.ok a) : EStateM ε σ (Except ε α))) st =
      .error e st' := bind_of_error h
  exact (tryCatch_apply _ _ st).trans (by rw [hrun]; rfl)

theorem map_of_ok (h : x st = .ok a st') : (g <$> x) st = .ok (g a) st' := by
  rw [map_apply, h]

theorem bind_eq_ok_iff :
    (x >>= f) st = .ok b st' ↔ ∃ a mid, x st = .ok a mid ∧ f a mid = .ok b st' := by
  rw [bind_apply]
  cases x st with
  | ok a mid =>
    constructor
    · exact fun h => ⟨a, mid, rfl, h⟩
    · rintro ⟨_, _, ⟨⟩, h⟩
      exact h
  | error e mid => simp

theorem bind_eq_error_iff : (x >>= f) st = .error e st' ↔
    x st = .error e st' ∨ ∃ a mid, x st = .ok a mid ∧ f a mid = .error e st' := by
  rw [bind_apply]
  cases x st with
  | ok a mid =>
    constructor
    · exact fun h => .inr ⟨a, mid, rfl, h⟩
    · rintro (⟨⟨⟩⟩ | ⟨_, _, ⟨⟩, h⟩)
      exact h
  | error e mid => simp

theorem map_eq_ok_iff : (g <$> x) st = .ok b st' ↔ ∃ a, x st = .ok a st' ∧ g a = b := by
  rw [map_apply]
  cases x st with
  | ok a mid =>
    constructor
    · rintro ⟨⟩
      exact ⟨a, rfl, rfl⟩
    · rintro ⟨_, ⟨⟩, rfl⟩
      rfl
  | error e mid => simp

end Step

end ShapeCodec.Running
