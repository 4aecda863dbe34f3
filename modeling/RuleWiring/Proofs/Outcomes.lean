import Mathlib
import RuleWiring.Evaluation.Basic

/-!
# How computations end

Checks and evaluations end with a result or with an error. The lemmas here take a computation
apart that was put together from others: what it ended with says what its parts did.

An evaluation also has a store. Where there is nothing to store, all that matters is its
outcome, and `Ends` says what holds of the outcome in either case.
-/

namespace RuleWiring

/-! ## Results changed on the way -/

section Map

variable {ε α γ : Type} {f : α → γ} {m : Except ε α}

theorem map_eq_ok {y : γ} (h : m.map f = .ok y) : ∃ x, m = .ok x ∧ f x = y := by
  cases m with
  | ok x =>
      injection h with h
      exact ⟨x, rfl, h⟩
  | error e => exact absurd h (by simp [Except.map])

theorem map_eq_error {e : ε} (h : m.map f = .error e) : m = .error e := by
  cases m with
  | ok x => exact absurd h (by simp [Except.map])
  | error e' =>
      injection h with h
      rw [h]

end Map

/-! ## Running with a state -/

section State

variable {σ α γ : Type}

theorem stateM_bind (m : StateM σ α) (k : α → StateM σ γ) (s : σ) :
    (m >>= k) s = k (m s).1 (m s).2 := rfl

theorem stateM_mapM_cons (f : α → StateM σ γ) (a : α) (l : List α) (s : σ) :
    (a :: l).mapM f s = ((f a s).1 :: (l.mapM f (f a s).2).1, (l.mapM f (f a s).2).2) := by
  rw [List.mapM_cons]
  rfl

end State

/-! ## Running an evaluation -/

namespace EvalM

variable {σ α γ : Type}

/-- The result of an evaluation, and the store after it. -/
def exec (m : EvalM σ α) (st : σ) : Except EvalError α × σ := m.run st

theorem exec_bind (m : EvalM σ α) (k : α → EvalM σ γ) (st : σ) :
    (m >>= k).exec st = match m.exec st with
      | (.ok x, st') => (k x).exec st'
      | (.error e, st') => (.error e, st') := by
  have hrun : (m >>= k).exec st
      = (fun p : Except EvalError α × σ => ExceptT.bindCont k p.1 p.2) (m.exec st) := rfl
  rw [hrun]
  rcases m.exec st with ⟨r, st'⟩
  cases r <;> rfl

theorem exec_bind_ok {m : EvalM σ α} {k : α → EvalM σ γ} {st st' : σ} {x : α}
    (h : m.exec st = (.ok x, st')) : (m >>= k).exec st = (k x).exec st' := by
  rw [exec_bind, h]

/-- Making something never fails. -/
theorem exec_lift {m : StateM σ α} {st st' : σ} {x : α} (h : m st = (x, st')) :
    EvalM.exec (liftM m : EvalM σ α) st = (.ok x, st') := by
  show (fun p : α × σ => (Except.ok p.1, p.2)) (m st) = _
  rw [h]

/-- The result of an evaluation that stores nothing. -/
def outcome (m : EvalM Unit α) : Except EvalError α := (m.exec ()).1

theorem outcome_bind_ok {m : EvalM Unit α} {k : α → EvalM Unit γ} {x : α}
    (h : m.outcome = .ok x) : (m >>= k).outcome = (k x).outcome := by
  have hrun : m.exec () = (.ok x, ()) := Prod.ext h rfl
  rw [outcome, exec_bind_ok hrun]
  rfl

theorem outcome_bind_error {m : EvalM Unit α} {k : α → EvalM Unit γ} {e : EvalError}
    (h : m.outcome = .error e) : (m >>= k).outcome = .error e := by
  rw [outcome, exec_bind, show m.exec () = (.error e, ()) from Prod.ext h rfl]

/-! ## What holds at the end -/

section Ends

variable {P : α → Prop} {Q : EvalError → Prop}

/-- An evaluation ends with a value of which `P` holds, or with an error of which `Q` does. -/
def Ends (m : EvalM Unit α) (P : α → Prop) (Q : EvalError → Prop) : Prop :=
  match m.outcome with
  | .ok x => P x
  | .error e => Q e

theorem ends_ok {m : EvalM Unit α} {x : α} (h : Ends m P Q) (hm : m.outcome = .ok x) : P x := by
  rwa [Ends, hm] at h

theorem ends_error {m : EvalM Unit α} {e : EvalError} (h : Ends m P Q)
    (hm : m.outcome = .error e) : Q e := by
  rwa [Ends, hm] at h

theorem ends_of_outcome {m : EvalM Unit α} {x : α} (hm : m.outcome = .ok x) (hx : P x) :
    Ends m P Q := by
  rwa [Ends, hm]

theorem ends_imp {m : EvalM Unit α} {P' : α → Prop} {Q' : EvalError → Prop} (h : Ends m P Q)
    (hP : ∀ x, P x → P' x) (hQ : ∀ e, Q e → Q' e) : Ends m P' Q' := by
  cases hrun : m.outcome with
  | ok x =>
      rw [Ends, hrun]
      exact hP x (ends_ok h hrun)
  | error e =>
      rw [Ends, hrun]
      exact hQ e (ends_error h hrun)

theorem ends_bind {m : EvalM Unit α} {k : α → EvalM Unit γ} {P' : γ → Prop} (hm : Ends m P Q)
    (hk : ∀ x, P x → Ends (k x) P' Q) : Ends (m >>= k) P' Q := by
  cases hrun : m.outcome with
  | ok x =>
      rw [Ends, outcome_bind_ok hrun]
      exact hk x (ends_ok hm hrun)
  | error e =>
      rw [Ends, outcome_bind_error hrun]
      exact ends_error hm hrun

end Ends

end EvalM

end RuleWiring
