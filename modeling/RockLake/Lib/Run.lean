import Mathlib.Init

/-! Labelled runs of a transition relation, with the two induction rules used for every system:
an invariant kept by each step, and a relation between two points carried along the steps. -/

/-- `Run step s events t`: the events take the system from `s` to `t`, one step each. -/
inductive Run {S E : Type} (step : S → E → S → Prop) : S → List E → S → Prop
  | done {s : S} : Run step s [] s
  | next {s t u : S} {e : E} {events : List E} :
      step s e t → Run step t events u → Run step s (e :: events) u

namespace Run

variable {S E : Type} {step : S → E → S → Prop} {s t u : S} {events later : List E}

theorem append (first : Run step s events t) (second : Run step t later u) :
    Run step s (events ++ later) u := by
  induction first with
  | done => exact second
  | next stepped _ ih => exact .next stepped (ih second)

theorem single {e : E} (stepped : step s e t) : Run step s [e] t := .next stepped .done

theorem mono (weaken : ∀ s e t, step s e t → wider s e t) (ran : Run step s events t) :
    Run wider s events t := by
  induction ran with
  | done => exact .done
  | next stepped _ ih => exact .next (weaken _ _ _ stepped) ih

theorem invariant (inv : S → Prop) (kept : ∀ s e t, inv s → step s e t → inv t)
    (start : inv s) (ran : Run step s events t) : inv t := by
  induction ran with
  | done => exact start
  | next stepped _ ih => exact ih (kept _ _ _ start stepped)

/-- A reflexive and transitive relation that every step satisfies holds between the two ends of
every run. The steps may use an invariant. -/
theorem relates (inv : S → Prop) (rel : S → S → Prop) (refl : ∀ s, rel s s)
    (trans : ∀ s t u, rel s t → rel t u → rel s u)
    (kept : ∀ s e t, inv s → step s e t → inv t)
    (stepped : ∀ s e t, inv s → step s e t → rel s t)
    (start : inv s) (ran : Run step s events t) : rel s t := by
  induction ran with
  | done => exact refl _
  | next first _ ih =>
    exact trans _ _ _ (stepped _ _ _ start first) (ih (kept _ _ _ start first))

/-- If each step from a good state leads to a good state exactly when it meets a condition, then the
runs through good states are those whose steps all meet the condition. -/
theorem keeps_iff (inv good : S → Prop) (meets : S → E → Prop)
    (kept : ∀ s e t, inv s → step s e t → inv t)
    (each : ∀ s e t, inv s → good s → step s e t → (good t ↔ meets s e))
    (start : inv s) (first : good s) :
    Run (fun s e t => step s e t ∧ good t) s events t ↔
      Run (fun s e t => step s e t ∧ meets s e) s events t := by
  constructor
  · intro ran
    induction ran with
    | done => exact .done
    | next stepped _ ih =>
      exact .next ⟨stepped.1, (each _ _ _ start first stepped.1).mp stepped.2⟩
        (ih (kept _ _ _ start stepped.1) stepped.2)
  · intro ran
    induction ran with
    | done => exact .done
    | next stepped _ ih =>
      have after := (each _ _ _ start first stepped.1).mpr stepped.2
      exact .next ⟨stepped.1, after⟩ (ih (kept _ _ _ start stepped.1) after)

end Run
