import Mathlib

/-! Runs that carry a hidden value along. Where every step of the system is matched by a step
of the hidden value, every run is matched by a run of it. -/

set_option autoImplicit false

namespace ScrapOS.Simulation

variable {State Ghost : Type*} {step : State → State → Prop} {holds : Ghost → State → Prop}

theorem run_matched {ghostStep : Ghost → Ghost → Prop}
    (matched : ∀ ghost state state', holds ghost state → step state state' →
      ∃ ghost', ghostStep ghost ghost' ∧ holds ghost' state')
    {ghost : Ghost} {state state' : State} (start : holds ghost state)
    (ran : Relation.ReflTransGen step state state') :
    ∃ ghost', Relation.ReflTransGen ghostStep ghost ghost' ∧ holds ghost' state' := by
  induction ran with
  | refl => exact ⟨ghost, .refl, start⟩
  | tail _ stepped ih =>
      obtain ⟨middle, before, between⟩ := ih
      obtain ⟨ghost', last, after⟩ := matched _ _ _ between stepped
      exact ⟨ghost', before.tail last, after⟩

/-- An invariant that holds of some hidden value at the start holds of some in every state. -/
theorem run_holds
    (kept : ∀ ghost state state', holds ghost state → step state state' →
      ∃ ghost', holds ghost' state')
    {ghost : Ghost} {state state' : State} (start : holds ghost state)
    (ran : Relation.ReflTransGen step state state') : ∃ ghost', holds ghost' state' := by
  have matched : ∀ ghost state state', holds ghost state → step state state' →
      ∃ ghost', True ∧ holds ghost' state' := by
    intro ghost state state' before stepped
    obtain ⟨ghost', after⟩ := kept _ _ _ before stepped
    exact ⟨ghost', trivial, after⟩
  obtain ⟨ghost', -, after⟩ := run_matched matched start ran
  exact ⟨ghost', after⟩

end ScrapOS.Simulation
