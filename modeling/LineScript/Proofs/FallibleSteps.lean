/-
Steps that may fail.  Steps that are taken one after another succeed when each of
them does, so a successful computation is taken apart step by step.  They fail
with the fault of the first step that does.
-/
namespace LineScript

theorem bind_eq_ok_iff {ε α β : Type} {first : Except ε α}
    {next : α → Except ε β} {result : β} :
    (first >>= next) = .ok result ↔
      ∃ value, first = .ok value ∧ next value = .ok result := by
  cases first with
  | error fault => simp [bind, Except.bind]
  | ok value => simp [bind, Except.bind]

theorem bind_eq_error_iff {ε α β : Type} {first : Except ε α}
    {next : α → Except ε β} {fault : ε} :
    (first >>= next) = .error fault ↔
      first = .error fault ∨
        ∃ value, first = .ok value ∧ next value = .error fault := by
  cases first with
  | error other => simp [bind, Except.bind]
  | ok value => simp [bind, Except.bind]

/-- A fault that no step can end with is not the fault of the whole. -/
theorem bind_ne_error {ε α β : Type} {first : Except ε α}
    {next : α → Except ε β} {fault : ε} (hfirst : first ≠ .error fault)
    (hnext : ∀ value, next value ≠ .error fault) :
    (first >>= next) ≠ .error fault := by
  intro hfails
  rcases bind_eq_error_iff.mp hfails with hfault | ⟨value, _, hlater⟩
  · exact hfirst hfault
  · exact hnext value hlater

theorem pure_eq_ok_iff {ε α : Type} {value result : α} :
    (pure value : Except ε α) = .ok result ↔ value = result := by
  simp [pure, Except.pure]

theorem map_eq_ok_iff {ε α β : Type} {first : Except ε α} {change : α → β}
    {result : β} :
    first.map change = .ok result ↔
      ∃ value, first = .ok value ∧ change value = result := by
  cases first with
  | error fault => simp [Except.map]
  | ok value => simp [Except.map]

end LineScript
