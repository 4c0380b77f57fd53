import Calculator.Evaluation

/-!
# Outcomes

A line that is not blank has an outcome.  It is a success if the line has a value, and then nothing
but the line and its value is in it (`calculate_eq_success_iff`), the text of the value never being
empty; otherwise it is a failure, of which nothing is known but the line and the marker
(`calculate_eq_failure`).
-/

set_option autoImplicit false

namespace Calculator

/-! ## Texts of results -/

theorem Decimal.text_ne_nil (d : Decimal) : d.text ≠ [] := by
  have hinteger : d.integerDigits ≠ [] := Nat.toDigits_ne_nil
  rw [text]
  split
  · exact hinteger
  · exact List.append_ne_nil_of_left_ne_nil hinteger _

theorem signed_ne_nil {digits : List Char} (h : digits ≠ []) (negative : Bool) :
    signed negative digits ≠ [] := by
  cases negative
  · exact h
  · exact List.cons_ne_nil _ _

theorem numberText_ne_nil (x : Float) : numberText x ≠ [] := by
  simp only [numberText]
  split
  · exact List.cons_ne_nil _ _
  · split
    · exact signed_ne_nil (List.cons_ne_nil _ _) _
    · split
      · exact signed_ne_nil (List.cons_ne_nil _ _) _
      · exact signed_ne_nil (Decimal.text_ne_nil _) _

/-- There is something to show for every number. -/
theorem resultText_ne_nil (x : Float) : resultText x ≠ [] := by
  simp only [resultText]
  split
  · exact numberText_ne_nil x
  · split
    · exact List.cons_ne_nil _ _
    · exact signed_ne_nil (Decimal.text_ne_nil _) _

/-! ## Outcomes -/

variable {marker input expression result : String}

/-- The marker has no part in a success. -/
theorem calculate_eq_success_iff {value : Float} :
    calculate marker input = some (.success expression value result) ↔
      Text.allBlank input.toList = false ∧ evaluate input.toList = .ok value ∧
        expression = input ∧ result = String.ofList (resultText value) := by
  rw [calculate]
  split
  · rename_i h
    simp [h]
  · rename_i h
    split
    · rename_i x hx
      simp only [Option.some.injEq, Outcome.success.injEq, hx, Except.ok.injEq]
      constructor
      · rintro ⟨rfl, rfl, rfl⟩
        exact ⟨Bool.eq_false_iff.mpr h, rfl, rfl, rfl⟩
      · rintro ⟨-, rfl, rfl, rfl⟩
        exact ⟨rfl, rfl, rfl⟩
    · rename_i hx
      simp [hx]

/-- The line and the marker are all there is in a failure. -/
theorem calculate_eq_failure {shown : String}
    (h : calculate marker input = some (.failure expression shown)) :
    expression = input ∧ shown = marker := by
  rw [calculate] at h
  split at h
  · cases h
  · split at h
    · cases h
    · cases h
      exact ⟨rfl, rfl⟩

end Calculator
