import SharedList.Proofs.Growth
import SharedList.Value.Basic

/-!
# Chains inside values

A value may be a chain whose elements are chains again.

* `Value.Holds` — a chain occurs in a value, at whatever depth.
* `Value.WellFormed` — every chain that occurs in a value is well formed.
-/

set_option autoImplicit false

namespace SharedList.Value

/-- The chain occurs in the value: it is the value itself, or occurs in an element of it. -/
inductive Holds : Value → Chain Value → Prop
  | here (xs : Chain Value) : Holds (list xs) xs
  | deeper {xs ys : Chain Value} {x : Value} : x ∈ ys.toList → Holds x xs → Holds (list ys) xs

theorem holds_list_iff {ys xs : Chain Value} :
    Holds (list ys) xs ↔ xs = ys ∨ ∃ x ∈ ys.toList, Holds x xs := by
  constructor
  · intro h
    cases h with
    | here => exact .inl rfl
    | deeper hx h => exact .inr ⟨_, hx, h⟩
  · rintro (rfl | ⟨x, hx, h⟩)
    · exact .here xs
    · exact .deeper hx h

/-- Every chain in the value is well formed. -/
def WellFormed (v : Value) : Prop := ∀ xs, v.Holds xs → xs.WellFormed

theorem wellFormed_list_iff {xs : Chain Value} :
    (list xs).WellFormed ↔ xs.WellFormed ∧ ∀ x ∈ xs.toList, x.WellFormed := by
  constructor
  · intro h
    exact ⟨h xs (.here xs), fun x hx ys hys => h ys (.deeper hx hys)⟩
  · rintro ⟨hself, helems⟩ ys hys
    rcases holds_list_iff.mp hys with rfl | ⟨x, hx, hys⟩
    · exact hself
    · exact helems x hx ys hys

end SharedList.Value
