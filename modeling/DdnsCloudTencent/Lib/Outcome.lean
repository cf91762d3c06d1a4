import Mathlib.Tactic.TypeStar

/-!
# What a parser returns

A fault, nothing, or a value with the text behind it. `Returns F N P` says which
faults there are, whether the parser may find nothing, and what holds of a value
and the rest; the rules follow the parser's own composition.
-/

/-- A specification of a parser's result. -/
def Returns {ε α τ : Type*} (F : ε → Prop) (N : Prop) (P : α → τ → Prop) :
    Except ε (Option (α × τ)) → Prop
  | .error f => F f
  | .ok none => N
  | .ok (some x) => P x.1 x.2

namespace Returns

variable {ε α β τ : Type*} {F : ε → Prop} {N : Prop} {P : α → τ → Prop} {Q : β → τ → Prop}
  {r : Except ε (Option (α × τ))}

theorem mono (h : Returns F N P r) {P' : α → τ → Prop} (hP : ∀ x t, P x t → P' x t) :
    Returns F N P' r := by
  rcases r with f | _ | x
  · exact h
  · exact h
  · exact hP x.1 x.2 h

/-- A value is built from another one. -/
theorem map (h : Returns F N P r) {f : α → β} (hf : ∀ x t, P x t → Q (f x) t) :
    Returns F N Q (r.map fun o => o.map fun x => (f x.1, x.2)) := by
  rcases r with e | _ | x
  · exact h
  · exact h
  · exact hf x.1 x.2 h

end Returns

/-- A parser after another one. -/
theorem Returns.bind {ε α β τ : Type} {F : ε → Prop} {N : Prop} {P : α → τ → Prop}
    {Q : β → τ → Prop} {r : Except ε (Option (α × τ))} (h : Returns F N P r)
    {k : Option (α × τ) → Except ε (Option (β × τ))} (hnone : N → Returns F N Q (k none))
    (hk : ∀ x t, r = .ok (some (x, t)) → P x t → Returns F N Q (k (some (x, t)))) :
    Returns F N Q (r >>= k) := by
  rcases r with e | _ | x
  · exact h
  · exact hnone h
  · exact hk x.1 x.2 rfl h
