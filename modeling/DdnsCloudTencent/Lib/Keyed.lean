import Mathlib.Data.Option.Basic
import Mathlib.Logic.Function.Basic

/-!
# Stores with one value at each key

A `Store` is a partial map, so that its keys are distinct by construction. A
`Change` acts on the value at one key: it can edit or erase it, and it never
makes one appear. What a sequence of changes does to a key is known from the
changes that name it.

- `foldl_apply_of_ne`: a key that no change names keeps its value;
- `foldl_apply_of_mem`: where all changes that name a key are one and the same,
  and repeating it does nothing more, the key ends as after that one change.
-/

namespace Keyed

/-- A partial map. -/
abbrev Store (K V : Type*) := K → Option V

/-- A change of the value at one key: `none` erases it. -/
structure Change (K V : Type*) where
  key : K
  act : V → Option V

variable {K V : Type*}

namespace Change

/-- Erase the value. -/
def erase (k : K) : Change K V := ⟨k, fun _ => none⟩

/-- Replace the value, if there is one. -/
def edit (k : K) (f : V → V) : Change K V := ⟨k, fun v => some (f v)⟩

/-- Repeating the change does nothing more. -/
def Idempotent (c : Change K V) : Prop := ∀ v, (c.act v).bind c.act = c.act v

theorem idempotent_erase (k : K) : (erase k : Change K V).Idempotent := fun _ => rfl

theorem idempotent_edit {k : K} {f : V → V} (h : ∀ v, f (f v) = f v) :
    (edit k f).Idempotent :=
  fun v => congrArg some (h v)

variable [DecidableEq K]

/-- The store after a change. -/
def apply (z : Store K V) (c : Change K V) : Store K V :=
  Function.update z c.key ((z c.key).bind c.act)

@[simp] theorem apply_key (z : Store K V) (c : Change K V) :
    c.apply z c.key = (z c.key).bind c.act :=
  Function.update_self _ _ _

theorem apply_of_ne (z : Store K V) {c : Change K V} {k : K} (h : c.key ≠ k) :
    c.apply z k = z k :=
  Function.update_of_ne (Ne.symm h) _ _

end Change

section Runs

variable [DecidableEq K] {cs : List (Change K V)}

/-- No change makes a value appear. -/
theorem foldl_apply_of_none {z : Store K V} {k : K} (h : z k = none) :
    cs.foldl Change.apply z k = none := by
  induction cs generalizing z with
  | nil => exact h
  | cons c cs ih =>
    refine ih ?_
    by_cases hk : c.key = k
    · rw [← hk, Change.apply_key, hk, h, Option.bind_none]
    · rw [Change.apply_of_ne z hk, h]

theorem foldl_apply_of_ne {z : Store K V} {k : K} (h : ∀ c ∈ cs, c.key ≠ k) :
    cs.foldl Change.apply z k = z k := by
  induction cs generalizing z with
  | nil => rfl
  | cons c cs ih =>
    have hrest : cs.foldl Change.apply (c.apply z) k = c.apply z k :=
      ih fun c' hc' => h c' (List.mem_cons_of_mem c hc')
    rw [List.foldl_cons, hrest, Change.apply_of_ne z (h c List.mem_cons_self)]

theorem foldl_apply_of_mem (z : Store K V) {c : Change K V} (hc : c ∈ cs) (hidem : c.Idempotent)
    (hsame : ∀ c' ∈ cs, c'.key = c.key → c' = c) :
    cs.foldl Change.apply z c.key = (z c.key).bind c.act := by
  -- from the first change that names the key on, the value is a fixed point
  have hfixed : ∀ (cs : List (Change K V)) (z : Store K V),
      (∀ c' ∈ cs, c'.key = c.key → c' = c) → (z c.key).bind c.act = z c.key →
      cs.foldl Change.apply z c.key = z c.key := by
    intro cs
    induction cs with
    | nil => exact fun _ _ _ => rfl
    | cons d cs ih =>
      intro z hsame hz
      have hstep : d.apply z c.key = z c.key := by
        by_cases hd : d.key = c.key
        · rw [hsame d List.mem_cons_self hd, Change.apply_key, hz]
        · exact Change.apply_of_ne z hd
      have hrest := ih (d.apply z) (fun c' hc' => hsame c' (List.mem_cons_of_mem d hc'))
        (by rw [hstep, hz])
      rw [List.foldl_cons, hrest, hstep]
  induction cs generalizing z with
  | nil => exact absurd hc List.not_mem_nil
  | cons d cs ih =>
    have hsame' : ∀ c' ∈ cs, c'.key = c.key → c' = c :=
      fun c' hc' => hsame c' (List.mem_cons_of_mem d hc')
    rw [List.foldl_cons]
    by_cases hd : d.key = c.key
    · obtain rfl := hsame d List.mem_cons_self hd
      have hz : (d.apply z d.key).bind d.act = d.apply z d.key := by
        rw [Change.apply_key, Option.bind_assoc]
        cases z d.key with
        | none => rfl
        | some v => exact hidem v
      rw [hfixed cs _ hsame' hz, Change.apply_key]
    · have hmem : c ∈ cs := (List.mem_cons.mp hc).resolve_left fun h => hd (by rw [h])
      rw [ih _ hmem hsame', Change.apply_of_ne z hd]

end Runs

end Keyed
