import Mathlib.Data.List.Basic

/-!
# Runs of a step function

A run is a list of operations applied one after the other (`List.foldl`).

- `Always step P s os`: `P` holds in the first state and after every step;
- `Guarded step G s os`: every operation is applied in a state that meets its
  guard;
- `Always.of_guarded`: an invariant that guarded steps keep holds throughout a
  guarded run;
- `always_iff_guarded`: and where an unguarded step breaks `P` at once, the runs
  in which `P` always holds are the guarded ones.
-/

namespace Runs

variable {S O : Type*} {step : S → O → S} {P Inv : S → Prop} {G : S → O → Prop}

/-- `P` in every state of the run. -/
def Always (step : S → O → S) (P : S → Prop) : S → List O → Prop
  | s, [] => P s
  | s, o :: os => P s ∧ Always step P (step s o) os

/-- `G` at every step of the run. -/
def Guarded (step : S → O → S) (G : S → O → Prop) : S → List O → Prop
  | _, [] => True
  | s, o :: os => G s o ∧ Guarded step G (step s o) os

instance decidableGuarded [∀ s o, Decidable (G s o)] (s : S) (os : List O) :
    Decidable (Guarded step G s os) :=
  match os with
  | [] => isTrue trivial
  | o :: os =>
    have := decidableGuarded (step s o) os
    inferInstanceAs (Decidable (G s o ∧ Guarded step G (step s o) os))

theorem Always.head {s : S} {os : List O} (h : Always step P s os) : P s := by
  cases os with
  | nil => exact h
  | cons o os => exact h.1

/-- The states of a run are the ones that its prefixes end in. -/
theorem always_iff_prefix {s : S} {os : List O} :
    Always step P s os ↔ ∀ pre, pre <+: os → P (pre.foldl step s) := by
  induction os generalizing s with
  | nil =>
    constructor
    · intro h pre hpre
      rw [List.prefix_nil.mp hpre]
      exact h
    · exact fun h => h [] List.prefix_rfl
  | cons o os ih =>
    constructor
    · rintro ⟨hs, hos⟩ pre hpre
      cases pre with
      | nil => exact hs
      | cons o' pre =>
        obtain ⟨rfl, htail⟩ := List.cons_prefix_cons.mp hpre
        exact ih.mp hos pre htail
    · intro h
      exact ⟨h [] List.nil_prefix,
        ih.mpr fun pre hpre => h (o :: pre) (List.cons_prefix_cons.mpr ⟨rfl, hpre⟩)⟩

theorem guarded_of_forall (h : ∀ s o, G s o) (s : S) (os : List O) : Guarded step G s os := by
  induction os generalizing s with
  | nil => trivial
  | cons o os ih => exact ⟨h s o, ih _⟩

theorem Always.of_guarded (hP : ∀ s, Inv s → P s) {os : List O}
    (hstep : ∀ s, ∀ o ∈ os, Inv s → G s o → Inv (step s o)) {s : S} (hs : Inv s)
    (hg : Guarded step G s os) : Always step P s os := by
  induction os generalizing s with
  | nil => exact hP s hs
  | cons o os ih =>
    have htail : ∀ s, ∀ o' ∈ os, Inv s → G s o' → Inv (step s o') :=
      fun s o' ho' => hstep s o' (List.mem_cons_of_mem o ho')
    exact ⟨hP s hs, ih htail (hstep s o List.mem_cons_self hs hg.1) hg.2⟩

/-- What guarded steps keep holds at the end of a guarded run. -/
theorem foldl_of_guarded {os : List O} (hstep : ∀ s, ∀ o ∈ os, P s → G s o → P (step s o))
    {s : S} (hs : P s) (hg : Guarded step G s os) : P (os.foldl step s) :=
  always_iff_prefix.mp (Always.of_guarded (fun _ h => h) hstep hs hg) os List.prefix_rfl

/-- The guard is exact: a step that violates it ends in a state without `P`. -/
theorem always_iff_guarded (hP : ∀ s, Inv s → P s) {os : List O}
    (hstep : ∀ s, ∀ o ∈ os, Inv s → G s o → Inv (step s o))
    (hbreak : ∀ s o, Inv s → ¬ G s o → ¬ P (step s o)) {s : S} (hs : Inv s) :
    Always step P s os ↔ Guarded step G s os := by
  refine ⟨fun h => ?_, Always.of_guarded hP hstep hs⟩
  induction os generalizing s with
  | nil => trivial
  | cons o os ih =>
    have htail : ∀ s, ∀ o' ∈ os, Inv s → G s o' → Inv (step s o') :=
      fun s o' ho' => hstep s o' (List.mem_cons_of_mem o ho')
    have hg : G s o := by
      by_contra hg
      exact hbreak s o hs hg h.2.head
    exact ⟨hg, ih htail (hstep s o List.mem_cons_self hs hg) h.2⟩

end Runs
