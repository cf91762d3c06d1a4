import DdnsCloudTencent.Lib.Runs
import Mathlib.Logic.Function.Iterate

/-!
# Parties that share a world

Any number of parties run one program, each on a state of its own, and share a
world. A schedule is a list of parties: each of them takes its next step in turn,
so that a theorem about every schedule is one about every interleaving.

- `run_of_guarded`: an invariant of each party that its own steps keep, and that
  holds on while the others step, holds after every run. What a step does to the
  others is one relation between worlds;
- `run_replicate`: a party that is alone on a stretch of the schedule does there
  what its program does (`alone`).
-/

namespace Parties

variable {I L W : Type*}

/-- The states of the parties and the world they share. -/
structure System (I L W : Type*) where
  own : I → L
  world : W

variable [DecidableEq I]

/-- A party's next step: nothing happens where it has none. -/
def System.step (next : L → W → Option (L × W)) (c : System I L W) (i : I) : System I L W :=
  match next (c.own i) c.world with
  | none => c
  | some (l, w) => ⟨Function.update c.own i l, w⟩

/-- The parties of a schedule, one step each. -/
def System.run (next : L → W → Option (L × W)) (c : System I L W) (is : List I) :
    System I L W :=
  is.foldl (System.step next) c

variable {next : L → W → Option (L × W)}

theorem System.step_none {c : System I L W} {i : I} (h : next (c.own i) c.world = none) :
    c.step next i = c := by
  rw [System.step, h]

theorem System.step_some {c : System I L W} {i : I} {l : L} {w : W}
    (h : next (c.own i) c.world = some (l, w)) :
    c.step next i = ⟨Function.update c.own i l, w⟩ := by
  rw [System.step, h]

/-! ## Invariants -/

section Invariants

variable {P : I → L → W → Prop} {R : W → W → Prop} {G : I → L → W → Prop}

theorem step_stable
    (hown : ∀ i l w l' w', P i l w → G i l w → next l w = some (l', w') →
      P i l' w' ∧ R w w')
    (hothers : ∀ i l w w', P i l w → R w w' → P i l w')
    {c : System I L W} (hc : ∀ i, P i (c.own i) c.world) {i : I}
    (hguard : G i (c.own i) c.world) (j : I) :
    P j ((c.step next i).own j) (c.step next i).world := by
  cases hnext : next (c.own i) c.world with
  | none =>
    rw [System.step_none hnext]
    exact hc j
  | some p =>
    obtain ⟨l, w⟩ := p
    obtain ⟨hinv, heffect⟩ := hown i _ _ l w (hc i) hguard hnext
    rw [System.step_some hnext]
    by_cases hj : j = i
    · subst hj
      simpa using hinv
    · simpa [Function.update_of_ne hj] using hothers j _ _ w (hc j) heffect

/-- **Invariants of parties that do not interfere**: it is enough that a guarded
step of a party keeps its own invariant and has an effect that leaves those of
the others alone. -/
theorem run_of_guarded
    (hown : ∀ i l w l' w', P i l w → G i l w → next l w = some (l', w') → P i l' w' ∧ R w w')
    (hothers : ∀ i l w w', P i l w → R w w' → P i l w')
    {c : System I L W} (hc : ∀ i, P i (c.own i) c.world) {is : List I}
    (hguard : Runs.Guarded (System.step next) (fun c i => G i (c.own i) c.world) c is) (i : I) :
    P i ((c.run next is).own i) (c.run next is).world :=
  Runs.foldl_of_guarded (P := fun c => ∀ i, P i (c.own i) c.world)
    (fun _ _ _ h hg => step_stable hown hothers h hg) hc hguard i

/-- The same where every step is allowed. -/
theorem run_of_stable
    (hown : ∀ i l w l' w', P i l w → next l w = some (l', w') → P i l' w' ∧ R w w')
    (hothers : ∀ i l w w', P i l w → R w w' → P i l w')
    {c : System I L W} (hc : ∀ i, P i (c.own i) c.world) (is : List I) (i : I) :
    P i ((c.run next is).own i) (c.run next is).world :=
  run_of_guarded (G := fun _ _ _ => True) (fun i l w l' w' h _ => hown i l w l' w' h) hothers hc
    (Runs.guarded_of_forall (fun _ _ => trivial) c is) i

end Invariants

/-! ## A party alone -/

/-- One step of a program that nothing interferes with. -/
def alone (next : L → W → Option (L × W)) (p : L × W) : L × W := (next p.1 p.2).getD p

theorem alone_of_some {p q : L × W} (h : next p.1 p.2 = some q) : alone next p = q := by
  rw [alone, h, Option.getD_some]

/-- **A stretch of one party**: it does what its program does alone. -/
theorem run_replicate (c : System I L W) (i : I) (n : Nat) :
    c.run next (List.replicate n i) =
      ⟨Function.update c.own i ((alone next)^[n] (c.own i, c.world)).1,
        ((alone next)^[n] (c.own i, c.world)).2⟩ := by
  induction n generalizing c with
  | zero => simp [System.run]
  | succ n ih =>
    have hrun : c.run next (List.replicate (n + 1) i) =
        (c.step next i).run next (List.replicate n i) := rfl
    rw [hrun, ih, Function.iterate_succ_apply]
    cases hnext : next (c.own i) c.world with
    | none =>
      have halone : alone next (c.own i, c.world) = (c.own i, c.world) := by
        rw [alone, hnext, Option.getD_none]
      rw [System.step_none hnext, halone]
    | some p =>
      obtain ⟨l, w⟩ := p
      rw [System.step_some hnext, alone_of_some (q := (l, w)) hnext]
      simp

end Parties
