import DdnsCloudTencent.Lib.JsonWriting

/-!
# The outline of a text

What a text looks like to a reader that tells strings from the rest and nothing
more. All of it is defined for any bytes, JSON or not.

- `WellEscaped`: no string has a broken escape;
- `skeleton`: the text without the contents of its strings. `nesting` is how deep
  its brackets are nested, `SmallExponents` bounds its exponents;
- `Leaves`: what is left of a skeleton behind a part of it;
- `Denotes.outline`: JSON text is well escaped, and nests as deep as its value.
-/

namespace Json

open Cxx

/-! ## Strings and the rest -/

/-- Every escape has its byte, and every `\u` four bytes of the string behind it.
The flag says whether the text starts inside a string. -/
def wellEscaped : Bool → Bytes → Bool
  | _, [] => true
  | false, c :: s => wellEscaped (c == 34) s
  | true, [c] => c != 92
  | true, c :: d :: s =>
    if c = 34 then wellEscaped false (d :: s)
    else if c ≠ 92 then wellEscaped true (d :: s)
    else if d ≠ 117 then wellEscaped true s
    else match s with
      | h₁ :: h₂ :: h₃ :: h₄ :: s =>
        [h₁, h₂, h₃, h₄].all (fun c => c != 34 && c != 92) && wellEscaped true s
      | _ => false

/-- A text without a broken escape. -/
def WellEscaped (inside : Bool) (s : Bytes) : Prop := wellEscaped inside s = true

instance (inside : Bool) (s : Bytes) : Decidable (WellEscaped inside s) :=
  inferInstanceAs (Decidable (_ = _))

/-- The text with the contents of its strings left out, their quotation marks kept. -/
def skeleton : Bool → Bytes → Bytes
  | _, [] => []
  | false, c :: s => c :: skeleton (c == 34) s
  | true, [c] => if c = 34 then [34] else []
  | true, c :: d :: s =>
    if c = 34 then 34 :: skeleton false (d :: s)
    else if c ≠ 92 then skeleton true (d :: s)
    else skeleton true s

section Strings

variable {c d : UInt8} {p s : Bytes}

theorem wellEscaped_plain (hquote : c ≠ 34) (hback : c ≠ 92) :
    WellEscaped true (c :: s) ↔ WellEscaped true s := by
  cases s with
  | nil => simp [WellEscaped, wellEscaped, hback]
  | cons d s =>
    rw [WellEscaped, wellEscaped.eq_def]
    simp only [if_neg hquote, if_pos hback]
    rfl

theorem wellEscaped_escape (hu : d ≠ 117) :
    WellEscaped true (92 :: d :: s) ↔ WellEscaped true s := by
  rw [WellEscaped, wellEscaped.eq_def]
  simp only [if_pos hu]
  rfl

theorem wellEscaped_unicode_iff {h₁ h₂ h₃ h₄ : UInt8} :
    WellEscaped true (92 :: 117 :: h₁ :: h₂ :: h₃ :: h₄ :: s) ↔
      (∀ c ∈ [h₁, h₂, h₃, h₄], c ≠ 34 ∧ c ≠ 92) ∧ WellEscaped true s := by
  have hsplit : WellEscaped true (92 :: 117 :: h₁ :: h₂ :: h₃ :: h₄ :: s) ↔
      [h₁, h₂, h₃, h₄].all (fun c => c != 34 && c != 92) = true ∧ wellEscaped true s = true :=
    Bool.and_eq_true_iff
  rw [hsplit, List.all_eq_true]
  refine and_congr_left fun _ => forall₂_congr fun c _ => ?_
  simp

/-- A `\u` has four bytes behind it. -/
theorem four_of_wellEscaped (h : WellEscaped true (92 :: 117 :: s)) :
    ∃ h₁ h₂ h₃ h₄ s', s = h₁ :: h₂ :: h₃ :: h₄ :: s' := by
  rcases s with _ | ⟨h₁, _ | ⟨h₂, _ | ⟨h₃, _ | ⟨h₄, s⟩⟩⟩⟩
  all_goals first
    | exact ⟨_, _, _, _, _, rfl⟩
    | exact absurd h Bool.false_ne_true

theorem wellEscaped_close : WellEscaped true (34 :: s) ↔ WellEscaped false s := by
  cases s with
  | nil => exact iff_of_true rfl rfl
  | cons d s =>
    rw [WellEscaped, wellEscaped.eq_def]
    rfl

theorem wellEscaped_open : WellEscaped false (34 :: s) ↔ WellEscaped true s := Iff.rfl

theorem wellEscaped_outside (hquote : c ≠ 34) :
    WellEscaped false (c :: s) ↔ WellEscaped false s := by
  have hc : (c == 34) = false := by simpa using hquote
  rw [WellEscaped, wellEscaped, hc]
  rfl

/-- Text without quotation marks, outside a string. -/
theorem wellEscaped_append (hp : 34 ∉ p) : WellEscaped false (p ++ s) ↔ WellEscaped false s := by
  induction p with
  | nil => rfl
  | cons c p ih =>
    rw [List.mem_cons, not_or] at hp
    rw [List.cons_append, wellEscaped_outside (Ne.symm hp.1), ih hp.2]

theorem skeleton_plain (hquote : c ≠ 34) (hback : c ≠ 92) :
    skeleton true (c :: s) = skeleton true s := by
  cases s with
  | nil => exact if_neg hquote
  | cons d s => exact (if_neg hquote).trans (if_pos hback)

theorem skeleton_escape : skeleton true (92 :: d :: s) = skeleton true s := by
  rw [skeleton, if_neg (by decide), if_neg (by decide)]

/-- The digits of an escape. -/
theorem skeleton_four {h₁ h₂ h₃ h₄ : UInt8} (h : ∀ c ∈ [h₁, h₂, h₃, h₄], c ≠ 34 ∧ c ≠ 92) :
    skeleton true (h₁ :: h₂ :: h₃ :: h₄ :: s) = skeleton true s := by
  obtain ⟨hne₁, hne₂, hne₃, hne₄, -⟩ := by simpa only [List.forall_mem_cons] using h
  rw [skeleton_plain hne₁.1 hne₁.2, skeleton_plain hne₂.1 hne₂.2, skeleton_plain hne₃.1 hne₃.2,
    skeleton_plain hne₄.1 hne₄.2]

theorem skeleton_close : skeleton true (34 :: s) = 34 :: skeleton false s := by
  cases s with
  | nil => rfl
  | cons d s => exact if_pos rfl

theorem skeleton_open : skeleton false (34 :: s) = 34 :: skeleton true s := rfl

theorem skeleton_outside (hquote : c ≠ 34) : skeleton false (c :: s) = c :: skeleton false s := by
  have hc : (c == 34) = false := by simpa using hquote
  rw [skeleton, hc]

theorem skeleton_append (hp : 34 ∉ p) : skeleton false (p ++ s) = p ++ skeleton false s := by
  induction p with
  | nil => rfl
  | cons c p ih =>
    rw [List.mem_cons, not_or] at hp
    rw [List.cons_append, skeleton_outside (Ne.symm hp.1), ih hp.2, List.cons_append]

/-- Digits at the start are there in the skeleton as well. -/
theorem takeWhile_skeleton (s : Bytes) :
    (skeleton false s).takeWhile isDigit = s.takeWhile isDigit := by
  induction s with
  | nil => rfl
  | cons c s ih =>
    by_cases hc : isDigit c = true
    · have hquote : c ≠ 34 := by
        rintro rfl
        exact absurd hc (by decide)
      rw [skeleton_outside hquote, List.takeWhile_cons_of_pos hc, List.takeWhile_cons_of_pos hc, ih]
    · rw [skeleton, List.takeWhile_cons_of_neg hc, List.takeWhile_cons_of_neg hc]

end Strings

/-! ## Brackets and exponents -/

/-- How many brackets are open at most. -/
def depth : Bytes → Nat
  | [] => 0
  | c :: s =>
    if c = 91 ∨ c = 123 then depth s + 1
    else if c = 93 ∨ c = 125 then depth s - 1
    else depth s

/-- How deep the brackets of a text are nested, outside its strings. -/
def nesting (s : Bytes) : Nat := depth (skeleton false s)

/-- The digits of an exponent, behind its sign. -/
def unsigned : Bytes → Bytes
  | 43 :: s => s
  | 45 :: s => s
  | s => s

/-- Every exponent is below the limit. -/
def ExponentsBelow (limit : Nat) : Bytes → Prop
  | [] => True
  | c :: s =>
    (c = 101 ∨ c = 69 → ofNumeral 10 ((unsigned s).takeWhile isDigit) < limit) ∧
      ExponentsBelow limit s

instance (limit : Nat) : (s : Bytes) → Decidable (ExponentsBelow limit s)
  | [] => .isTrue trivial
  | c :: s =>
    have : Decidable (ExponentsBelow limit s) := instDecidableExponentsBelow limit s
    inferInstanceAs (Decidable ((c = 101 ∨ c = 69 →
      ofNumeral 10 ((unsigned s).takeWhile isDigit) < limit) ∧ ExponentsBelow limit s))

/-- The exponents of a text are below the limit, outside its strings. -/
def SmallExponents (limit : Nat) (s : Bytes) : Prop := ExponentsBelow limit (skeleton false s)

instance (limit : Nat) (s : Bytes) : Decidable (SmallExponents limit s) :=
  inferInstanceAs (Decidable (ExponentsBelow limit (skeleton false s)))

/-- The digits of an exponent are those of the skeleton. -/
theorem takeWhile_unsigned_skeleton (s : Bytes) :
    (unsigned (skeleton false s)).takeWhile isDigit = (unsigned s).takeWhile isDigit := by
  cases s with
  | nil => rfl
  | cons c s =>
    by_cases hsign : c = 43 ∨ c = 45
    · rcases hsign with rfl | rfl
      · exact takeWhile_skeleton s
      · exact takeWhile_skeleton s
    · rw [not_or] at hsign
      have hplain : ∀ t, unsigned (c :: t) = c :: t := by
        intro t
        unfold unsigned
        split
        · next h => exact absurd (List.cons.inj h).1 hsign.1
        · next h => exact absurd (List.cons.inj h).1 hsign.2
        · rfl
      have hcons : skeleton false (c :: s) = c :: skeleton (c == 34) s := rfl
      rw [hcons, hplain, hplain, ← hcons, takeWhile_skeleton]

theorem ExponentsBelow.suffix {limit : Nat} {s t : Bytes} (h : ExponentsBelow limit s)
    (hsuffix : t <:+ s) : ExponentsBelow limit t := by
  obtain ⟨p, rfl⟩ := hsuffix
  induction p with
  | nil => exact h
  | cons c p ih => exact ih h.2

/-- A byte that is neither a bracket nor a brace. -/
def NoBracket (c : UInt8) : Prop := c ≠ 91 ∧ c ≠ 123 ∧ c ≠ 93 ∧ c ≠ 125

instance : DecidablePred NoBracket := fun c =>
  inferInstanceAs (Decidable (c ≠ 91 ∧ c ≠ 123 ∧ c ≠ 93 ∧ c ≠ 125))

theorem depth_cons {c : UInt8} (hc : NoBracket c) (s : Bytes) : depth (c :: s) = depth s := by
  obtain ⟨h₁, h₂, h₃, h₄⟩ := hc
  rw [depth, if_neg (not_or.mpr ⟨h₁, h₂⟩), if_neg (not_or.mpr ⟨h₃, h₄⟩)]

theorem depth_append {p : Bytes} (hp : ∀ c ∈ p, NoBracket c) (s : Bytes) :
    depth (p ++ s) = depth s := by
  induction p with
  | nil => rfl
  | cons c p ih =>
    obtain ⟨hc, hp⟩ := List.forall_mem_cons.mp hp
    rw [List.cons_append, depth_cons hc, ih hp]

theorem depth_open {c : UInt8} (hc : c = 91 ∨ c = 123) (s : Bytes) :
    depth (c :: s) = depth s + 1 := by
  rw [depth, if_pos hc]

theorem depth_close {c : UInt8} (hc : c = 93 ∨ c = 125) (s : Bytes) :
    depth (c :: s) = depth s - 1 := by
  have hopen : ¬ (c = 91 ∨ c = 123) := by rcases hc with rfl | rfl <;> decide
  rw [depth, if_neg hopen, if_pos hc]

/-! ## Behind a part of a text -/

/-- What is left of a skeleton nests no deeper, but for the brackets closed in between. -/
structure Leaves (closed : Nat) (s t : Bytes) : Prop where
  suffix : t <:+ s
  depth : depth t ≤ depth s + closed

namespace Leaves

variable {k : Nat} {c : UInt8} {p s t r : Bytes}

theorem refl (s : Bytes) : Leaves 0 s s := ⟨List.suffix_rfl, le_rfl⟩

theorem trans (h : Leaves 0 s t) (h' : Leaves k t r) : Leaves k s r :=
  ⟨h'.suffix.trans h.suffix, h'.depth.trans (Nat.add_le_add_right h.depth k)⟩

theorem append (hp : ∀ c ∈ p, NoBracket c) (s : Bytes) : Leaves 0 (p ++ s) s :=
  ⟨List.suffix_append p s, (depth_append hp s).ge⟩

theorem cons (hc : NoBracket c) (s : Bytes) : Leaves 0 (c :: s) s :=
  ⟨List.suffix_cons c s, (depth_cons hc s).ge⟩

/-- The bracket that is closed in between was opened in front. -/
theorem opened (hc : c = 91 ∨ c = 123) (h : Leaves 1 s t) : Leaves 0 (c :: s) t :=
  ⟨h.suffix.trans (List.suffix_cons c s), by rw [depth_open hc]; exact h.depth⟩

theorem closed (hc : c = 93 ∨ c = 125) (s : Bytes) : Leaves 1 (c :: s) s :=
  ⟨List.suffix_cons c s, by rw [depth_close hc]; omega⟩

end Leaves

/-! ## JSON text -/

mutual

/-- How deep the arrays and objects of a value are nested. -/
def Value.depth : Value → Nat
  | .array vs => Value.elementsDepth vs + 1
  | .object ms => Value.membersDepth ms + 1
  | _ => 0

def Value.elementsDepth : List Value → Nat
  | [] => 0
  | v :: vs => max v.depth (Value.elementsDepth vs)

def Value.membersDepth : List (Bytes × Value) → Nat
  | [] => 0
  | (_, v) :: ms => max v.depth (Value.membersDepth ms)

end

/-- A part of a text that breaks no escape, nests `d` deep and closes `k` brackets. -/
structure Outline (d k : Nat) (t r : Bytes) : Prop where
  wellEscaped : WellEscaped false r → WellEscaped false t
  nesting : nesting t = max d (nesting r - k)

namespace Outline

variable {d d' k : Nat} {c : UInt8} {p s t t₁ r : Bytes}

theorem refl (t : Bytes) : Outline 0 0 t t := ⟨id, by rw [Nat.sub_zero, Nat.zero_max]⟩

theorem comp (h : Outline d 0 t t₁) (h' : Outline d' k t₁ r) : Outline (max d d') k t r :=
  ⟨h.wellEscaped ∘ h'.wellEscaped, by rw [h.nesting, h'.nesting, Nat.sub_zero, Nat.max_assoc]⟩

/-- Bytes without a meaning of their own, in front. -/
theorem append (hquote : 34 ∉ p) (hp : ∀ c ∈ p, NoBracket c) (h : Outline d k t r) :
    Outline d k (p ++ t) r where
  wellEscaped hr := (wellEscaped_append hquote).mpr (h.wellEscaped hr)
  nesting := by rw [Json.nesting, skeleton_append hquote, depth_append hp]; exact h.nesting

theorem cons (hquote : c ≠ 34) (hc : NoBracket c) (h : Outline d k t r) :
    Outline d k (c :: t) r :=
  h.append (p := [c]) (by simpa using hquote.symm) (by simpa using hc)

theorem ws (hws : Ws t t₁) (h : Outline d k t₁ r) : Outline d k t r := by
  induction hws with
  | nil => exact h
  | cons hc _ ih =>
    have hblank : ∀ c : UInt8, isWs c = true → c ≠ 34 ∧ NoBracket c := by
      intro c hc
      simp only [isWs, Bool.or_eq_true, beq_iff_eq] at hc
      rcases hc with ((rfl | rfl) | rfl) | rfl <;> decide
    exact (ih h).cons (hblank _ hc).1 (hblank _ hc).2

/-- The rest of a text behind its closing bracket. -/
theorem closed (hc : c = 93 ∨ c = 125) (r : Bytes) : Outline 0 1 (c :: r) r := by
  have hquote : c ≠ 34 := by rcases hc with rfl | rfl <;> decide
  refine ⟨(wellEscaped_outside hquote).mpr, ?_⟩
  rw [Json.nesting, skeleton_outside hquote, depth_close hc, Nat.zero_max]
  rfl

theorem opened (hc : c = 91 ∨ c = 123) (h : Outline d 1 t r) : Outline (d + 1) 0 (c :: t) r := by
  have hquote : c ≠ 34 := by rcases hc with rfl | rfl <;> decide
  refine ⟨fun hr => (wellEscaped_outside hquote).mpr (h.wellEscaped hr), ?_⟩
  have hnest := h.nesting
  rw [Json.nesting, skeleton_outside hquote, depth_open hc, ← Json.nesting, hnest]
  omega

end Outline

/-- A string behind its opening quotation mark. -/
theorem StringText.outline {t s r : Bytes} (h : StringText t s r) :
    (WellEscaped false r → WellEscaped true t) ∧ skeleton true t = 34 :: skeleton false r := by
  have hhex : ∀ {a b c d : UInt8} {k : Nat}, hex4 a b c d = some k →
      ∀ x ∈ [a, b, c, d], x ≠ 34 ∧ x ≠ 92 := by
    intro a b c d k hk x hx
    have hdigit : isHexDigit x = true := by
      have hall : isHexDigit a = true ∧ isHexDigit b = true ∧ isHexDigit c = true ∧
          isHexDigit d = true := by
        by_contra hno
        simp [hex4, and_assoc, hno] at hk
      simp only [List.mem_cons, List.not_mem_nil, or_false] at hx
      rcases hx with rfl | rfl | rfl | rfl
      · exact hall.1
      · exact hall.2.1
      · exact hall.2.2.1
      · exact hall.2.2.2
    constructor <;> rintro rfl <;> exact absurd hdigit (by decide)
  induction h with
  | quote => exact ⟨wellEscaped_close.mpr, skeleton_close⟩
  | plain _ hquote hback _ ih =>
    exact ⟨fun hr => (wellEscaped_plain hquote hback).mpr (ih.1 hr),
      (skeleton_plain hquote hback).trans ih.2⟩
  | @escape e b t s r he _ ih =>
    have hu : e ≠ 117 := by
      rintro rfl
      cases he
    exact ⟨fun hr => (wellEscaped_escape hu).mpr (ih.1 hr), skeleton_escape.trans ih.2⟩
  | unicode hk _ _ ih =>
    exact ⟨fun hr => wellEscaped_unicode_iff.mpr ⟨hhex hk, ih.1 hr⟩,
      skeleton_escape.trans ((skeleton_four (hhex hk)).trans ih.2)⟩
  | surrogates hhi hlo _ _ _ ih =>
    refine ⟨fun hr => wellEscaped_unicode_iff.mpr ⟨hhex hhi,
      wellEscaped_unicode_iff.mpr ⟨hhex hlo, ih.1 hr⟩⟩, ?_⟩
    rw [skeleton_escape, skeleton_four (hhex hhi), skeleton_escape, skeleton_four (hhex hlo), ih.2]

theorem StringText.outline_quoted {t s r : Bytes} (h : StringText t s r) :
    Outline 0 0 (34 :: t) r where
  wellEscaped hr := wellEscaped_open.mpr (h.outline.1 hr)
  nesting := by
    rw [nesting, skeleton_open, h.outline.2, depth_cons (by decide), depth_cons (by decide),
      Nat.sub_zero, Nat.zero_max]
    rfl

theorem NumberText.outline {t r : Bytes} {q : ℚ} (h : NumberText t q r) : Outline 0 0 t r := by
  obtain ⟨u, rfl, hu⟩ := h.numberPart
  have hne : ∀ d : UInt8, isNumberChar d = false → ∀ c ∈ u, c ≠ d := by
    rintro d hd c hc rfl
    rw [hu c hc] at hd
    cases hd
  exact (Outline.refl r).append (fun hquote => hne 34 rfl 34 hquote rfl) fun c hc =>
    ⟨hne 91 rfl c hc, hne 123 rfl c hc, hne 93 rfl c hc, hne 125 rfl c hc⟩

mutual

theorem ValueText.outline {t r : Bytes} {v : Value} :
    ValueText t v r → Outline v.depth 0 t r
  | .null => (Outline.refl r).append (by decide) (by decide)
  | .true => (Outline.refl r).append (by decide) (by decide)
  | .false => (Outline.refl r).append (by decide) (by decide)
  | .number h => h.outline
  | .string h => h.outline_quoted
  | .emptyArray h => .opened (.inl rfl) (.ws h (.closed (.inl rfl) r))
  | .array h => .opened (.inl rfl) h.outline
  | .emptyObject h => .opened (.inr rfl) (.ws h (.closed (.inr rfl) r))
  | .object h => .opened (.inr rfl) h.outline

theorem Elements.outline {t r : Bytes} {vs : List Value} :
    Elements t vs r → Outline (Value.elementsDepth vs) 1 t r
  | .last hws hv hend => .ws hws (hv.outline.comp (.ws hend (.closed (.inl rfl) r)))
  | .more hws hv hcomma hvs =>
    .ws hws (hv.outline.comp (.ws hcomma (.cons (by decide) (by decide) hvs.outline)))

theorem MemberText.outline {t r : Bytes} {m : Bytes × Value} :
    MemberText t m r → Outline m.2.depth 0 t r
  | .mk hws hname hcolon hblank hv => by
    have hvalue := Outline.ws hcolon (.cons (by decide) (by decide) (.ws hblank hv.outline))
    have hmember := Outline.ws hws (hname.outline_quoted.comp hvalue)
    rwa [Nat.zero_max] at hmember

theorem Members.outline {t r : Bytes} {ms : List (Bytes × Value)} :
    Members t ms r → Outline (Value.membersDepth ms) 1 t r
  | .last hm hend => hm.outline.comp (.ws hend (.closed (.inr rfl) r))
  | .more hm hcomma hms =>
    hm.outline.comp (.ws hcomma (.cons (by decide) (by decide) hms.outline))

end

/-- **JSON text** is well escaped, and nests as deep as its value. -/
theorem Denotes.outline {t : Bytes} {v : Value} (h : Denotes t v) :
    WellEscaped false t ∧ nesting t = v.depth := by
  obtain ⟨-, t₁, r, hws, hv, hend⟩ := h
  have hall := Outline.ws hws (hv.outline.comp (.ws hend (.refl [])))
  refine ⟨hall.wellEscaped rfl, ?_⟩
  rw [hall.nesting]
  show max (max v.depth 0) (0 - 0) = v.depth
  omega

end Json
