import DdnsCloudTencent.Lib.JsonOutline
import Mathlib.Logic.Relation

/-!
# Leaving out white space

A function that drops the white space between the tokens of a text, copies the other
bytes between them, and copies a string as a whole, keeps the meaning of the text.

- `Compactor`: the three rules such a function follows;
- `Erased`: a text with ASCII bytes left out, which stays UTF-8;
- `Compact`: a text without white space outside its strings;
- `Compactor.denotes`: JSON text becomes compact JSON text of the same value, which
  the function then leaves as it is.
-/

namespace Json

open Cxx

/-! ## UTF-8 -/

/-- A text with some of its ASCII bytes left out. -/
inductive Erased : Bytes → Bytes → Prop where
  | nil : Erased [] []
  | keep {c : UInt8} {s t : Bytes} : Erased s t → Erased (c :: s) (c :: t)
  | drop {c : UInt8} {s t : Bytes} : c < 128 → Erased s t → Erased (c :: s) t

namespace Erased

theorem refl (s : Bytes) : Erased s s := by
  induction s with
  | nil => exact .nil
  | cons c s ih => exact .keep ih

theorem append {s t s' t' : Bytes} (h : Erased s t) (h' : Erased s' t') :
    Erased (s ++ s') (t ++ t') := by
  induction h with
  | nil => exact h'
  | keep _ ih => exact .keep ih
  | drop hc _ ih => exact .drop hc ih

theorem subset {s t : Bytes} (h : Erased s t) : t ⊆ s := by
  induction h with
  | nil => exact List.Subset.refl _
  | keep _ ih => exact List.cons_subset_cons _ ih
  | drop _ _ ih => exact List.subset_cons_of_subset _ ih

/-- What stands before the text is kept. -/
theorem utf8_append {s t : Bytes} (h : Erased s t) (p : Bytes) (hutf : Utf8 (p ++ s)) :
    Utf8 (p ++ t) := by
  induction h generalizing p with
  | nil => exact hutf
  | @keep c s t _ ih =>
    have hp := ih (p ++ [c]) (by rwa [List.append_assoc])
    rwa [List.append_assoc] at hp
  | @drop c s t hc _ ih =>
    obtain ⟨hp, hs⟩ := (utf8_append_cons_iff hc).mp hutf
    exact ih p (hp.append hs)

theorem utf8 {s t : Bytes} (h : Erased s t) (hutf : Utf8 s) : Utf8 t := h.utf8_append [] hutf

end Erased

/-! ## Cutting the grammar's texts -/

/-- The first part of a text reads the same whatever follows. -/
def Frames (R : Bytes → Bytes → Prop) (t r : Bytes) : Prop :=
  ∃ u, t = u ++ r ∧ ∀ r', R (u ++ r') r'

theorem StringText.frames {t s r : Bytes} (h : StringText t s r) :
    Frames (fun t r => StringText t s r) t r := by
  induction h with
  | quote => exact ⟨[34], rfl, fun _ => .quote⟩
  | plain hc hquote hback _ ih =>
    obtain ⟨u, rfl, hu⟩ := ih
    exact ⟨_ :: u, rfl, fun r' => .plain hc hquote hback (hu r')⟩
  | escape he _ ih =>
    obtain ⟨u, rfl, hu⟩ := ih
    exact ⟨92 :: _ :: u, rfl, fun r' => .escape he (hu r')⟩
  | unicode hhex hplain _ ih =>
    obtain ⟨u, rfl, hu⟩ := ih
    exact ⟨92 :: 117 :: _ :: _ :: _ :: _ :: u, rfl, fun r' => .unicode hhex hplain (hu r')⟩
  | surrogates hhi hlo hhigh hlow _ ih =>
    obtain ⟨u, rfl, hu⟩ := ih
    exact ⟨92 :: 117 :: _ :: _ :: _ :: _ :: 92 :: 117 :: _ :: _ :: _ :: _ :: u, rfl,
      fun r' => .surrogates hhi hlo hhigh hlow (hu r')⟩

theorem Digits.frames {t ds r : Bytes} (h : Digits t ds r) :
    Frames (fun t r => Digits t ds r) t r := by
  induction h with
  | one hd => exact ⟨[_], rfl, fun _ => .one hd⟩
  | cons hd _ ih =>
    obtain ⟨u, rfl, hu⟩ := ih
    exact ⟨_ :: u, rfl, fun r' => .cons hd (hu r')⟩

theorem Minus.frames {t r : Bytes} {q : ℚ} (h : Minus t q r) :
    Frames (fun t r => Minus t q r) t r := by
  cases h with
  | absent => exact ⟨[], rfl, fun _ => .absent⟩
  | minus => exact ⟨[45], rfl, fun _ => .minus⟩

theorem Fraction.frames {t ds r : Bytes} (h : Fraction t ds r) :
    Frames (fun t r => Fraction t ds r) t r := by
  cases h with
  | absent => exact ⟨[], rfl, fun _ => .absent⟩
  | digits hds =>
    obtain ⟨u, rfl, hu⟩ := hds.frames
    exact ⟨46 :: u, rfl, fun r' => .digits (hu r')⟩

theorem ExponentSign.frames {t r : Bytes} {e : ℤ} (h : ExponentSign t e r) :
    Frames (fun t r => ExponentSign t e r) t r := by
  cases h with
  | absent => exact ⟨[], rfl, fun _ => .absent⟩
  | plus => exact ⟨[43], rfl, fun _ => .plus⟩
  | minus => exact ⟨[45], rfl, fun _ => .minus⟩

theorem Exponent.frames {t r : Bytes} {e : ℤ} (h : Exponent t e r) :
    Frames (fun t r => Exponent t e r) t r := by
  cases h with
  | absent => exact ⟨[], rfl, fun _ => .absent⟩
  | digits he hsign hds =>
    obtain ⟨u, rfl, hu⟩ := hsign.frames
    obtain ⟨u', rfl, hu'⟩ := hds.frames
    refine ⟨_ :: (u ++ u'), by rw [List.cons_append, List.append_assoc], fun r' => ?_⟩
    rw [List.cons_append, List.append_assoc]
    exact .digits he (hu _) (hu' r')

theorem NumberText.frames {t r : Bytes} {q : ℚ} (h : NumberText t q r) :
    Frames (fun t r => NumberText t q r) t r := by
  cases h with
  | mk hsign hint hzero hfrac hexp =>
    obtain ⟨u₁, rfl, hu₁⟩ := hsign.frames
    obtain ⟨u₂, rfl, hu₂⟩ := hint.frames
    obtain ⟨u₃, rfl, hu₃⟩ := hfrac.frames
    obtain ⟨u₄, rfl, hu₄⟩ := hexp.frames
    refine ⟨u₁ ++ (u₂ ++ (u₃ ++ u₄)), by simp only [List.append_assoc], fun r' => ?_⟩
    simp only [List.append_assoc]
    exact .mk (hu₁ _) (hu₂ _) hzero (hu₃ _) (hu₄ r')

/-! ## Compactors -/

/-- A byte of a token outside strings. The grammar has no slash, so a compactor may do
with it what it likes. -/
def TokenByte (c : UInt8) : Prop := isWs c = false ∧ c ≠ 34 ∧ c ≠ 47

instance : DecidablePred TokenByte := fun c =>
  inferInstanceAs (Decidable (isWs c = false ∧ c ≠ 34 ∧ c ≠ 47))

theorem tokenByte_of_isNumberChar {c : UInt8} (h : isNumberChar c = true) : TokenByte c := by
  have hcases : ∀ d : UInt8, isNumberChar d = false → c ≠ d := by
    rintro d hd rfl
    rw [h] at hd
    cases hd
  refine ⟨?_, hcases 34 rfl, hcases 47 rfl⟩
  rw [isWs, Bool.or_eq_false_iff, Bool.or_eq_false_iff, Bool.or_eq_false_iff]
  exact ⟨⟨⟨beq_false_of_ne (hcases 32 rfl), beq_false_of_ne (hcases 9 rfl)⟩,
    beq_false_of_ne (hcases 10 rfl)⟩, beq_false_of_ne (hcases 13 rfl)⟩

/-- The first text becomes the second, whatever follows. -/
def Emits {ε : Type*} (F : Bytes → Except ε Bytes) (u w : Bytes) : Prop :=
  ∀ r, F (u ++ r) = (F r).map (w ++ ·)

namespace Emits

variable {ε : Type*} {F : Bytes → Except ε Bytes} {u u' w w' : Bytes}

theorem nil : Emits F [] [] := by
  intro r
  cases h : F r <;> simp [h, Except.map]

theorem append (h : Emits F u w) (h' : Emits F u' w') : Emits F (u ++ u') (w ++ w') := by
  intro r
  rw [List.append_assoc, h, h']
  cases F r <;> simp [Except.map]

end Emits

/-- A text without white space outside its strings. -/
def Compact (s : Bytes) : Prop := ∀ c ∈ skeleton false s, isWs c = false

/-- A part of a text that brings in no white space outside strings. -/
def Tight (w : Bytes) : Prop := ∀ r, Compact r → Compact (w ++ r)

namespace Tight

variable {w w' : Bytes}

theorem append (h : Tight w) (h' : Tight w') : Tight (w ++ w') := by
  intro r hr
  rw [List.append_assoc]
  exact h _ (h' r hr)

theorem tokens (h : ∀ c ∈ w, TokenByte c) : Tight w := by
  intro r hr
  have hquote : 34 ∉ w := fun hmem => (h 34 hmem).2.1 rfl
  rw [Compact, skeleton_append hquote]
  exact fun c hc => (List.mem_append.mp hc).elim (fun hw => (h c hw).1) (hr c)

theorem token {c : UInt8} (hc : TokenByte c) : Tight [c] :=
  tokens (by simpa using hc)

theorem string {s : Bytes} (h : ∀ r, StringText (w ++ r) s r) : Tight (34 :: w) := by
  intro r hr
  rw [List.cons_append, Compact, skeleton_open, (h r).outline.2, List.forall_mem_cons,
    List.forall_mem_cons]
  exact ⟨rfl, rfl, hr⟩

end Tight

/-- What a function that leaves out white space does. -/
structure Compactor {ε : Type*} (F : Bytes → Except ε Bytes) : Prop where
  nil : F [] = .ok []
  blank : ∀ {c}, isWs c = true → Emits F [c] []
  token : ∀ {c}, TokenByte c → Emits F [c] [c]
  string : ∀ {u s r}, StringText (u ++ r) s r → Emits F (34 :: u) (34 :: u)

/-- The first part of a text, and what a compactor makes of it: something tight that
reads the same, whatever follows, and stays as it is. -/
def Compacts {ε : Type*} (F : Bytes → Except ε Bytes) (R : Bytes → Bytes → Prop) (t r : Bytes) :
    Prop :=
  ∃ u w, t = u ++ r ∧ (∀ r', R (w ++ r') r') ∧ Erased u w ∧ Emits F u w ∧ Emits F w w ∧ Tight w

namespace Compacts

variable {ε : Type*} {F : Bytes → Except ε Bytes} {R R₁ R₂ : Bytes → Bytes → Prop}
  {t t₁ r u : Bytes}

/-- Tokens without white space between them. -/
theorem of_emits (hR : ∀ r', R (u ++ r') r') (h : Emits F u u) (htight : Tight u) :
    Compacts F R (u ++ r) r :=
  ⟨u, u, rfl, hR, .refl u, h, h, htight⟩

theorem mono (h : Compacts F R t r) {R' : Bytes → Bytes → Prop} (hR : ∀ t r, R t r → R' t r) :
    Compacts F R' t r := by
  obtain ⟨u, w, rfl, hw, hemits⟩ := h
  exact ⟨u, w, rfl, fun r' => hR _ _ (hw r'), hemits⟩

/-- One part after another. -/
theorem comp (h₁ : Compacts F R₁ t t₁) (h₂ : Compacts F R₂ t₁ r) :
    Compacts F (Relation.Comp R₁ R₂) t r := by
  obtain ⟨u₁, w₁, rfl, hw₁, herased₁, hu₁, hww₁, htight₁⟩ := h₁
  obtain ⟨u₂, w₂, rfl, hw₂, herased₂, hu₂, hww₂, htight₂⟩ := h₂
  refine ⟨u₁ ++ u₂, w₁ ++ w₂, (List.append_assoc _ _ _).symm, fun r' => ?_,
    herased₁.append herased₂, hu₁.append hu₂, hww₁.append hww₂, htight₁.append htight₂⟩
  rw [List.append_assoc]
  exact ⟨_, hw₁ _, hw₂ r'⟩

end Compacts

namespace Compactor

variable {ε : Type*} {F : Bytes → Except ε Bytes} {R : Bytes → Bytes → Prop} {t t₁ r u : Bytes}
  {c : UInt8}

theorem tokens (hF : Compactor F) (h : ∀ c ∈ u, TokenByte c) : Emits F u u := by
  induction u with
  | nil => exact .nil
  | cons c u ih =>
    obtain ⟨hc, hu⟩ := List.forall_mem_cons.mp h
    exact (hF.token hc).append (ih hu)

theorem of_tokens (hF : Compactor F) (hR : ∀ r', R (u ++ r') r') (h : ∀ c ∈ u, TokenByte c) :
    Compacts F R (u ++ r) r :=
  .of_emits hR (hF.tokens h) (.tokens h)

theorem ws (hF : Compactor F) (h : Ws t r) : ∃ u, t = u ++ r ∧ Erased u [] ∧ Emits F u [] := by
  induction h with
  | nil => exact ⟨[], rfl, .nil, .nil⟩
  | @cons c t r hc _ ih =>
    obtain ⟨u, rfl, herased, hemits⟩ := ih
    have hascii : c < 128 := by
      simp only [isWs, Bool.or_eq_true, beq_iff_eq] at hc
      rcases hc with ((rfl | rfl) | rfl) | rfl <;> decide
    exact ⟨c :: u, rfl, .drop hascii herased, (hF.blank hc).append hemits⟩

/-- White space in front goes. -/
theorem of_ws (hF : Compactor F) (hws : Ws t t₁) (h : Compacts F R t₁ r) : Compacts F R t r := by
  obtain ⟨u, rfl, herased, hemits⟩ := hF.ws hws
  obtain ⟨u₁, w₁, rfl, hw₁, herased₁, hu₁, htight₁⟩ := h
  exact ⟨u ++ u₁, w₁, (List.append_assoc _ _ _).symm, hw₁, herased.append herased₁,
    hemits.append hu₁, htight₁⟩

/-- A token of one byte, perhaps behind white space. -/
theorem byte (hF : Compactor F) (hws : Ws t (c :: r)) (hc : TokenByte c) :
    Compacts F (fun t r => t = c :: r) t r :=
  hF.of_ws hws (.of_emits (u := [c]) (fun _ => rfl) (hF.token hc) (.token hc))

theorem text (hF : Compactor F) {s : Bytes} (h : StringText t s r) :
    Compacts F (fun t r => ∃ t', t = 34 :: t' ∧ StringText t' s r) (34 :: t) r := by
  obtain ⟨u, rfl, hu⟩ := h.frames
  exact .of_emits (u := 34 :: u) (fun r' => ⟨u ++ r', rfl, hu r'⟩) (hF.string h) (.string hu)

mutual

theorem value (hF : Compactor F) {t r : Bytes} {v : Value} :
    ValueText t v r → Compacts F (fun t r => ValueText t v r) t r
  | .null => hF.of_tokens (fun _ => .null) (by decide)
  | .true => hF.of_tokens (fun _ => .true) (by decide)
  | .false => hF.of_tokens (fun _ => .false) (by decide)
  | .number h => by
    obtain ⟨u, rfl, hu⟩ := h.frames
    obtain ⟨u', heq, hnumber⟩ := h.numberPart
    obtain rfl := List.append_cancel_right heq
    exact hF.of_tokens (fun r' => .number (hu r'))
      fun c hc => tokenByte_of_isNumberChar (hnumber c hc)
  | .string h => by
    obtain ⟨u, rfl, hu⟩ := h.frames
    exact .of_emits (u := 34 :: u) (fun r' => .string (hu r')) (hF.string h) (.string hu)
  | .emptyArray h =>
    ((hF.byte .nil (by decide)).comp (hF.byte h (by decide))).mono fun _ _ ⟨_, hopen, hclose⟩ =>
      hopen ▸ hclose ▸ .emptyArray .nil
  | .array h =>
    ((hF.byte .nil (by decide)).comp (elements hF h)).mono fun _ _ ⟨_, hopen, helements⟩ =>
      hopen ▸ .array helements
  | .emptyObject h =>
    ((hF.byte .nil (by decide)).comp (hF.byte h (by decide))).mono fun _ _ ⟨_, hopen, hclose⟩ =>
      hopen ▸ hclose ▸ .emptyObject .nil
  | .object h =>
    ((hF.byte .nil (by decide)).comp (members hF h)).mono fun _ _ ⟨_, hopen, hmembers⟩ =>
      hopen ▸ .object hmembers

theorem elements (hF : Compactor F) {t r : Bytes} {vs : List Value} :
    Elements t vs r → Compacts F (fun t r => Elements t vs r) t r
  | .last hws hv hend =>
    ((hF.of_ws hws (value hF hv)).comp (hF.byte hend (by decide))).mono
      fun _ _ ⟨_, hvalue, hclose⟩ => .last .nil hvalue (hclose ▸ .nil)
  | .more hws hv hcomma hvs =>
    ((hF.of_ws hws (value hF hv)).comp ((hF.byte hcomma (by decide)).comp (elements hF hvs))).mono
      fun _ _ ⟨_, hvalue, _, hbyte, hmore⟩ => .more .nil hvalue (hbyte ▸ .nil) hmore

theorem member (hF : Compactor F) {t r : Bytes} {m : Bytes × Value} :
    MemberText t m r → Compacts F (fun t r => MemberText t m r) t r
  | .mk hws hname hcolon hblank hv =>
    ((hF.of_ws hws (hF.text hname)).comp
      ((hF.byte hcolon (by decide)).comp (hF.of_ws hblank (value hF hv)))).mono
      fun _ _ ⟨_, ⟨_, hquote, htext⟩, _, hbyte, hvalue⟩ =>
        .mk (hquote ▸ .nil) htext (hbyte ▸ .nil) .nil hvalue

theorem members (hF : Compactor F) {t r : Bytes} {ms : List (Bytes × Value)} :
    Members t ms r → Compacts F (fun t r => Members t ms r) t r
  | .last hm hend =>
    ((member hF hm).comp (hF.byte hend (by decide))).mono
      fun _ _ ⟨_, hmember, hclose⟩ => .last hmember (hclose ▸ .nil)
  | .more hm hcomma hms =>
    ((member hF hm).comp ((hF.byte hcomma (by decide)).comp (members hF hms))).mono
      fun _ _ ⟨_, hmember, _, hbyte, hmore⟩ => .more hmember (hbyte ▸ .nil) hmore

end

/-- **White space has no meaning**: the compacted text denotes the same value, and has
nothing left to leave out. -/
theorem denotes (hF : Compactor F) {t : Bytes} {v : Value} (h : Denotes t v) :
    ∃ t', F t = .ok t' ∧ Erased t t' ∧ Denotes t' v ∧ Compact t' ∧ F t' = .ok t' := by
  obtain ⟨hutf, t₁, r, hws, hv, hend⟩ := h
  obtain ⟨u, w, rfl, hw, herased, hemits, hagain, htight⟩ := hF.of_ws hws (hF.value hv)
  obtain ⟨u', rfl, herased', hemits'⟩ := hF.ws hend
  have hall := herased.append herased'
  rw [List.append_nil, ← List.append_nil u'] at hall
  have hcompact := htight [] nofun
  rw [List.append_nil] at hcompact
  refine ⟨w, ?_, hall, ⟨hall.utf8 hutf, w, [], .nil, ?_, .nil⟩, hcompact, ?_⟩
  · rw [hemits, hemits', hF.nil]
    exact congrArg Except.ok (List.append_nil w)
  · have hw' := hw []
    rwa [List.append_nil] at hw'
  · have hagain' := hagain []
    rw [List.append_nil, hF.nil] at hagain'
    rw [hagain']
    exact congrArg Except.ok (List.append_nil w)

end Compactor

end Json
