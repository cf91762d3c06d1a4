import DdnsCloudTencent.Lib.Json
import Mathlib.Algebra.Order.Field.Rat
import Mathlib.Data.Rat.Cast.Defs

/-!
# The JSON grammar

Which bytes are a JSON text, and what value they denote: the grammar of the
standard as relations between a text, what its first part denotes, and the text
behind that part. The text as a whole has to be UTF-8.

- `Denotes`: the relation for a whole text;
- `utf8_append_cons_iff`: a UTF-8 text can be cut at an ASCII byte;
- `denotes_of_read`: what `read` accepts is JSON text and denotes what it returns.
-/

namespace Json

open Cxx

/-! ## UTF-8 -/

/-- Bytes that encode a sequence of characters. -/
def Utf8 (s : Bytes) : Prop := ∃ cs : List Char, s = cs.flatMap String.utf8EncodeChar

/-- The encoding of a character is one ASCII byte, or has none. -/
theorem utf8EncodeChar_cases (ch : Char) :
    (∃ b : UInt8, b < 128 ∧ String.utf8EncodeChar ch = [b]) ∨
      ∀ b ∈ String.utf8EncodeChar ch, 128 ≤ b := by
  have hlead : ∀ n k : Nat, 128 ≤ k → n + k < 256 → (128 : UInt8) ≤ UInt8.ofNat (n + k) := by
    intro n k hk hlt
    rw [UInt8.le_iff_toNat_le, UInt8.toNat_ofNat']
    show 128 ≤ (n + k) % 2 ^ 8
    omega
  -- by the number of bytes
  fun_cases String.utf8EncodeChar ch with
  | case1 v h =>
    refine .inl ⟨_, ?_, rfl⟩
    rw [UInt8.lt_iff_toNat_lt, UInt8.toNat_ofNat']
    show v % 2 ^ 8 < 128
    omega
  | case2 v _ h =>
    refine .inr (List.forall_mem_cons.mpr ⟨?_, List.forall_mem_singleton.mpr ?_⟩) <;>
      exact hlead _ _ (by decide) (by omega)
  | case3 v _ _ h =>
    refine .inr (List.forall_mem_cons.mpr ⟨?_, List.forall_mem_cons.mpr ⟨?_,
      List.forall_mem_singleton.mpr ?_⟩⟩) <;> exact hlead _ _ (by decide) (by omega)
  | case4 v _ _ h =>
    refine .inr (List.forall_mem_cons.mpr ⟨?_, List.forall_mem_cons.mpr ⟨?_,
      List.forall_mem_cons.mpr ⟨?_, List.forall_mem_singleton.mpr ?_⟩⟩⟩) <;>
      exact hlead _ _ (by decide) (by omega)

theorem Utf8.append {s t : Bytes} (hs : Utf8 s) (ht : Utf8 t) : Utf8 (s ++ t) := by
  obtain ⟨cs, rfl⟩ := hs
  obtain ⟨cs', rfl⟩ := ht
  exact ⟨cs ++ cs', List.flatMap_append.symm⟩

theorem utf8_of_ascii {s : Bytes} (h : ∀ c ∈ s, c < 128) : Utf8 s := by
  induction s with
  | nil => exact ⟨[], rfl⟩
  | cons c s ih =>
    obtain ⟨hc, hs⟩ := List.forall_mem_cons.mp h
    obtain ⟨cs, hcs⟩ := ih hs
    have hle : (Char.ofUInt8 c).val.toNat ≤ 0x7f := Nat.le_of_lt_succ (UInt8.lt_iff_toNat_lt.mp hc)
    refine ⟨Char.ofUInt8 c :: cs, ?_⟩
    rw [List.flatMap_cons, ← hcs, String.utf8EncodeChar]
    simp only [hle, if_true]
    exact congrArg (· :: s) (UInt8.ofNat_toNat).symm

/-- A UTF-8 text can be cut at an ASCII byte. -/
theorem utf8_append_cons_iff {s t : Bytes} {c : UInt8} (hc : c < 128) :
    Utf8 (s ++ c :: t) ↔ Utf8 s ∧ Utf8 t := by
  constructor
  · rintro ⟨cs, hcs⟩
    induction cs generalizing s with
    | nil => simp at hcs
    | cons ch cs ih =>
      have hch : Utf8 (String.utf8EncodeChar ch) := ⟨[ch], (List.append_nil _).symm⟩
      rw [List.flatMap_cons] at hcs
      rcases List.append_eq_append_iff.mp hcs with ⟨x, hx, hrest⟩ | ⟨x, rfl, hrest⟩
      · cases x with
        | nil =>
          -- the cut is behind the character
          rw [List.append_nil] at hx
          exact ⟨hx ▸ hch, (ih (s := []) hrest).2⟩
        | cons c' x =>
          -- the byte is of the character, which has no other then
          obtain ⟨rfl, rfl⟩ := List.cons.inj hrest
          rcases utf8EncodeChar_cases ch with ⟨b, -, hb⟩ | hbig
          · rw [hb] at hx
            obtain ⟨rfl, hcx⟩ | ⟨-, hcx⟩ := List.append_eq_singleton_iff.mp hx.symm
            · obtain ⟨-, rfl⟩ := List.cons.inj hcx
              exact ⟨⟨[], rfl⟩, cs, rfl⟩
            · cases hcx
          · have hmem : c ∈ String.utf8EncodeChar ch := by rw [hx]; simp
            exact absurd hc (UInt8.not_lt.mpr (hbig c hmem))
      · exact ⟨hch.append (ih hrest.symm).1, (ih hrest.symm).2⟩
  · rintro ⟨hs, ht⟩
    exact hs.append ((utf8_of_ascii (s := [c]) (by simpa using hc)).append ht)

/-! ## The grammar

Each relation reads the first part of a text: `R text value rest`. -/

/-- A JSON value. -/
inductive Value where
  | null
  | bool (b : Bool)
  | number (q : ℚ)
  | string (s : Bytes)
  | array (vs : List Value)
  | object (ms : List (Bytes × Value))

/-- White space, perhaps none. -/
inductive Ws : Bytes → Bytes → Prop where
  | nil {t : Bytes} : Ws t t
  | cons {c : UInt8} {t r : Bytes} : isWs c = true → Ws t r → Ws (c :: t) r

/-- A string behind its opening quotation mark. -/
inductive StringText : Bytes → Bytes → Bytes → Prop where
  | quote {t : Bytes} : StringText (34 :: t) [] t
  | plain {c : UInt8} {t s r : Bytes} : 32 ≤ c → c ≠ 34 → c ≠ 92 → StringText t s r →
      StringText (c :: t) (c :: s) r
  | escape {e b : UInt8} {t s r : Bytes} : escaped e = some b → StringText t s r →
      StringText (92 :: e :: t) (b :: s) r
  | unicode {h₁ h₂ h₃ h₄ : UInt8} {u : Nat} {t s r : Bytes} : hex4 h₁ h₂ h₃ h₄ = some u →
      ¬ (0xD800 ≤ u ∧ u ≤ 0xDFFF) → StringText t s r →
      StringText (92 :: 117 :: h₁ :: h₂ :: h₃ :: h₄ :: t)
        (String.utf8EncodeChar (Char.ofNat u) ++ s) r
  | surrogates {h₁ h₂ h₃ h₄ l₁ l₂ l₃ l₄ : UInt8} {hi lo : Nat} {t s r : Bytes} :
      hex4 h₁ h₂ h₃ h₄ = some hi → hex4 l₁ l₂ l₃ l₄ = some lo →
      0xD800 ≤ hi ∧ hi < 0xDC00 → 0xDC00 ≤ lo ∧ lo < 0xE000 → StringText t s r →
      StringText
        (92 :: 117 :: h₁ :: h₂ :: h₃ :: h₄ :: 92 :: 117 :: l₁ :: l₂ :: l₃ :: l₄ :: t)
        (String.utf8EncodeChar
          (Char.ofNat (0x10000 + (hi - 0xD800) * 0x400 + (lo - 0xDC00))) ++ s) r

/-- A nonempty run of digits. -/
inductive Digits : Bytes → Bytes → Bytes → Prop where
  | one {d : UInt8} {t : Bytes} : isDigit d = true → Digits (d :: t) [d] t
  | cons {d : UInt8} {t ds r : Bytes} : isDigit d = true → Digits t ds r →
      Digits (d :: t) (d :: ds) r

/-- The sign of a number. -/
inductive Minus : Bytes → ℚ → Bytes → Prop where
  | absent {t : Bytes} : Minus t 1 t
  | minus {t : Bytes} : Minus (45 :: t) (-1) t

/-- The digits behind the decimal point. -/
inductive Fraction : Bytes → Bytes → Bytes → Prop where
  | absent {t : Bytes} : Fraction t [] t
  | digits {t ds r : Bytes} : Digits t ds r → Fraction (46 :: t) ds r

/-- The sign of an exponent. -/
inductive ExponentSign : Bytes → ℤ → Bytes → Prop where
  | absent {t : Bytes} : ExponentSign t 1 t
  | plus {t : Bytes} : ExponentSign (43 :: t) 1 t
  | minus {t : Bytes} : ExponentSign (45 :: t) (-1) t

/-- The exponent, of base ten. -/
inductive Exponent : Bytes → ℤ → Bytes → Prop where
  | absent {t : Bytes} : Exponent t 0 t
  | digits {e : UInt8} {t t' ds r : Bytes} {sign : ℤ} : e = 101 ∨ e = 69 →
      ExponentSign t sign t' → Digits t' ds r → Exponent (e :: t) (sign * ofNumeral 10 ds) r

/-- A number: no leading zeros. -/
inductive NumberText : Bytes → ℚ → Bytes → Prop where
  | mk {t t₁ t₂ t₃ r int frac : Bytes} {sign : ℚ} {e : ℤ} : Minus t sign t₁ → Digits t₁ int t₂ →
      (int.head? = some 48 → int = [48]) → Fraction t₂ frac t₃ → Exponent t₃ e r →
      NumberText t (sign * ofNumeral 10 (int ++ frac) * 10 ^ (e - frac.length)) r

mutual

/-- A value. -/
inductive ValueText : Bytes → Value → Bytes → Prop where
  | null {t : Bytes} : ValueText (bytes "null" ++ t) .null t
  | true {t : Bytes} : ValueText (bytes "true" ++ t) (.bool true) t
  | false {t : Bytes} : ValueText (bytes "false" ++ t) (.bool false) t
  | number {t r : Bytes} {q : ℚ} : NumberText t q r → ValueText t (.number q) r
  | string {t s r : Bytes} : StringText t s r → ValueText (34 :: t) (.string s) r
  | emptyArray {t r : Bytes} : Ws t (93 :: r) → ValueText (91 :: t) (.array []) r
  | array {t r : Bytes} {vs : List Value} : Elements t vs r → ValueText (91 :: t) (.array vs) r
  | emptyObject {t r : Bytes} : Ws t (125 :: r) → ValueText (123 :: t) (.object []) r
  | object {t r : Bytes} {ms : List (Bytes × Value)} : Members t ms r →
      ValueText (123 :: t) (.object ms) r

/-- The elements of an array up to its closing bracket. -/
inductive Elements : Bytes → List Value → Bytes → Prop where
  | last {t t₁ t₂ r : Bytes} {v : Value} : Ws t t₁ → ValueText t₁ v t₂ → Ws t₂ (93 :: r) →
      Elements t [v] r
  | more {t t₁ t₂ t₃ r : Bytes} {v : Value} {vs : List Value} : Ws t t₁ → ValueText t₁ v t₂ →
      Ws t₂ (44 :: t₃) → Elements t₃ vs r → Elements t (v :: vs) r

/-- A member of an object. -/
inductive MemberText : Bytes → Bytes × Value → Bytes → Prop where
  | mk {t t₁ t₂ t₃ t₄ r name : Bytes} {v : Value} : Ws t (34 :: t₁) → StringText t₁ name t₂ →
      Ws t₂ (58 :: t₃) → Ws t₃ t₄ → ValueText t₄ v r → MemberText t (name, v) r

/-- The members of an object up to its closing brace. -/
inductive Members : Bytes → List (Bytes × Value) → Bytes → Prop where
  | last {t t₁ r : Bytes} {m : Bytes × Value} : MemberText t m t₁ → Ws t₁ (125 :: r) →
      Members t [m] r
  | more {t t₁ t₂ r : Bytes} {m : Bytes × Value} {ms : List (Bytes × Value)} :
      MemberText t m t₁ → Ws t₁ (44 :: t₂) → Members t₂ ms r → Members t (m :: ms) r

end

/-- The text is well-formed JSON and denotes the value. -/
def Denotes (text : Bytes) (v : Value) : Prop :=
  Utf8 text ∧ ∃ t r, Ws text t ∧ ValueText t v r ∧ Ws r []

/-- A value without structure, among all values. -/
def Atom.toValue : Atom → Value
  | .string s => .string s
  | .number n => .number n
  | .bool b => .bool b
  | .null => .null

/-- A flat object, among all values. -/
def Object.toMembers (o : Object) : List (Bytes × Value) := o.map fun m => (m.1, m.2.toValue)

/-! ## The reader follows the grammar -/

theorem ws_skipWs (s : Bytes) : Ws s (skipWs s) := by
  induction s with
  | nil => exact .nil
  | cons c s ih =>
    unfold skipWs
    cases hc : isWs c with
    | true => rw [List.dropWhile_cons_of_pos hc]; exact .cons hc ih
    | false => rw [List.dropWhile_cons_of_neg (by simp [hc])]; exact .nil

theorem stringText_of_readText {t s r : Bytes} (h : readText t = some (s, r)) :
    StringText t s r := by
  fun_induction readText t generalizing s r with
  | case1 | case3 | case5 | case6 | case7 | case9 | case10 => cases h
  | case2 t =>
    cases h
    exact .quote
  | case4 c t hquote hctrl hback ih =>
    obtain ⟨⟨s', r'⟩, hread, heq⟩ := Option.map_eq_some_iff.mp h
    cases heq
    exact .plain (UInt8.not_lt.mp hctrl) hquote hback (ih hread)
  | case8 c _ _ hback h₁ h₂ h₃ h₄ t u hhex hscalar ih =>
    obtain ⟨⟨s', r'⟩, hread, heq⟩ := Option.map_eq_some_iff.mp h
    cases heq
    obtain rfl := not_not.mp hback
    exact .unicode hhex hscalar (ih hread)
  | case11 c _ _ hback e t _ b hesc ih =>
    obtain ⟨⟨s', r'⟩, hread, heq⟩ := Option.map_eq_some_iff.mp h
    cases heq
    obtain rfl := not_not.mp hback
    exact .escape hesc (ih hread)

theorem digits_takeWhile {t : Bytes} (h : t.takeWhile isDigit ≠ []) :
    Digits t (t.takeWhile isDigit) (t.dropWhile isDigit) := by
  induction t with
  | nil => exact absurd rfl h
  | cons c t ih =>
    cases hc : isDigit c with
    | false => simp [hc] at h
    | true =>
      rw [List.takeWhile_cons_of_pos hc, List.dropWhile_cons_of_pos hc]
      by_cases hnil : t.takeWhile isDigit = []
      · have hall : t.dropWhile isDigit = t := by
          have hsplit := List.takeWhile_append_dropWhile (p := isDigit) (l := t)
          rwa [hnil, List.nil_append] at hsplit
        rw [hnil, hall]
        exact .one hc
      · exact .cons hc (ih hnil)

theorem numberText_of_readNumber {t r : Bytes} {n : Nat} (h : readNumber t = some (n, r)) :
    NumberText t n r := by
  unfold readNumber at h
  dsimp only at h
  split at h
  · cases h
  · next hdigits =>
    split at h
    · cases h
    · cases h
      rw [not_or, not_and_not_right] at hdigits
      have hnumber := NumberText.mk .absent (digits_takeWhile hdigits.1) hdigits.2 .absent .absent
      simpa using hnumber

theorem valueText_of_readAtom {t r : Bytes} {a : Atom} (h : readAtom t = some (a, r)) :
    ValueText t a.toValue r := by
  have hliteral : ∀ w : Bytes, w <+: t → t = w ++ t.drop w.length := by
    rintro w ⟨x, rfl⟩
    rw [List.drop_left]
  unfold readAtom at h
  split_ifs at h with hquote htrue hfalse hnull
  · obtain ⟨⟨s, r'⟩, hread, heq⟩ := Option.map_eq_some_iff.mp h
    cases heq
    obtain ⟨c, t', rfl⟩ : ∃ c t', t = c :: t' :=
      List.exists_cons_of_ne_nil (by rintro rfl; cases hquote)
    cases hquote
    exact .string (stringText_of_readText hread)
  · cases h
    rw [hliteral _ htrue]
    exact .true
  · cases h
    rw [hliteral _ hfalse]
    exact .false
  · cases h
    rw [hliteral _ hnull]
    exact .null
  · obtain ⟨⟨n, r'⟩, hread, heq⟩ := Option.map_eq_some_iff.mp h
    cases heq
    exact .number (numberText_of_readNumber hread)

theorem memberText_of_readMember {t r : Bytes} {m : Bytes × Atom} (h : readMember t = some (m, r)) :
    MemberText t (m.1, m.2.toValue) r := by
  have hskip := ws_skipWs t
  unfold readMember at h
  split at h
  · next t₁ ht =>
    rw [ht] at hskip
    split at h
    · cases h
    · next name t₂ hname =>
      have hskip₂ := ws_skipWs t₂
      split at h
      · next t₃ ht₂ =>
        rw [ht₂] at hskip₂
        obtain ⟨⟨a, r'⟩, hread, heq⟩ := Option.map_eq_some_iff.mp h
        cases heq
        exact .mk hskip (stringText_of_readText hname) hskip₂ (ws_skipWs t₃)
          (valueText_of_readAtom hread)
      · cases h
  · cases h

theorem members_of_readMembers {fuel : Nat} {t r : Bytes} {o : Object}
    (h : readMembers fuel t = some (o, r)) : Members t o.toMembers r := by
  induction fuel generalizing t r o with
  | zero => cases h
  | succ fuel ih =>
    rw [readMembers] at h
    split at h
    · cases h
    · next m t₁ hmember =>
      have hskip := ws_skipWs t₁
      split at h
      · next t₂ ht =>
        rw [ht] at hskip
        obtain ⟨⟨ms, r'⟩, hread, heq⟩ := Option.map_eq_some_iff.mp h
        cases heq
        exact .more (memberText_of_readMember hmember) hskip (ih hread)
      · next t₂ ht =>
        rw [ht] at hskip
        cases h
        exact .last (memberText_of_readMember hmember) hskip
      · cases h

theorem Ws.trans {t t' r : Bytes} (h : Ws t t') (h' : Ws t' r) : Ws t r := by
  induction h with
  | nil => exact h'
  | cons hc _ ih => exact .cons hc (ih h')

theorem MemberText.of_ws {t t' r : Bytes} {m : Bytes × Value} (hws : Ws t t')
    (h : MemberText t' m r) : MemberText t m r := by
  cases h with
  | mk hquote hname hcolon hblank hvalue =>
    exact .mk (hws.trans hquote) hname hcolon hblank hvalue

theorem Members.of_ws {t t' r : Bytes} {ms : List (Bytes × Value)} (hws : Ws t t')
    (h : Members t' ms r) : Members t ms r := by
  cases h with
  | last hm hend => exact .last (hm.of_ws hws) hend
  | more hm hcomma hms => exact .more (hm.of_ws hws) hcomma hms

/-- What the reader accepts is JSON text, and denotes what it returns. -/
theorem denotes_of_read {t : Bytes} {o : Object} (hutf : Utf8 t) (h : read t = some o) :
    Denotes t (.object o.toMembers) := by
  have hend : ∀ {r : Bytes}, skipWs r = [] → Ws r [] := fun {r} hr => hr ▸ ws_skipWs r
  have hskip := ws_skipWs t
  refine ⟨hutf, ?_⟩
  unfold read at h
  split at h
  · next t₁ ht =>
    rw [ht] at hskip
    have hskip₁ := ws_skipWs t₁
    split at h
    · cases h
    · next c t₂ ht₁ =>
      rw [ht₁] at hskip₁
      -- `{}`, or members up to the brace
      split_ifs at h with hbrace hrest
      · cases h
        rw [hbrace] at hskip₁
        exact ⟨_, t₂, hskip, .emptyObject hskip₁, hend hrest⟩
      · split at h
        · next o' r hmembers =>
          split_ifs at h with hrest
          cases h
          exact ⟨_, r, hskip, .object ((members_of_readMembers hmembers).of_ws hskip₁), hend hrest⟩
        · cases h
  · cases h

end Json
