import DdnsCloudTencent.Lib.JsonOutline
import DdnsCloudTencent.Theory.Conformance

/-!
# When the JSON reader keeps to its memory (util/tretap_CJSON.c)

`parse_string` goes through a string twice, first to count the bytes to allocate,
then to write them. The two loops part company at a `\u` without its four
digits: the first one stops at a quotation mark among them, the second one takes
four bytes whatever they are, reads on behind the string and writes more than was
counted. So nothing but `WellEscaped` is asked of the texts here, which need not be
JSON.

- `Safe`: a parser keeps to its memory, and stops at a large exponent only;
- `parse_safe`: on such a text the reader is safe, and its calls are nested no deeper
  than the brackets of the text;
- `parse_conforms`: it reads JSON text to its end and gives the tree of the value, if
  the exponents fit an `int` and the stack has room for the nesting.
-/

namespace DdnsCloudTencent

open Cxx Json

/-! ## Strings -/

/-- What `parse_string` does behind the opening quotation mark: it writes no more
than it has counted, and stops behind the string. -/
def StringSafe (s : Bytes) : Prop :=
  ∃ out rest len, unescape s = .ok (out, rest) ∧ scanString s = .ok len ∧ out.length ≤ len ∧
    WellEscaped false rest ∧ Leaves 0 (skeleton true s) (skeleton false rest)

/-- One round of both loops. -/
theorem StringSafe.step {s t w : Bytes} {n : Nat} (h : StringSafe s)
    (hwrite : unescape t = (unescape s).map fun r => (w ++ r.1, r.2))
    (hscan : scanString t = (scanString s).map (· + n)) (hw : w.length ≤ n)
    (hskeleton : skeleton true t = skeleton true s) : StringSafe t := by
  obtain ⟨out, rest, len, hout, hlen, hle, hrest, hleaves⟩ := h
  rw [hout] at hwrite
  rw [hlen] at hscan
  rw [← hskeleton] at hleaves
  exact ⟨w ++ out, rest, len + n, hwrite, hscan, by rw [List.length_append]; omega, hrest, hleaves⟩

/-- A round that writes nothing. -/
theorem map_nil_append (r : Except Fault (Bytes × Bytes)) :
    r = r.map fun x => ([] ++ x.1, x.2) := by
  cases r <;> rfl

section Unicode

variable {h₁ h₂ h₃ h₄ : UInt8} {s : Bytes}

theorem scanString_unicode (h : ∀ c ∈ [h₁, h₂, h₃, h₄], c ≠ quote ∧ c ≠ backslash) :
    scanString (backslash :: 117 :: h₁ :: h₂ :: h₃ :: h₄ :: s) = (scanString s).map (· + 5) := by
  rw [scanString_escape, scanString_four h]
  cases scanString s <;> rfl

/-- A round over one `\u`. -/
theorem stringSafe_unicode {w : Bytes}
    (h : WellEscaped true (backslash :: 117 :: h₁ :: h₂ :: h₃ :: h₄ :: s))
    (ih : WellEscaped true s → StringSafe s) (hw : w.length ≤ 4)
    (hwrite : unescape (backslash :: 117 :: h₁ :: h₂ :: h₃ :: h₄ :: s) =
      (unescape s).map fun r => (w ++ r.1, r.2)) :
    StringSafe (backslash :: 117 :: h₁ :: h₂ :: h₃ :: h₄ :: s) := by
  obtain ⟨hdigits, hs⟩ := wellEscaped_unicode_iff.mp h
  exact (ih hs).step hwrite (scanString_unicode hdigits) (by omega)
    (skeleton_escape.trans (skeleton_four hdigits))

/-- A round over a surrogate pair. -/
theorem stringSafe_pair {g₁ g₂ g₃ g₄ : UInt8} {w : Bytes}
    (h : WellEscaped true (backslash :: 117 :: h₁ :: h₂ :: h₃ :: h₄ ::
      backslash :: 117 :: g₁ :: g₂ :: g₃ :: g₄ :: s))
    (ih : WellEscaped true s → StringSafe s) (hw : w.length ≤ 4)
    (hwrite : unescape (backslash :: 117 :: h₁ :: h₂ :: h₃ :: h₄ ::
      backslash :: 117 :: g₁ :: g₂ :: g₃ :: g₄ :: s) =
        (unescape s).map fun r => (w ++ r.1, r.2)) :
    StringSafe (backslash :: 117 :: h₁ :: h₂ :: h₃ :: h₄ ::
      backslash :: 117 :: g₁ :: g₂ :: g₃ :: g₄ :: s) := by
  obtain ⟨hdigits, hpair⟩ := wellEscaped_unicode_iff.mp h
  obtain ⟨hdigits', hs⟩ := wellEscaped_unicode_iff.mp hpair
  have hscan : scanString (backslash :: 117 :: h₁ :: h₂ :: h₃ :: h₄ ::
      backslash :: 117 :: g₁ :: g₂ :: g₃ :: g₄ :: s) = (scanString s).map (· + 10) := by
    rw [scanString_unicode hdigits, scanString_unicode hdigits']
    cases scanString s <;> rfl
  refine (ih hs).step hwrite hscan (by omega) ?_
  rw [skeleton_escape, skeleton_four hdigits, skeleton_escape, skeleton_four hdigits']

end Unicode

/-- **A string without a broken escape**: the second loop follows the first one. -/
theorem stringSafe_of_wellEscaped {s : Bytes} (h : WellEscaped true s) : StringSafe s := by
  fun_induction unescape s with
  | case1 => exact ⟨[], [], 0, rfl, rfl, le_rfl, rfl, .refl []⟩
  | case2 => exact ⟨[], [], 0, rfl, rfl, le_rfl, rfl, .cons (by decide) []⟩
  | case3 => exact absurd h Bool.false_ne_true
  | case4 c hquote hback =>
    refine ⟨[c], [], 1, ?_, ?_, le_rfl, rfl, ?_⟩
    · rw [unescape.eq_def]
      simp only [hquote, hback, if_false]
    · rw [scanString.eq_def]
      simp only [hquote, hback, if_false]
    · rw [skeleton_plain hquote hback]
      exact .refl []
  | case5 d s =>
    refine ⟨[], d :: s, 0, ?_, ?_, le_rfl, wellEscaped_close.mp h, ?_⟩
    · rw [unescape.eq_def]
      rfl
    · rw [scanString.eq_def]
      rfl
    · rw [skeleton_close]
      exact .cons (by decide) _
  | case6 c d s hquote hback ih =>
    exact (ih ((wellEscaped_plain hquote hback).mp h)).step (w := [c])
      (unescape_plain hquote hback _) (scanString_plain hquote hback _) le_rfl
      (skeleton_plain hquote hback)
  | case7 c d s hquote hback hu ih =>
    obtain rfl := not_not.mp hback
    exact (ih ((wellEscaped_escape hu).mp h)).step (w := [escapeByte d]) (unescape_escape hu s)
      (scanString_escape d s) le_rfl skeleton_escape
  | case8 c d hquote hback hu h₁ h₂ h₃ h₄ s uc hskip ih =>
    obtain rfl := not_not.mp hback
    obtain rfl := not_not.mp hu
    refine stringSafe_unicode h ih (w := []) (by decide) ?_
    rw [unescape.eq_def, ← map_nil_append]
    exact if_pos hskip
  | case9 c d hquote hback hu h₁ h₂ h₃ h₄ uc hskip hlead b u g₁ g₂ g₃ g₄ s hpair ih =>
    obtain rfl := not_not.mp hback
    obtain rfl := not_not.mp hu
    refine stringSafe_unicode h ih (w := []) (by decide) ?_
    rw [unescape.eq_def, ← map_nil_append]
    exact (if_neg hskip).trans ((if_pos hlead).trans (if_pos hpair))
  | case10 c d hquote hback hu h₁ h₂ h₃ h₄ uc hskip hlead b u g₁ g₂ g₃ g₄ s hpair uc2 htrail ih =>
    obtain rfl := not_not.mp hback
    obtain rfl := not_not.mp hu
    obtain ⟨hb, hu'⟩ := not_or.mp hpair
    obtain rfl := not_not.mp hb
    obtain rfl := not_not.mp hu'
    refine stringSafe_pair h ih (w := []) (by decide) ?_
    rw [unescape.eq_def, ← map_nil_append]
    exact (if_neg hskip).trans ((if_pos hlead).trans ((if_neg hpair).trans (if_pos htrail)))
  | case11 c d hquote hback hu h₁ h₂ h₃ h₄ lead hskip hlead b u g₁ g₂ g₃ g₄ s hpair uc2 htrail uc
      ih =>
    obtain rfl := not_not.mp hback
    obtain rfl := not_not.mp hu
    obtain ⟨hb, hu'⟩ := not_or.mp hpair
    obtain rfl := not_not.mp hb
    obtain rfl := not_not.mp hu'
    refine stringSafe_pair h ih (w := utf8 uc) (length_utf8_le uc) ?_
    rw [unescape.eq_def]
    exact (if_neg hskip).trans ((if_pos hlead).trans ((if_neg hpair).trans (if_neg htrail)))
  | case12 c d hquote hback hu h₁ h₂ h₃ h₄ uc hskip hlead b u s hshort hpair ih =>
    obtain rfl := not_not.mp hback
    obtain rfl := not_not.mp hu
    refine stringSafe_unicode h ih (w := []) (by decide) ?_
    rw [unescape.eq_def, ← map_nil_append]
    rcases s with _ | ⟨g₁, _ | ⟨g₂, _ | ⟨g₃, _ | ⟨g₄, s⟩⟩⟩⟩
    all_goals first
      | exact (hshort g₁ g₂ g₃ g₄ s rfl).elim
      | exact (if_neg hskip).trans ((if_pos hlead).trans (if_pos hpair))
  | case13 c d hquote hback hu h₁ h₂ h₃ h₄ uc hskip hlead b u s hshort hpair =>
    -- the second escape of the pair is broken
    obtain rfl := not_not.mp hback
    obtain rfl := not_not.mp hu
    obtain ⟨hb, hu'⟩ := not_or.mp hpair
    obtain rfl := not_not.mp hb
    obtain rfl := not_not.mp hu'
    obtain ⟨g₁, g₂, g₃, g₄, s', hs⟩ := four_of_wellEscaped (wellEscaped_unicode_iff.mp h).2
    exact (hshort g₁ g₂ g₃ g₄ s' hs).elim
  | case14 c d hquote hback hu h₁ h₂ h₃ h₄ uc hskip hlead s hlong hshort ih =>
    obtain rfl := not_not.mp hback
    obtain rfl := not_not.mp hu
    refine stringSafe_unicode h ih (w := []) (by decide) ?_
    rw [unescape.eq_def, ← map_nil_append]
    rcases s with _ | ⟨b, _ | ⟨u, s⟩⟩
    · exact (if_neg hskip).trans (if_pos hlead)
    · exact (if_neg hskip).trans (if_pos hlead)
    · exact (hshort b u s rfl).elim
  | case15 c d hquote hback hu h₁ h₂ h₃ h₄ s uc hskip hlead ih =>
    obtain rfl := not_not.mp hback
    obtain rfl := not_not.mp hu
    refine stringSafe_unicode h ih (w := utf8 uc) (length_utf8_le uc) ?_
    rw [unescape.eq_def]
    exact (if_neg hskip).trans (if_neg hlead)
  | case16 c d s hquote hback hu hshort =>
    obtain rfl := not_not.mp hback
    obtain rfl := not_not.mp hu
    obtain ⟨h₁, h₂, h₃, h₄, s', hs⟩ := four_of_wellEscaped h
    exact (hshort h₁ h₂ h₃ h₄ s' hs).elim

/-! ## The grammar -/

/-- A parser that keeps to its memory and stops outside strings, on a text with the
skeleton `s`. It closes `k` brackets that were opened in front. -/
abbrev Safe {α : Type} (k : Nat) (s : Bytes) : Except Fault (Option (α × Bytes)) → Prop :=
  Returns (fun f => f = .intOverflow ∧ ¬ ExponentsBelow (2 ^ 31) s ∨ f = .outOfFuel) True
    fun _ t => WellEscaped false t ∧ Leaves k s (skeleton false t)

section Safe

variable {α : Type} {k : Nat} {s s' : Bytes} {r : Except Fault (Option (α × Bytes))}

/-- On a longer text, by what stands in front. -/
theorem Safe.of_suffix {k' : Nat} (h : Safe k' s' r) (hsuffix : s' <:+ s)
    (hleaves : ∀ t, Leaves k' s' t → Leaves k s t) : Safe k s r := by
  rcases r with f | _ | x
  · exact h.imp_left fun ⟨hover, hbig⟩ => ⟨hover, fun hsmall => hbig (hsmall.suffix hsuffix)⟩
  · exact h
  · exact ⟨h.1, hleaves _ h.2⟩

theorem Safe.after (h : Safe k s' r) (hs : Leaves 0 s s') : Safe k s r :=
  h.of_suffix hs.suffix fun _ => hs.trans

/-- Behind an opening bracket. -/
theorem Safe.opened {c : UInt8} (hc : c = 91 ∨ c = 123) (h : Safe 1 s r) : Safe 0 (c :: s) r :=
  h.of_suffix (List.suffix_cons c s) fun _ => .opened hc

end Safe

/-- Bytes of a value that is no string, array or object. -/
def Passes (s rest : Bytes) : Prop := ∃ p, (∀ c ∈ p, c ≠ quote ∧ NoBracket c) ∧ s = p ++ rest

namespace Passes

variable {s t r : Bytes} {c : UInt8}

theorem refl (s : Bytes) : Passes s s := ⟨[], nofun, rfl⟩

theorem trans (h : Passes s t) (h' : Passes t r) : Passes s r := by
  obtain ⟨p, hp, rfl⟩ := h
  obtain ⟨q, hq, rfl⟩ := h'
  exact ⟨p ++ q, fun c hc => (List.mem_append.mp hc).elim (hp c) (hq c),
    (List.append_assoc p q r).symm⟩

theorem cons (hc : c ≠ quote ∧ NoBracket c) (s : Bytes) : Passes (c :: s) s :=
  ⟨[c], by simpa using hc, rfl⟩

/-- What is left of the text behind such bytes. -/
theorem rest (h : Passes s t) (hs : WellEscaped false s) :
    WellEscaped false t ∧ Leaves 0 (skeleton false s) (skeleton false t) := by
  obtain ⟨p, hp, rfl⟩ := h
  have hquote : quote ∉ p := fun hmem => (hp quote hmem).1 rfl
  rw [skeleton_append hquote]
  exact ⟨(wellEscaped_append hquote).mp hs, .append (fun c hc => (hp c hc).2) _⟩

end Passes

theorem passes_dropWhile {f : UInt8 → Bool}
    (hf : ∀ c, f c = true → c ≠ quote ∧ NoBracket c) (s : Bytes) : Passes s (s.dropWhile f) :=
  ⟨s.takeWhile f, fun c hc => hf c (List.mem_takeWhile_imp hc),
    List.takeWhile_append_dropWhile.symm⟩

theorem noBracket_of_isDigit {c : UInt8} (h : isDigit c = true) : c ≠ quote ∧ NoBracket c := by
  have hne : ∀ d : UInt8, isDigit d = false → c ≠ d := by
    rintro d hd rfl
    rw [h] at hd
    cases hd
  exact ⟨hne 34 rfl, hne 91 rfl, hne 123 rfl, hne 93 rfl, hne 125 rfl⟩

theorem passes_digits (s : Bytes) : Passes s (s.dropWhile isDigit) :=
  passes_dropWhile (fun _ => noBracket_of_isDigit) s

theorem passes_skip (s : Bytes) : Passes s (skip s) := by
  refine passes_dropWhile (fun c hc => ?_) s
  have hle : c ≤ 32 := by simpa using hc
  have hne : ∀ d : UInt8, ¬ d ≤ 32 → c ≠ d := by
    rintro d hd rfl
    exact hd hle
  exact ⟨hne 34 (by decide), hne 91 (by decide), hne 123 (by decide), hne 93 (by decide),
    hne 125 (by decide)⟩

theorem passes_integerPart (num : Bytes) : Passes num (integerPart num).2 := by
  have hdigits : ∀ (c : UInt8) (num : Bytes), Passes num (if 49 ≤ c ∧ c ≤ 57 then
      (num.takeWhile isDigit, num.dropWhile isDigit) else ([], num)).2 := by
    intro c num
    split
    · exact passes_digits num
    · exact .refl num
  unfold integerPart
  split
  · refine (Passes.cons (by decide) _).trans ?_
    dsimp only
    split
    · exact hdigits _ _
    · exact .refl _
  · dsimp only
    split
    · exact hdigits _ _
    · exact .refl _

theorem passes_fractionPart (num : Bytes) : Passes num (fractionPart num).2 := by
  unfold fractionPart
  split
  · split
    · exact (Passes.cons (by decide) _).trans (passes_digits _)
    · exact .refl _
  · exact .refl _

/-- The exponent is read to its end, unless it is too large. -/
theorem exponentPart_passes (num : Bytes) :
    (∃ r, exponentPart num = .ok r ∧ Passes num r.2) ∨
      (exponentPart num = .error .intOverflow ∧ ¬ SmallExponents (2 ^ 31) num) := by
  cases num with
  | nil => exact .inl ⟨(0, []), rfl, .refl _⟩
  | cons c t =>
    by_cases hc : c = 101 ∨ c = 69
    · have hpass : Passes (c :: t) t := .cons (by rcases hc with rfl | rfl <;> decide) t
      have hquote : c ≠ 34 := by rcases hc with rfl | rfl <;> decide
      -- the digits start behind the sign, if there is one
      have hdigits : ∀ (sign : ℤ) (t' : Bytes), Passes t t' → unsigned t = t' →
          (∃ r, (if 2 ^ 31 ≤ ofNumeral 10 (t'.takeWhile isDigit) then .error .intOverflow
            else .ok (sign * ofNumeral 10 (t'.takeWhile isDigit), t'.dropWhile isDigit) :
              Except Fault (ℤ × Bytes)) = .ok r ∧ Passes (c :: t) r.2) ∨
          ((if 2 ^ 31 ≤ ofNumeral 10 (t'.takeWhile isDigit) then .error .intOverflow
            else .ok (sign * ofNumeral 10 (t'.takeWhile isDigit), t'.dropWhile isDigit) :
              Except Fault (ℤ × Bytes)) = .error .intOverflow ∧
            ¬ SmallExponents (2 ^ 31) (c :: t)) := by
        intro sign t' ht' hunsigned
        split_ifs with h
        · refine .inr ⟨rfl, fun hsmall => ?_⟩
          rw [SmallExponents, skeleton_outside hquote] at hsmall
          have hlt := hsmall.1 hc
          rw [takeWhile_unsigned_skeleton, hunsigned] at hlt
          omega
        · exact .inl ⟨_, rfl, hpass.trans (ht'.trans (passes_digits t'))⟩
      rw [exponentPart.eq_def]
      simp only [if_pos hc]
      split
      · exact hdigits 1 _ (.cons (by decide) _) rfl
      · exact hdigits (-1) _ (.cons (by decide) _) rfl
      · next hplus hminus =>
        refine hdigits 1 t (.refl t) ?_
        unfold unsigned
        split
        · exact absurd rfl (hplus _)
        · exact absurd rfl (hminus _)
        · rfl
    · refine .inl ⟨(0, c :: t), ?_, .refl _⟩
      rw [exponentPart.eq_def]
      exact if_neg hc

/-- What comes after the exponent keeps the rest of the text. -/
theorem exponentPart_safe {num : Bytes} (h : WellEscaped false num)
    {f : ℤ × Bytes → Except Fault (CJson × Bytes)} (hf : ∀ r, ∃ v, f r = .ok (v, r.2)) :
    Safe 0 (skeleton false num) ((exponentPart num >>= f).map some) := by
  rcases exponentPart_passes num with ⟨r, hr, hrest⟩ | ⟨hover, hbig⟩
  · obtain ⟨v, hv⟩ := hf r
    have hrun : exponentPart num >>= f = .ok (v, r.2) := by rw [hr]; exact hv
    rw [hrun]
    exact hrest.rest h
  · have hrun : exponentPart num >>= f = .error .intOverflow := by rw [hover]; rfl
    rw [hrun]
    exact .inl ⟨rfl, hbig⟩

theorem parseNumber_safe (M : Machine) {num : Bytes} (h : WellEscaped false num) :
    Safe 0 (skeleton false num) ((parseNumber M num).map some) := by
  have hdigits : ∀ num : Bytes, Passes num (fractionPart (integerPart num).2).2 := fun num =>
    (passes_integerPart num).trans (passes_fractionPart (integerPart num).2)
  unfold parseNumber
  split
  next sign t hsign =>
    split at hsign
    · cases hsign
      have hrest := ((Passes.cons (by decide) t).trans (hdigits t)).rest h
      exact (exponentPart_safe hrest.1 fun _ => ⟨_, rfl⟩).after hrest.2
    · cases hsign
      have hrest := (hdigits num).rest h
      exact (exponentPart_safe hrest.1 fun _ => ⟨_, rfl⟩).after hrest.2

theorem parseString_safe {s : Bytes} (h : WellEscaped false s) :
    Safe 0 (skeleton false s) (parseString s) := by
  cases s with
  | nil => exact trivial
  | cons c s =>
    rw [parseString]
    split
    · exact trivial
    · next hc =>
      obtain rfl := not_not.mp hc
      obtain ⟨out, rest, len, hout, hlen, hle, hrest, hleaves⟩ :=
        stringSafe_of_wellEscaped (wellEscaped_open.mp h)
      rw [hlen, hout]
      show Safe 0 _ (if len < out.length then _ else _)
      rw [if_neg (Nat.not_lt.mpr hle)]
      exact ⟨hrest, (Leaves.cons (by decide) _).trans hleaves⟩

/-- The three functions of the grammar on text without a broken escape. -/
structure GrammarSafe (M : Machine) (fuel : Nat) : Prop where
  value : ∀ s, WellEscaped false s → Safe 0 (skeleton false s) (parseValue M fuel s)
  elements : ∀ s, WellEscaped false s → Safe 1 (skeleton false s) (parseElements M fuel s)
  members : ∀ s, WellEscaped false s → Safe 1 (skeleton false s) (parseMembers M fuel s)

section Grammar

variable {M : Machine} {fuel : Nat} {s : Bytes}

theorem skip_rest (h : WellEscaped false s) : WellEscaped false (skip s) ∧
    Leaves 0 (skeleton false s) (skeleton false (skip s)) := (passes_skip s).rest h

/-- A byte behind white space that is no part of a string. -/
theorem skip_cons_rest {c : UInt8} {t : Bytes} (hskip : skip s = c :: t) (hc : c ≠ quote)
    (h : WellEscaped false s) : WellEscaped false t ∧
      Leaves 0 (skeleton false s) (c :: skeleton false t) := by
  obtain ⟨hs, hleaves⟩ := skip_rest h
  rw [hskip] at hs hleaves
  rw [skeleton_outside hc] at hleaves
  exact ⟨(wellEscaped_outside hc).mp hs, hleaves⟩

/-- The byte that ends an array or an object. -/
theorem safe_closed {α : Type} {c : UInt8} {t : Bytes} (hskip : skip s = c :: t)
    (hc : c = 93 ∨ c = 125) (h : WellEscaped false s) (x : α) :
    Safe 1 (skeleton false s) (.ok (some (x, t))) := by
  have hquote : c ≠ quote := by rcases hc with rfl | rfl <;> decide
  obtain ⟨ht, hleaves⟩ := skip_cons_rest hskip hquote h
  exact ⟨ht, hleaves.trans (.closed hc _)⟩

/-- A literal holds neither a quotation mark nor a bracket. -/
theorem drop_rest {w : Bytes} (hw : ∀ c ∈ w, c ≠ quote ∧ NoBracket c)
    (hpre : w.isPrefixOf s = true) (h : WellEscaped false s) :
    WellEscaped false (s.drop w.length) ∧
      Leaves 0 (skeleton false s) (skeleton false (s.drop w.length)) := by
  obtain ⟨t, rfl⟩ := List.isPrefixOf_iff_prefix.mp hpre
  rw [List.drop_left]
  exact Passes.rest ⟨w, hw, rfl⟩ h

theorem parseValue_safe (ih : GrammarSafe M fuel) (h : WellEscaped false s) :
    Safe 0 (skeleton false s) (parseValue M (fuel + 1) s) := by
  rw [parseValue.eq_def]
  simp only
  split_ifs with hnull hfalse htrue
  · exact drop_rest (w := bytes "null") (by decide) hnull h
  · exact drop_rest (w := bytes "false") (by decide) hfalse h
  · exact drop_rest (w := bytes "true") (by decide) htrue h
  · cases s with
    | nil => exact trivial
    | cons c s =>
      simp only
      split_ifs with hquote hnumber harray hobject
      · exact (parseString_safe h).map fun _ _ ht => ht
      · exact parseNumber_safe M h
      · have hs := (wellEscaped_outside hquote).mp h
        rw [skeleton_outside hquote]
        cases hd : skip s with
        | nil => exact trivial
        | cons d t =>
          obtain ⟨hskip, hleaves⟩ := skip_rest hs
          rw [hd] at hskip hleaves
          simp only
          split_ifs with hclose
          · exact (safe_closed hd (.inl hclose) hs _).opened (.inl harray)
          · exact (((ih.elements _ hskip).after hleaves).opened (.inl harray)).map fun _ _ ht => ht
      · have hs := (wellEscaped_outside hquote).mp h
        rw [skeleton_outside hquote]
        cases hd : skip s with
        | nil => exact trivial
        | cons d t =>
          obtain ⟨hskip, hleaves⟩ := skip_rest hs
          rw [hd] at hskip hleaves
          simp only
          split_ifs with hclose
          · exact (safe_closed hd (.inr hclose) hs _).opened (.inr hobject)
          · exact (((ih.members _ hskip).after hleaves).opened (.inr hobject)).map fun _ _ ht => ht
      · exact trivial

theorem parseElements_safe (ih : GrammarSafe M fuel) (h : WellEscaped false s) :
    Safe 1 (skeleton false s) (parseElements M (fuel + 1) s) := by
  obtain ⟨hs, hleaves⟩ := skip_rest h
  rw [parseElements]
  refine Returns.bind ((ih.value _ hs).after hleaves) (fun _ => trivial)
    fun child rest _ hrest => ?_
  dsimp only
  cases hd : skip rest with
  | nil => exact trivial
  | cons c t =>
    simp only
    -- a comma and more, the bracket, or neither
    split_ifs with hcomma hclose
    · obtain ⟨ht, hleaves'⟩ := skip_cons_rest hd (by rw [hcomma]; decide) hrest.1
      have hmore := hleaves'.trans (.cons (by rw [hcomma]; decide) _)
      exact ((ih.elements t ht).after (hrest.2.trans hmore)).map fun _ _ ht => ht
    · exact (safe_closed hd (.inl hclose) hrest.1 _).after hrest.2
    · exact trivial

theorem parseMembers_safe (ih : GrammarSafe M fuel) (h : WellEscaped false s) :
    Safe 1 (skeleton false s) (parseMembers M (fuel + 1) s) := by
  obtain ⟨hs, hleaves⟩ := skip_rest h
  rw [parseMembers]
  refine Returns.bind ((parseString_safe hs).after hleaves) (fun _ => trivial)
    fun name rest _ hrest => ?_
  dsimp only
  cases hd : skip rest with
  | nil => exact trivial
  | cons c t =>
    simp only
    split_ifs with hcolon
    · exact trivial
    · have hc : c = 58 := not_not.mp hcolon
      obtain ⟨ht, hcolon'⟩ := skip_cons_rest hd (by rw [hc]; decide) hrest.1
      obtain ⟨hv, hblank⟩ := skip_rest ht
      have hvalue := hrest.2.trans ((hcolon'.trans (.cons (by rw [hc]; decide) _)).trans hblank)
      refine Returns.bind ((ih.value _ hv).after hvalue) (fun _ => trivial)
        fun child rest' _ hrest' => ?_
      dsimp only
      cases hd' : skip rest' with
      | nil => exact trivial
      | cons c' t' =>
        simp only
        split_ifs with hcomma hclose
        · obtain ⟨ht', hleaves'⟩ := skip_cons_rest hd' (by rw [hcomma]; decide) hrest'.1
          have hmore := hleaves'.trans (.cons (by rw [hcomma]; decide) _)
          exact ((ih.members t' ht').after (hrest'.2.trans hmore)).map fun _ _ ht => ht
        · exact (safe_closed hd' (.inr hclose) hrest'.1 _).after hrest'.2
        · exact trivial

end Grammar

/-- By induction on the fuel. -/
theorem grammar_safe (M : Machine) (fuel : Nat) : GrammarSafe M fuel := by
  induction fuel with
  | zero => exact ⟨fun _ _ => .inr rfl, fun _ _ => .inr rfl, fun _ _ => .inr rfl⟩
  | succ fuel ih =>
    exact ⟨fun _ => parseValue_safe ih, fun _ => parseElements_safe ih,
      fun _ => parseMembers_safe ih⟩

/-! ## The nesting of the calls -/

/-- The calls of the three functions are nested no deeper than the brackets. -/
structure GrammarDepth (M : Machine) (fuel : Nat) : Prop where
  value : ∀ s, WellEscaped false s → valueDepth M fuel s ≤ nesting s
  elements : ∀ s, WellEscaped false s → elementsDepth M fuel s ≤ nesting s
  members : ∀ s, WellEscaped false s → membersDepth M fuel s ≤ nesting s

/-- The text behind a byte, where that byte is neither quotation mark nor bracket. -/
theorem textAfter_rest {α : Type} {c : UInt8} {r : Except Fault (Option (α × Bytes))} {s t : Bytes}
    (hr : Safe 0 s r) (hc : c ≠ quote ∧ NoBracket c) (h : textAfter c r = some t) :
    WellEscaped false t ∧ nesting t ≤ depth s := by
  rcases r with f | _ | ⟨x, rest⟩
  · cases h
  · cases h
  · obtain ⟨hrest, hleaves⟩ := hr
    unfold textAfter at h
    cases hd : skip rest with
    | nil => simp [hd] at h
    | cons d u =>
      simp only [hd] at h
      split_ifs at h with hdc
      obtain rfl := Option.some.inj h
      obtain ⟨ht, hleaves'⟩ := skip_cons_rest hd (hdc ▸ hc.1) hrest
      exact ⟨ht, ((hleaves.trans hleaves').trans (.cons (hdc ▸ hc.2) _)).depth⟩

section Depth

variable {M : Machine} {fuel : Nat} {s : Bytes}

theorem nesting_skip (h : WellEscaped false s) : nesting (skip s) ≤ nesting s :=
  (skip_rest h).2.depth

theorem valueDepth_le (ih : GrammarDepth M fuel) (h : WellEscaped false s) :
    valueDepth M (fuel + 1) s ≤ nesting s := by
  cases s with
  | nil => exact Nat.zero_le _
  | cons c s =>
    -- what is behind the bracket nests one level less
    have hinner : ∀ {d : Nat}, c = 91 ∨ c = 123 →
        (WellEscaped false s → d ≤ nesting (skip s)) → d + 1 ≤ nesting (c :: s) := by
      intro d hc hd
      have hquote : c ≠ 34 := by rcases hc with rfl | rfl <;> decide
      have hs := (wellEscaped_outside hquote).mp h
      rw [nesting, skeleton_outside hquote, depth_open hc]
      exact Nat.succ_le_succ ((hd hs).trans (nesting_skip hs))
    rw [valueDepth]
    split_ifs with harray hobject
    · cases hd : skip s with
      | nil => exact hinner (.inl harray) fun _ => Nat.zero_le _
      | cons d t =>
        simp only
        split_ifs with hclose
        · exact hinner (.inl harray) fun _ => Nat.zero_le _
        · refine hinner (.inl harray) fun hs => ?_
          rw [hd]
          exact ih.elements _ (hd ▸ (skip_rest hs).1)
    · cases hd : skip s with
      | nil => exact hinner (.inr hobject) fun _ => Nat.zero_le _
      | cons d t =>
        simp only
        split_ifs with hclose
        · exact hinner (.inr hobject) fun _ => Nat.zero_le _
        · refine hinner (.inr hobject) fun hs => ?_
          rw [hd]
          exact ih.members _ (hd ▸ (skip_rest hs).1)
    · exact Nat.zero_le _

theorem elementsDepth_le (ih : GrammarDepth M fuel) (h : WellEscaped false s) :
    elementsDepth M (fuel + 1) s ≤ nesting s := by
  obtain ⟨hs, -⟩ := skip_rest h
  have hle := nesting_skip h
  rw [elementsDepth]
  refine max_le ((ih.value _ hs).trans hle) ?_
  cases hmore : textAfter 44 (parseValue M fuel (skip s)) with
  | none => exact Nat.zero_le _
  | some t =>
    obtain ⟨ht, hnest⟩ := textAfter_rest ((grammar_safe M fuel).value _ hs) (by decide) hmore
    exact (ih.elements t ht).trans (hnest.trans hle)

theorem membersDepth_le (ih : GrammarDepth M fuel) (h : WellEscaped false s) :
    membersDepth M (fuel + 1) s ≤ nesting s := by
  obtain ⟨hs, -⟩ := skip_rest h
  have hle := nesting_skip h
  rw [membersDepth]
  cases hname : textAfter 58 (parseString (skip s)) with
  | none => exact Nat.zero_le _
  | some t =>
    obtain ⟨ht, hnest⟩ := textAfter_rest (parseString_safe hs) (by decide) hname
    obtain ⟨hv, -⟩ := skip_rest ht
    have hle' := (nesting_skip ht).trans (hnest.trans hle)
    refine max_le ((ih.value _ hv).trans hle') ?_
    cases hmore : textAfter 44 (parseValue M fuel (skip t)) with
    | none => exact Nat.zero_le _
    | some t' =>
      obtain ⟨ht', hnest'⟩ := textAfter_rest ((grammar_safe M fuel).value _ hv) (by decide) hmore
      exact (ih.members t' ht').trans (hnest'.trans hle')

end Depth

/-- By induction on the fuel. -/
theorem grammar_depth (M : Machine) (fuel : Nat) : GrammarDepth M fuel := by
  induction fuel with
  | zero => exact ⟨fun _ _ => Nat.zero_le _, fun _ _ => Nat.zero_le _, fun _ _ => Nat.zero_le _⟩
  | succ fuel ih =>
    exact ⟨fun _ => valueDepth_le ih, fun _ => elementsDepth_le ih, fun _ => membersDepth_le ih⟩

theorem readingDepth_le (M : Machine) {value : CStr} (h : WellEscaped false value.toBytes) :
    readingDepth M value ≤ nesting value.toBytes :=
  ((grammar_depth M _).value _ (skip_rest h).1).trans (nesting_skip h)

/-- Opening brackets are read one level each. -/
theorem le_valueDepth_brackets (M : Machine) (n fuel : Nat) (hfuel : 2 * n ≤ fuel) :
    n ≤ valueDepth M fuel (List.replicate n 91) := by
  induction n generalizing fuel with
  | zero => exact Nat.zero_le _
  | succ n ih =>
    obtain ⟨fuel, rfl⟩ := Nat.exists_eq_add_of_le' (show 1 ≤ fuel by omega)
    rw [List.replicate_succ, valueDepth, if_pos rfl]
    cases n with
    | zero => exact le_rfl
    | succ n =>
      obtain ⟨fuel, rfl⟩ := Nat.exists_eq_add_of_le' (show 1 ≤ fuel by omega)
      have hskip : skip (List.replicate (n + 1) 91) = 91 :: List.replicate n 91 := rfl
      rw [hskip]
      show n + 1 + 1 ≤ elementsDepth M (fuel + 1) (List.replicate (n + 1) 91) + 1
      rw [elementsDepth, hskip]
      exact Nat.succ_le_succ ((ih fuel (by omega)).trans (le_max_left _ _))

/-- **No stack is large enough** for every reply: the reader has no limit of its own. -/
theorem stackOverflow_brackets (M : Machine) (stack : Nat) :
    let value := cStr (List.replicate (stack + 1) 91)
    onStack stack (readingDepth M value) (tretapCJsonParse M value) = .error .stackOverflow := by
  intro value
  have htext : value.toBytes = List.replicate (stack + 1) 91 :=
    cStr_toBytes_of_noNul fun hmem => absurd (List.eq_of_mem_replicate hmem) (by decide)
  refine if_pos (Nat.lt_of_succ_le ?_)
  rw [readingDepth, htext, List.length_replicate]
  exact le_valueDepth_brackets M (stack + 1) _ (by omega)

/-! ## The reader -/

/-- **On a text without a broken escape the reader keeps to its memory**: it never
reads beyond the terminator and never writes more than it has allocated. It stops at
an exponent that does not fit an `int` only, and goes no deeper than the text nests. -/
theorem parse_safe (M : Machine) {value : CStr} (h : WellEscaped false value.toBytes) :
    ((tretapCJsonParse M value = .error .intOverflow ∧
        ¬ SmallExponents (2 ^ 31) value.toBytes) ∨
      ∃ root, tretapCJsonParse M value = .ok root) ∧
    readingDepth M value ≤ nesting value.toBytes := by
  obtain ⟨hs, hleaves⟩ := skip_rest h
  have hsafe := ((grammar_safe M (2 * value.toBytes.length + 2)).value _ hs).after hleaves
  have hfuel := parse_ne_outOfFuel M value
  refine ⟨?_, readingDepth_le M h⟩
  unfold tretapCJsonParse at hfuel ⊢
  cases hparse : parseValue M (2 * value.toBytes.length + 2) (skip value.toBytes) with
  | ok o => exact .inr ⟨_, rfl⟩
  | error e =>
    rw [hparse] at hsafe hfuel
    obtain ⟨rfl, hbig⟩ := hsafe.resolve_right fun he => hfuel (congrArg Except.error he)
    exact .inl ⟨rfl, hbig⟩

/-- A text that is no JSON: a lone surrogate, a missing comma, no end. -/
def brokenText : Bytes := bytes "[\"\\ud834 \\/\" \"\\u0041"

theorem wellEscaped_brokenText : WellEscaped false (cStr brokenText).toBytes := by decide +kernel

/-- The reader gives up on it, one level deep. -/
theorem parse_safe_broken :
    (∃ root, tretapCJsonParse nearestMachine (cStr brokenText) = .ok root) ∧
      readingDepth nearestMachine (cStr brokenText) ≤ 1 := by
  obtain ⟨hparse, hdepth⟩ := parse_safe nearestMachine wellEscaped_brokenText
  exact ⟨hparse.resolve_left fun h => h.2 (by decide +kernel), hdepth⟩

/-- A quotation mark among the four digits: the loop that writes takes it for one
of them and goes on behind the string. -/
example : parseString (bytes "\"\\u\",\"Type\":1") = .error .bufferOverrun := by decide +kernel

/-- **The reader accepts JSON**: a text of the grammar whose exponents fit an `int` is
read to its terminator, strict or not, on any stack with room for its nesting, and the
tree is that of the value it denotes. -/
theorem parse_conforms (M : Machine) {value : CStr} {v : Value} (h : Denotes value.toBytes v)
    (hexp : SmallExponents (2 ^ 31) value.toBytes) {stack : Nat} (hstack : v.depth ≤ stack) :
    ∃ c, Reads M v c ∧
      onStack stack (readingDepth M value) (tretapCJsonParseWithOpts M value Bool.true) =
        .ok (some (c, [])) ∧
      onStack stack (readingDepth M value) (tretapCJsonParse M value) = .ok (some c) := by
  obtain ⟨hescaped, hnest⟩ := h.outline
  obtain ⟨hsafe, hdepth⟩ := parse_safe M hescaped
  rw [hnest] at hdepth
  rw [onStack_of_le (hdepth.trans hstack), onStack_of_le (hdepth.trans hstack)]
  rcases parse_of_denotes M h with ⟨-, hover⟩ | ⟨c, hc, hopts, hparse⟩
  · -- the exponent in the way would have to be a large one
    rcases hsafe with ⟨-, hbig⟩ | ⟨root, hroot⟩
    · exact absurd hexp hbig
    · rw [hroot] at hover
      cases hover
  · rw [hopts, hparse]
    exact ⟨c, hc, rfl, rfl⟩

/-- The record with white space and an escape, on a stack for one object. -/
theorem parse_conforms_escaped :
    let depth := readingDepth nearestMachine (cStr escapedRecord)
    ∃ c, Reads nearestMachine (.object plainRecord.toMembers) c ∧
      onStack 1 depth (tretapCJsonParseWithOpts nearestMachine (cStr escapedRecord) Bool.true) =
        .ok (some (c, [])) ∧
      onStack 1 depth (tretapCJsonParse nearestMachine (cStr escapedRecord)) = .ok (some c) :=
  parse_conforms nearestMachine denotes_escapedRecord (by decide +kernel) (by decide +kernel)

end DdnsCloudTencent
