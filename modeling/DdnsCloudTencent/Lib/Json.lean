import DdnsCloudTencent.Lib.ByteString

/-!
# Flat JSON objects

The request bodies of an HTTP API: one object whose members are strings,
naturals, booleans or null.

- `write` is the text with one blank after each colon and each comma; it does
  not escape, so it is for plain text only;
- `read` accepts the JSON grammar of such objects, white space and escapes
  included, and nothing behind the object. An escaped surrogate is rejected;
- `read_write`: reading gives back what was written.
-/

namespace Json

open Cxx

/-- A value without structure. -/
inductive Atom where
  | string (s : Bytes)
  | number (n : Nat)
  | bool (b : Bool)
  | null
deriving DecidableEq

/-- The members of an object, in the order of the text. -/
abbrev Object := List (Bytes × Atom)

/-- A text that stands for itself between two quotation marks: no control
character, no `"` and no `\`. -/
def PlainText (s : Bytes) : Prop := ∀ c ∈ s, 32 ≤ c ∧ c ≠ 34 ∧ c ≠ 92

instance (s : Bytes) : Decidable (PlainText s) :=
  inferInstanceAs (Decidable (∀ c ∈ s, 32 ≤ c ∧ c ≠ 34 ∧ c ≠ 92))

/-- A value whose text is plain. -/
def Atom.Plain : Atom → Prop
  | .string s => PlainText s
  | _ => True

/-- An object whose texts are plain. -/
def PlainObject (o : Object) : Prop := ∀ m ∈ o, PlainText m.1 ∧ m.2.Plain

/-! ## Writing -/

/-- A text between quotation marks. -/
def writeText (s : Bytes) : Bytes := 34 :: (s ++ [34])

def writeAtom : Atom → Bytes
  | .string s => writeText s
  | .number n => toDecimal n
  | .bool true => bytes "true"
  | .bool false => bytes "false"
  | .null => bytes "null"

def writeMember (m : Bytes × Atom) : Bytes := writeText m.1 ++ bytes ": " ++ writeAtom m.2

def writeMembers : Object → Bytes
  | [] => []
  | [m] => writeMember m
  | m :: m' :: ms => writeMember m ++ bytes ", " ++ writeMembers (m' :: ms)

def write (o : Object) : Bytes := bytes "\x7b" ++ writeMembers o ++ bytes "\x7d"

/-! ## Reading -/

def isWs (c : UInt8) : Bool := c == 32 || c == 9 || c == 10 || c == 13

def skipWs (s : Bytes) : Bytes := s.dropWhile isWs

/-- The number that four hexadecimal digits denote. -/
def hex4 (a b c d : UInt8) : Option Nat :=
  if isHexDigit a && isHexDigit b && isHexDigit c && isHexDigit d then
    some (strtol16 [a, b, c, d]).toNat
  else none

/-- The byte of a one-letter escape. -/
def escaped (c : UInt8) : Option UInt8 :=
  if c = 34 ∨ c = 92 ∨ c = 47 then some c
  else if c = 98 then some 8 else if c = 102 then some 12 else if c = 110 then some 10
  else if c = 114 then some 13 else if c = 116 then some 9 else none

/-- A text behind its opening quotation mark, and what follows the closing one. -/
def readText : Bytes → Option (Bytes × Bytes)
  | [] => none
  | c :: s =>
    if c = 34 then some ([], s)
    else if c < 32 then none
    else if c ≠ 92 then (readText s).map fun r => (c :: r.1, r.2)
    else match s with
      | [] => none
      | e :: s =>
        if e = 117 then
          match s with
          | h₁ :: h₂ :: h₃ :: h₄ :: s =>
            match hex4 h₁ h₂ h₃ h₄ with
            | none => none
            | some u =>
              if 0xD800 ≤ u ∧ u ≤ 0xDFFF then none
              else (readText s).map fun r => (String.utf8EncodeChar (Char.ofNat u) ++ r.1, r.2)
          | _ => none
        else
          match escaped e with
          | none => none
          | some b => (readText s).map fun r => (b :: r.1, r.2)
termination_by structural s => s

/-- A natural number: no leading zero, no fraction, no exponent. -/
def readNumber (s : Bytes) : Option (Nat × Bytes) :=
  let ds := s.takeWhile isDigit
  let rest := s.dropWhile isDigit
  if ds = [] ∨ (ds.head? = some 48 ∧ ds ≠ [48]) then none
  else if rest.head? = some 46 ∨ rest.head? = some 101 ∨ rest.head? = some 69 then none
  else some (ofNumeral 10 ds, rest)

def readAtom (s : Bytes) : Option (Atom × Bytes) :=
  if s.head? = some 34 then (readText (s.drop 1)).map fun r => (.string r.1, r.2)
  else if bytes "true" <+: s then some (.bool true, s.drop 4)
  else if bytes "false" <+: s then some (.bool false, s.drop 5)
  else if bytes "null" <+: s then some (.null, s.drop 4)
  else (readNumber s).map fun r => (.number r.1, r.2)

def readMember (s : Bytes) : Option ((Bytes × Atom) × Bytes) :=
  match skipWs s with
  | 34 :: s =>
    match readText s with
    | none => none
    | some (name, s) =>
      match skipWs s with
      | 58 :: s => (readAtom (skipWs s)).map fun r => ((name, r.1), r.2)
      | _ => none
  | _ => none

/-- Members up to the closing brace. -/
def readMembers : Nat → Bytes → Option (Object × Bytes)
  | 0, _ => none
  | fuel + 1, s =>
    match readMember s with
    | none => none
    | some (m, s) =>
      match skipWs s with
      | 44 :: s => (readMembers fuel s).map fun r => (m :: r.1, r.2)
      | 125 :: s => some ([m], s)
      | _ => none

/-- The object that a text denotes. -/
def read (s : Bytes) : Option Object :=
  match skipWs s with
  | 123 :: s =>
    match skipWs s with
    | [] => none
    | c :: t =>
      if c = 125 then (if skipWs t = [] then some [] else none)
      else match readMembers (c :: t).length (c :: t) with
        | some (o, rest) => if skipWs rest = [] then some o else none
        | none => none
  | _ => none

/-! ## Reading back -/

theorem readText_append {s : Bytes} (h : PlainText s) (rest : Bytes) :
    readText (s ++ 34 :: rest) = some (s, rest) := by
  induction s with
  | nil =>
    rw [List.nil_append, readText.eq_def]
    exact if_pos rfl
  | cons c s ih =>
    obtain ⟨hc, hquote, hback⟩ := h c List.mem_cons_self
    have hctrl : ¬ c < 32 := UInt8.not_lt.mpr hc
    rw [List.cons_append, readText.eq_def]
    simp only [hquote, hctrl, hback, if_false, ne_eq, not_false_eq_true, if_true,
      ih fun c hc => h c (List.mem_cons_of_mem _ hc), Option.map_some]

/-- What may stand behind a number. -/
def Stops (rest : Bytes) : Prop :=
  ∀ c ∈ rest.head?, isDigit c = false ∧ c ≠ 46 ∧ c ≠ 101 ∧ c ≠ 69

theorem head_toDecimal (n : Nat) : (toDecimal n).head? = some 48 → toDecimal n = [48] := by
  intro h
  unfold toDecimal numeral at h ⊢
  split
  · rfl
  · next hn =>
    -- the first digit of a numeral is the last one of `Nat.digits`, which is not zero
    have hne : Nat.digits 10 n ≠ [] := Nat.digits_ne_nil_iff_ne_zero.mpr hn
    rw [if_neg hn, List.head?_map, List.head?_reverse, List.getLast?_eq_getLast_of_ne_nil hne,
      Option.map_some, Option.some.injEq] at h
    have hlt : (Nat.digits 10 n).getLast hne < 10 :=
      Nat.digits_lt_base (by decide) (List.getLast_mem hne)
    have hzero : (Nat.digits 10 n).getLast hne = 0 := by
      rw [← digitValue_digitChar (by omega : (Nat.digits 10 n).getLast hne < 16), h]
      rfl
    exact absurd hzero (Nat.getLast_digit_ne_zero 10 hn)

theorem readNumber_append (n : Nat) {rest : Bytes} (h : Stops rest) :
    readNumber (toDecimal n ++ rest) = some (n, rest) := by
  have hrest : ∀ c ∈ rest.head?, isDigit c = false := fun c hc => (h c hc).1
  have hdigits : ¬ (toDecimal n = [] ∨ ((toDecimal n).head? = some 48 ∧ toDecimal n ≠ [48])) := by
    rintro (hnil | ⟨hhead, hne⟩)
    · exact numeral_ne_nil 10 n hnil
    · exact hne (head_toDecimal n hhead)
  have hstop : ¬ (rest.head? = some 46 ∨ rest.head? = some 101 ∨ rest.head? = some 69) := by
    rintro (hc | hc | hc)
    · exact (h _ hc).2.1 rfl
    · exact (h _ hc).2.2.1 rfl
    · exact (h _ hc).2.2.2 rfl
  unfold readNumber
  simp only [takeWhile_toDecimal n hrest, dropWhile_toDecimal n hrest, if_neg hdigits, if_neg hstop]
  exact congrArg (fun k => some (k, rest)) (ofNumeral_numeral (by decide) (by decide) n)

theorem readAtom_append {a : Atom} (ha : a.Plain) {rest : Bytes} (h : Stops rest) :
    readAtom (writeAtom a ++ rest) = some (a, rest) := by
  cases a with
  | string s =>
    have htext : writeText s ++ rest = 34 :: (s ++ 34 :: rest) := by simp [writeText]
    have hhead : (34 :: (s ++ 34 :: rest) : Bytes).head? = some 34 := rfl
    rw [writeAtom, htext, readAtom, if_pos hhead, List.drop_one, List.tail_cons,
      readText_append ha]
    rfl
  | bool b => cases b <;> rfl
  | null => rfl
  | number n =>
    obtain ⟨c, t, hct⟩ := List.exists_cons_of_ne_nil (numeral_ne_nil 10 n)
    have hc : isDigit c = true := toDecimal_isDigit n c (by rw [toDecimal, hct]; simp)
    -- a number starts with a digit, so it is taken for nothing else
    have hliteral : ∀ d s, isDigit d = false → ¬ (d :: s) <+: toDecimal n ++ rest := by
      intro d s hd hpre
      rw [toDecimal, hct, List.cons_append, List.cons_prefix_cons] at hpre
      rw [hpre.1, hc] at hd
      cases hd
    have hquote : ¬ (toDecimal n ++ rest).head? = some 34 := by
      rw [toDecimal, hct]
      intro h34
      rw [Option.some.inj h34] at hc
      exact absurd hc (by decide)
    have htrue : ¬ bytes "true" <+: toDecimal n ++ rest := hliteral 116 (bytes "rue") rfl
    have hfalse : ¬ bytes "false" <+: toDecimal n ++ rest := hliteral 102 (bytes "alse") rfl
    have hnull : ¬ bytes "null" <+: toDecimal n ++ rest := hliteral 110 (bytes "ull") rfl
    rw [writeAtom, readAtom, if_neg hquote, if_neg htrue, if_neg hfalse, if_neg hnull,
      readNumber_append n h]
    rfl

theorem skipWs_of_head {c : UInt8} (h : isWs c = false) (s : Bytes) :
    skipWs (c :: s) = c :: s := by
  simp [skipWs, h]

theorem skipWs_blank (s : Bytes) : skipWs (32 :: s) = skipWs s := rfl

/-- No value starts with white space. -/
theorem skipWs_writeAtom (a : Atom) (rest : Bytes) :
    skipWs (writeAtom a ++ rest) = writeAtom a ++ rest := by
  cases a with
  | string s => exact skipWs_of_head rfl _
  | bool b => cases b <;> rfl
  | null => rfl
  | number n =>
    obtain ⟨c, t, hct⟩ := List.exists_cons_of_ne_nil (numeral_ne_nil 10 n)
    have hc : isDigit c = true := toDecimal_isDigit n c (by rw [toDecimal, hct]; simp)
    have hws : isWs c = false := by
      simp only [isDigit, Bool.and_eq_true, decide_eq_true_eq] at hc
      simp only [isWs, Bool.or_eq_false_iff, beq_eq_false_iff_ne]
      refine ⟨⟨⟨?_, ?_⟩, ?_⟩, ?_⟩ <;> (rintro rfl; exact absurd hc.1 (by decide))
    rw [writeAtom, toDecimal, hct]
    exact skipWs_of_head hws _

theorem readMember_append {m : Bytes × Atom} (hm : PlainText m.1 ∧ m.2.Plain) {s rest : Bytes}
    (hs : skipWs s = writeMember m ++ rest) (h : Stops rest) :
    readMember s = some (m, rest) := by
  have htext : writeMember m ++ rest =
      34 :: (m.1 ++ 34 :: 58 :: 32 :: (writeAtom m.2 ++ rest)) := by
    simp [writeMember, writeText, show bytes ": " = [58, 32] from rfl]
  rw [readMember, hs, htext]
  simp only [readText_append hm.1]
  rw [skipWs_of_head (by rfl)]
  simp only [skipWs_blank, skipWs_writeAtom, readAtom_append hm.2 h, Option.map_some]

theorem readMembers_append {o : Object} (ho : PlainObject o) (hne : o ≠ []) {fuel : Nat}
    (hfuel : o.length ≤ fuel) {s : Bytes} (rest : Bytes)
    (hs : skipWs s = writeMembers o ++ 125 :: rest) :
    readMembers fuel s = some (o, rest) := by
  induction o generalizing fuel s with
  | nil => exact absurd rfl hne
  | cons m ms ih =>
    obtain ⟨fuel, rfl⟩ : ∃ k, fuel = k + 1 := ⟨fuel - 1, by simp at hfuel; omega⟩
    have hm := ho m List.mem_cons_self
    rw [readMembers]
    cases ms with
    | nil =>
      rw [readMember_append hm hs fun c hc => by cases hc; decide]
      rfl
    | cons m' ms =>
      -- behind the comma the induction hypothesis applies, after one blank
      have hmore : skipWs s =
          writeMember m ++ 44 :: 32 :: (writeMembers (m' :: ms) ++ 125 :: rest) := by
        rw [hs]
        simp [writeMembers, show bytes ", " = [44, 32] from rfl]
      have htail : skipWs (writeMembers (m' :: ms) ++ 125 :: rest) =
          writeMembers (m' :: ms) ++ 125 :: rest := by
        cases ms <;> exact skipWs_of_head rfl _
      have hblank : skipWs (32 :: (writeMembers (m' :: ms) ++ 125 :: rest)) =
          writeMembers (m' :: ms) ++ 125 :: rest := by
        rw [skipWs_blank, htail]
      have hrest := ih (fun x hx => ho x (List.mem_cons_of_mem m hx)) (List.cons_ne_nil _ _)
        (Nat.le_of_succ_le_succ hfuel) hblank
      rw [readMember_append hm hmore fun c hc => by cases hc; decide]
      simp only [skipWs_of_head (show isWs 44 = false from rfl), hrest, Option.map_some]

theorem length_le_writeMembers (o : Object) : o.length ≤ (writeMembers o).length := by
  induction o with
  | nil => exact Nat.zero_le _
  | cons m ms ih =>
    cases ms with
    | nil => simp [writeMembers, writeMember, writeText]
    | cons m' ms =>
      simp only [writeMembers, writeMember, writeText, List.length_append, List.length_cons] at ih ⊢
      omega

/-- **Reading back what was written.** -/
theorem read_write {o : Object} (ho : PlainObject o) : read (write o) = some o := by
  cases o with
  | nil => rfl
  | cons m ms =>
    have hwrite : write (m :: ms) = 123 :: (writeMembers (m :: ms) ++ [125]) := by
      simp [write, show bytes "\x7b" = [123] from rfl, show bytes "\x7d" = [125] from rfl]
    obtain ⟨t, ht⟩ : ∃ t, writeMembers (m :: ms) ++ [125] = 34 :: t := by
      cases ms <;> exact ⟨_, rfl⟩
    have hskip : skipWs (34 :: t) = 34 :: t := skipWs_of_head rfl t
    have hmembers : readMembers (34 :: t).length (34 :: t) = some (m :: ms, []) := by
      refine readMembers_append ho (List.cons_ne_nil m ms) ?_ [] (by rw [hskip, ht])
      rw [← ht, List.length_append]
      exact Nat.le_add_right_of_le (length_le_writeMembers (m :: ms))
    rw [read, hwrite, skipWs_of_head rfl, ht]
    have hne : (34 : UInt8) ≠ 125 := by decide
    simp only [hskip, if_neg hne]
    rw [hmembers]
    rfl

end Json
