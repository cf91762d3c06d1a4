import DdnsCloudTencent.Lib.Lines
import Mathlib.Data.BitVec

/-!
# Internet addresses as text

The text form of addresses as `inet_ntop` writes it and `inet_pton` reads it.

- IPv4: the dotted quad.
- IPv6: lower-case hexadecimal groups, the first longest run of at least two
  zero groups written `::`, and the last two groups as a dotted quad when the
  run makes the address IPv4-compatible or IPv4-mapped.

`inetNtop4_injective` and `inetNtop6_injective`: an address is determined by
its text. For IPv6 this goes through the fields between the colons (`fields`),
from which `readGroups` recovers the eight groups.
-/

namespace Inet

open Cxx

/-- The separator of a dotted quad. -/
abbrev dot : UInt8 := 46

/-- The separator of IPv6 groups. -/
abbrev colon : UInt8 := 58

/-! ## IPv4 -/

/-- The four octets of an address in network order. -/
def octets (a : BitVec 32) : List Nat :=
  [a.toNat / 2 ^ 24, a.toNat / 2 ^ 16 % 256, a.toNat / 2 ^ 8 % 256, a.toNat % 256]

/-- Octets in decimal with dots between them. -/
def dottedQuad (os : List Nat) : Bytes := joinSep dot (os.map toDecimal)

/-- `inet_ntop(AF_INET, …)`. -/
def inetNtop4 (a : BitVec 32) : Bytes := dottedQuad (octets a)

/-- The scanner of `inet_pton(AF_INET, …)` between two characters: the octets
closed by a dot, and the one being read once it has a digit. -/
structure Pton4 where
  done : List Nat
  cur : Option Nat

/-- One character: a digit that does not follow a leading zero and keeps the
octet below 256, or a dot after one of the first three octets. -/
def pton4Step (s : Pton4) (c : UInt8) : Option Pton4 :=
  if isDigit c then
    match s.cur with
    | none => if s.done.length < 4 then some { s with cur := some (c.toNat - 48) } else none
    | some n =>
      if n = 0 ∨ 255 < n * 10 + (c.toNat - 48) then none
      else some { s with cur := some (n * 10 + (c.toNat - 48)) }
  else if c = dot then
    match s.cur with
    | some n => if s.done.length < 3 then some ⟨s.done ++ [n], none⟩ else none
    | none => none
  else none

/-- `inet_pton(AF_INET, …)`, `none` when it returns 0 and writes nothing. -/
def inetPton4 (t : Bytes) : Option (BitVec 32) :=
  match t.foldlM pton4Step ⟨[], none⟩ with
  | some ⟨[a, b, c], some d⟩ => some (BitVec.ofNat 32 (((a * 256 + b) * 256 + c) * 256 + d))
  | _ => none

theorem dot_notMem_toDecimal (n : Nat) : dot ∉ toDecimal n :=
  fun h => absurd (toDecimal_isDigit n dot h) (by decide)

theorem splitSep_dottedQuad {os : List Nat} (hne : os ≠ []) :
    (splitSep dot (dottedQuad os)).map (ofNumeral 10) = os := by
  unfold dottedQuad
  rw [splitSep_joinSep (by simpa using hne), List.map_map]
  · refine (List.map_congr_left fun n _ => ?_).trans (List.map_id _)
    exact ofNumeral_numeral (by decide) (by decide) n
  · intro l hl
    obtain ⟨n, -, rfl⟩ := List.mem_map.mp hl
    exact dot_notMem_toDecimal n

theorem octets_injective : Function.Injective octets := by
  intro a b h
  simp only [octets, List.cons.injEq, and_true] at h
  apply BitVec.eq_of_toNat_eq
  omega

/-- The text of an IPv4 address determines it. -/
theorem inetNtop4_injective : Function.Injective inetNtop4 := by
  intro a b h
  have hread : ∀ c : BitVec 32, (splitSep dot (inetNtop4 c)).map (ofNumeral 10) = octets c :=
    fun c => splitSep_dottedQuad (List.cons_ne_nil _ _)
  apply octets_injective
  rw [← hread a, ← hread b, h]

/-! ## IPv6 -/

/-- The eight 16-bit groups of an address. -/
def groups (a : BitVec 128) : List Nat :=
  (List.range 8).map fun i => a.toNat / 2 ^ (112 - 16 * i) % 2 ^ 16

/-- How many zero groups follow from position `b` on. -/
def zeroRun (gs : List Nat) (b : Nat) : Nat := ((gs.drop b).takeWhile (· == 0)).length

/-- The longer of the run found so far and the one at `b`, the earlier at a tie. -/
def longerRun (gs : List Nat) (best : Nat × Nat) (b : Nat) : Nat × Nat :=
  if best.2 < zeroRun gs b then (b, zeroRun gs b) else best

/-- Start and length of the first longest run of zero groups, if it has two. -/
def bestRun (gs : List Nat) : Option (Nat × Nat) :=
  let best := (List.range gs.length).foldl (longerRun gs) (0, 0)
  if best.2 < 2 then none else some best

/-- IPv4-compatible (`::a.b.c.d`) or IPv4-mapped (`::ffff:a.b.c.d`). -/
def embedsIPv4 (gs : List Nat) (b l : Nat) : Bool :=
  b == 0 && (l == 6 || (l == 5 && gs.getD 5 0 == 0xffff))

/-- The octets of two groups. -/
def groupOctets (hi lo : Nat) : List Nat := [hi / 256, hi % 256, lo / 256, lo % 256]

/-- The fields after the zero run. -/
def tailFields (gs : List Nat) (b l : Nat) : List Bytes :=
  if embedsIPv4 gs b l then
    ((gs.take 6).drop l).map (numeral 16) ++
      [dottedQuad (groupOctets (gs.getD 6 0) (gs.getD 7 0))]
  else (gs.drop (b + l)).map (numeral 16)

/-- The empty fields of a zero run: one, and one more at each end of the text
that the run touches. -/
def gapFields (b l : Nat) : List Bytes :=
  List.replicate ((if b = 0 then 1 else 0) + (if b + l = 8 then 1 else 0) + 1) []

/-- What stands between the colons. -/
def fields (gs : List Nat) : List Bytes :=
  match bestRun gs with
  | none => gs.map (numeral 16)
  | some (b, l) => (gs.take b).map (numeral 16) ++ gapFields b l ++ tailFields gs b l

/-- `inet_ntop(AF_INET6, …)`. -/
def inetNtop6 (a : BitVec 128) : Bytes := joinSep colon (fields (groups a))

/-- The groups a nonempty field stands for. -/
def readField (f : Bytes) : List Nat :=
  if dot ∈ f then
    match (splitSep dot f).map (ofNumeral 10) with
    | [o₀, o₁, o₂, o₃] => [o₀ * 256 + o₁, o₂ * 256 + o₃]
    | _ => []
  else [ofNumeral 16 f]

/-- The groups the fields stand for, the omitted zeros filled in. -/
def readGroups (fs : List Bytes) : List Nat :=
  let front := (fs.takeWhile (· ≠ [])).flatMap readField
  let back := (fs.rtakeWhile (· ≠ [])).flatMap readField
  if fs.all (· ≠ []) then front
  else front ++ List.replicate (8 - front.length - back.length) 0 ++ back

theorem foldl_longerRun (gs : List Nat) (is : List Nat) {best : Nat × Nat}
    (h : best = (0, 0) ∨ best.2 = zeroRun gs best.1) :
    is.foldl (longerRun gs) best = (0, 0) ∨
      (is.foldl (longerRun gs) best).2 = zeroRun gs (is.foldl (longerRun gs) best).1 := by
  induction is generalizing best with
  | nil => exact h
  | cons i is ih =>
    refine ih ?_
    unfold longerRun
    split
    · exact .inr rfl
    · exact h

theorem bestRun_spec {gs : List Nat} {b l : Nat} (h : bestRun gs = some (b, l)) :
    l = zeroRun gs b ∧ 2 ≤ l := by
  simp only [bestRun] at h
  split at h
  · cases h
  · next hlen =>
    have hinv := foldl_longerRun gs (List.range gs.length) (.inl (Eq.refl (0, 0)))
    rw [Option.some.injEq] at h
    rw [h] at hlen hinv
    refine ⟨?_, Nat.le_of_not_lt hlen⟩
    rcases hinv with h0 | hrun
    · rw [h0] at hlen
      exact absurd (show (0 : Nat) < 2 by decide) hlen
    · exact hrun

/-- A list is its part before a zero run, the zeros, and its part after it. -/
theorem split_zeroRun (gs : List Nat) (b : Nat) :
    gs = gs.take b ++ List.replicate (zeroRun gs b) 0 ++ gs.drop (b + zeroRun gs b) := by
  have htake : (gs.drop b).takeWhile (· == 0) = List.replicate (zeroRun gs b) 0 := by
    refine List.eq_replicate_iff.mpr ⟨rfl, fun g hg => ?_⟩
    simpa using List.mem_takeWhile_imp hg
  have hdrop : gs.drop (b + zeroRun gs b) = (gs.drop b).dropWhile (· == 0) := by
    rw [← List.drop_drop, zeroRun, List.dropWhile_eq_drop_findIdx_not]
    congr 1
    rw [List.takeWhile_eq_take_findIdx_not, List.length_take]
    exact Nat.min_eq_left (List.findIdx_le_length)
  rw [hdrop, ← htake, List.append_assoc, List.takeWhile_append_dropWhile,
    List.take_append_drop]

/-! ### The fields determine the groups -/

theorem dot_notMem_numeral (n : Nat) : dot ∉ numeral 16 n := by
  intro h
  obtain ⟨d, hd, heq⟩ := mem_numeral (by decide) h
  revert heq
  interval_cases d <;> decide

theorem readField_numeral (g : Nat) : readField (numeral 16 g) = [g] := by
  rw [readField, if_neg (dot_notMem_numeral g), ofNumeral_numeral (by decide) (by decide)]

theorem flatMap_readField_numeral (gs : List Nat) :
    (gs.map (numeral 16)).flatMap readField = gs := by
  induction gs with
  | nil => rfl
  | cons g gs ih => rw [List.map_cons, List.flatMap_cons, readField_numeral, ih]; rfl

theorem readField_dottedQuad (hi lo : Nat) :
    readField (dottedQuad (groupOctets hi lo)) = [hi, lo] := by
  have hdot : dot ∈ dottedQuad (groupOctets hi lo) := by
    simp [dottedQuad, groupOctets, joinSep]
  have hne : groupOctets hi lo ≠ [] := List.cons_ne_nil _ _
  rw [readField, if_pos hdot, splitSep_dottedQuad hne]
  simp only [groupOctets]
  rw [Nat.div_add_mod', Nat.div_add_mod']

/-- The fields after the zero run stand for the groups after it. -/
theorem flatMap_readField_tailFields {gs : List Nat} (hlen : gs.length = 8) (b l : Nat) :
    (tailFields gs b l).flatMap readField = gs.drop (b + l) := by
  unfold tailFields
  split
  · next hembed =>
    obtain ⟨g₀, g₁, g₂, g₃, g₄, g₅, g₆, g₇, rfl⟩ : ∃ g₀ g₁ g₂ g₃ g₄ g₅ g₆ g₇,
        gs = [g₀, g₁, g₂, g₃, g₄, g₅, g₆, g₇] := by
      match gs, hlen with
      | [g₀, g₁, g₂, g₃, g₄, g₅, g₆, g₇], _ => exact ⟨_, _, _, _, _, _, _, _, rfl⟩
    simp only [embedsIPv4, Bool.and_eq_true, Bool.or_eq_true, beq_iff_eq] at hembed
    obtain ⟨rfl, rfl | ⟨rfl, -⟩⟩ := hembed
    · simp [readField_dottedQuad]
    · simp [readField_dottedQuad, readField_numeral]
  · exact flatMap_readField_numeral _

theorem tailFields_ne_nil {gs : List Nat} {b l : Nat} : ∀ f ∈ tailFields gs b l, f ≠ [] := by
  intro f hf
  unfold tailFields at hf
  split at hf
  · rcases List.mem_append.mp hf with hf | hf
    · obtain ⟨g, -, rfl⟩ := List.mem_map.mp hf
      exact numeral_ne_nil 16 g
    · rw [List.mem_singleton.mp hf]
      simp [dottedQuad, groupOctets, joinSep]
  · obtain ⟨g, -, rfl⟩ := List.mem_map.mp hf
    exact numeral_ne_nil 16 g

theorem rtakeWhile_append_of_ne {fs t : List Bytes} (ht : ∀ f ∈ t, f ≠ []) :
    (fs ++ [] :: t).rtakeWhile (· ≠ []) = t := by
  unfold List.rtakeWhile
  rw [List.reverse_append, List.reverse_cons, List.append_assoc,
    List.takeWhile_append_of_pos (fun f hf => by simpa using ht f (List.mem_reverse.mp hf))]
  simp

theorem takeWhile_append_of_ne {fs t : List Bytes} (hfs : ∀ f ∈ fs, f ≠ []) :
    (fs ++ [] :: t).takeWhile (· ≠ []) = fs := by
  rw [List.takeWhile_append_of_pos (fun f hf => by simpa using hfs f hf)]
  simp

theorem zeroRun_le (gs : List Nat) (b : Nat) : zeroRun gs b ≤ gs.length - b := by
  rw [← List.length_drop]
  exact (List.takeWhile_prefix _).length_le

theorem map_numeral_ne_nil {gs : List Nat} : ∀ f ∈ gs.map (numeral 16), f ≠ [] := by
  intro f hf
  obtain ⟨g, -, rfl⟩ := List.mem_map.mp hf
  exact numeral_ne_nil 16 g

theorem fields_of_none {gs : List Nat} (hrun : bestRun gs = none) :
    fields gs = gs.map (numeral 16) := by
  rw [fields, hrun]

theorem fields_of_some {gs : List Nat} {b l : Nat} (hrun : bestRun gs = some (b, l)) :
    fields gs = (gs.take b).map (numeral 16) ++ gapFields b l ++ tailFields gs b l := by
  rw [fields, hrun]

/-- With a zero run the fields before the first and behind the last empty one are
those of the groups before and behind the run. -/
theorem around_gap {gs : List Nat} {b l : Nat} (hrun : bestRun gs = some (b, l)) :
    (fields gs).takeWhile (· ≠ []) = (gs.take b).map (numeral 16) ∧
      (fields gs).rtakeWhile (· ≠ []) = tailFields gs b l ∧
      (fields gs).all (· ≠ []) = false := by
  -- the same list, split at its first and at its last empty field
  obtain ⟨x, hx⟩ : ∃ x, fields gs = (gs.take b).map (numeral 16) ++ [] :: x :=
    ⟨_, by rw [fields_of_some hrun, gapFields, List.replicate_succ, List.append_assoc,
      List.cons_append]⟩
  obtain ⟨y, hy⟩ : ∃ y, fields gs = y ++ [] :: tailFields gs b l :=
    ⟨(gs.take b).map (numeral 16) ++
        List.replicate ((if b = 0 then 1 else 0) + (if b + l = 8 then 1 else 0)) [],
      by simp only [fields_of_some hrun, gapFields, List.replicate_succ', List.append_assoc,
        List.singleton_append]⟩
  refine ⟨?_, ?_, ?_⟩
  · rw [hx, takeWhile_append_of_ne map_numeral_ne_nil]
  · rw [hy, rtakeWhile_append_of_ne tailFields_ne_nil]
  · rw [hx]
    simp

/-- The groups of an address are recovered from the fields of its text. -/
theorem readGroups_fields {gs : List Nat} (hlen : gs.length = 8) :
    readGroups (fields gs) = gs := by
  cases hrun : bestRun gs with
  | none =>
    have hne : ∀ f ∈ gs.map (numeral 16), (decide (f ≠ [])) = true :=
      fun f hf => by simpa using map_numeral_ne_nil f hf
    rw [fields_of_none hrun]
    simp only [readGroups]
    rw [if_pos (List.all_eq_true.mpr hne), List.takeWhile_eq_self_iff.mpr hne,
      flatMap_readField_numeral]
  | some run =>
    obtain ⟨b, l⟩ := run
    obtain ⟨hl, hl2⟩ := bestRun_spec hrun
    obtain ⟨hfront, hback, hall⟩ := around_gap hrun
    have hbl := zeroRun_le gs b
    simp only [readGroups]
    rw [hfront, hback, hall, flatMap_readField_numeral, flatMap_readField_tailFields hlen,
      if_neg (by decide), List.length_take, List.length_drop]
    have hmid : 8 - min b gs.length - (gs.length - (b + l)) = zeroRun gs b := by omega
    rw [hmid, hl]
    exact (split_zeroRun gs b).symm

theorem groups_injective : Function.Injective groups := by
  intro a b h
  have hget : ∀ i < 8,
      a.toNat / 2 ^ (112 - 16 * i) % 2 ^ 16 = b.toNat / 2 ^ (112 - 16 * i) % 2 ^ 16 := by
    intro i hi
    have hi' := congrArg (fun gs => gs[i]?) h
    simpa [groups, hi] using hi'
  apply BitVec.eq_of_toNat_eq
  have ha := a.isLt
  have hb := b.isLt
  have h0 := hget 0 (by decide)
  have h1 := hget 1 (by decide)
  have h2 := hget 2 (by decide)
  have h3 := hget 3 (by decide)
  have h4 := hget 4 (by decide)
  have h5 := hget 5 (by decide)
  have h6 := hget 6 (by decide)
  have h7 := hget 7 (by decide)
  norm_num at h0 h1 h2 h3 h4 h5 h6 h7 ha hb
  omega

/-! ## The characters of a text -/

/-- The characters of a field. -/
def fieldChars : Bytes := bytes "0123456789abcdef."

/-- The characters of an address. -/
def textChars : Bytes := bytes "0123456789abcdef.:"

theorem mem_fieldChars_of_numeral {b n : Nat} (hb : 1 < b) (hb' : b ≤ 16) {c : UInt8}
    (hc : c ∈ numeral b n) : c ∈ fieldChars := by
  obtain ⟨d, hd, rfl⟩ := mem_numeral hb hc
  have hd' : d < 16 := by omega
  interval_cases d <;> decide

theorem mem_fieldChars_of_map_numeral {gs : List Nat} {f : Bytes}
    (hf : f ∈ gs.map (numeral 16)) {c : UInt8} (hc : c ∈ f) : c ∈ fieldChars := by
  obtain ⟨g, -, rfl⟩ := List.mem_map.mp hf
  exact mem_fieldChars_of_numeral (by decide) (by decide) hc

theorem mem_fieldChars_of_dottedQuad {os : List Nat} {c : UInt8} (hc : c ∈ dottedQuad os) :
    c ∈ fieldChars := by
  rcases mem_joinSep hc with rfl | ⟨f, hf, hc⟩
  · decide
  · obtain ⟨o, -, rfl⟩ := List.mem_map.mp hf
    exact mem_fieldChars_of_numeral (by decide) (by decide) hc

theorem mem_fieldChars_of_fields {gs : List Nat} {f : Bytes} (hf : f ∈ fields gs) {c : UInt8}
    (hc : c ∈ f) : c ∈ fieldChars := by
  unfold fields at hf
  split at hf
  · exact mem_fieldChars_of_map_numeral hf hc
  · rcases List.mem_append.mp hf with hf | hf
    · rcases List.mem_append.mp hf with hf | hf
      · exact mem_fieldChars_of_map_numeral hf hc
      · rw [List.eq_of_mem_replicate hf] at hc
        exact absurd hc List.not_mem_nil
    · unfold tailFields at hf
      split at hf
      · rcases List.mem_append.mp hf with hf | hf
        · exact mem_fieldChars_of_map_numeral hf hc
        · rw [List.mem_singleton.mp hf] at hc
          exact mem_fieldChars_of_dottedQuad hc
      · exact mem_fieldChars_of_map_numeral hf hc

theorem mem_textChars_of_fieldChars : ∀ c ∈ fieldChars, c ∈ textChars := by decide

theorem mem_textChars_of_inetNtop4 {a : BitVec 32} {c : UInt8} (hc : c ∈ inetNtop4 a) :
    c ∈ textChars :=
  mem_textChars_of_fieldChars c (mem_fieldChars_of_dottedQuad hc)

theorem mem_textChars_of_inetNtop6 {a : BitVec 128} {c : UInt8} (hc : c ∈ inetNtop6 a) :
    c ∈ textChars := by
  rcases mem_joinSep hc with rfl | ⟨f, hf, hc⟩
  · decide
  · exact mem_textChars_of_fieldChars c (mem_fieldChars_of_fields hf hc)

theorem colon_notMem_fields {gs : List Nat} : ∀ f ∈ fields gs, colon ∉ f :=
  fun _ hf hc => absurd (mem_fieldChars_of_fields hf hc) (by decide)

theorem fields_ne_nil {gs : List Nat} (hlen : gs.length = 8) : fields gs ≠ [] := by
  unfold fields
  split
  · intro h
    rw [List.map_eq_nil_iff.mp h] at hlen
    cases hlen
  · simp [gapFields]

/-- The text of an IPv6 address determines it. -/
theorem inetNtop6_injective : Function.Injective inetNtop6 := by
  intro a b h
  have hread : ∀ c : BitVec 128, readGroups (splitSep colon (inetNtop6 c)) = groups c := by
    intro c
    have hlen : (groups c).length = 8 := by simp [groups]
    rw [inetNtop6, splitSep_joinSep (fields_ne_nil hlen) colon_notMem_fields,
      readGroups_fields hlen]
  apply groups_injective
  rw [← hread a, ← hread b, h]

end Inet
