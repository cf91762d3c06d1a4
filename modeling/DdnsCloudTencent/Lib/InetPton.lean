import DdnsCloudTencent.Lib.Inet

/-!
# Reading addresses back

`inet_pton` on the texts of `inet_ntop`, and on every other spelling.

- IPv4 has one spelling for each address (`inetPton4_eq_some_iff`): the scanner
  accepts no leading zeros. `Pton4.Valid` is the invariant of its loop.
- IPv6 has many: `inetPton6` accepts upper- and lower-case digits, leading zeros
  and any legal place of `::`. `inetPton6_inetNtop6`: the canonical one is among
  them.
- `mem_of_inetPton6`: an accepted text has address characters only.
-/

namespace Inet

open Cxx

/-! ## Digit characters -/

/-- A digit character and its value. -/
theorem eq_digitChar {c : UInt8} (h : isDigit c = true) :
    c.toNat - 48 < 10 ∧ c = digitChar (c.toNat - 48) := by
  simp only [isDigit, Bool.and_eq_true, decide_eq_true_eq, UInt8.le_iff_toNat_le] at h
  have h48 : (48 : UInt8).toNat = 48 := rfl
  have h57 : (57 : UInt8).toNat = 57 := rfl
  have hlt : c.toNat - 48 < 10 := by omega
  refine ⟨hlt, UInt8.toNat_inj.mp ?_⟩
  unfold digitChar
  rw [if_pos hlt, UInt8.toNat_ofNat']
  omega

theorem isDigit_digitChar {d : Nat} (hd : d < 10) :
    isDigit (digitChar d) = true ∧ (digitChar d).toNat - 48 = d := by
  interval_cases d <;> decide

/-! ## The IPv4 scanner -/

namespace Pton4

theorem step_digit_none {done : List Nat} (h : done.length < 4) {d : Nat} (hd : d < 10) :
    pton4Step ⟨done, none⟩ (digitChar d) = some ⟨done, some d⟩ := by
  obtain ⟨hdigit, hvalue⟩ := isDigit_digitChar hd
  simp [pton4Step, hdigit, hvalue, h]

theorem step_digit_some (done : List Nat) {n d : Nat} (hn : n ≠ 0) (hd : d < 10)
    (hle : n * 10 + d ≤ 255) :
    pton4Step ⟨done, some n⟩ (digitChar d) = some ⟨done, some (n * 10 + d)⟩ := by
  obtain ⟨hdigit, hvalue⟩ := isDigit_digitChar hd
  have hsmall : ¬ (n = 0 ∨ 255 < n * 10 + d) := by omega
  simp only [pton4Step, hdigit, hvalue, if_true, if_neg hsmall]

theorem step_dot {done : List Nat} (h : done.length < 3) (n : Nat) :
    pton4Step ⟨done, some n⟩ dot = some ⟨done ++ [n], none⟩ := by
  simp [pton4Step, show isDigit dot = false from rfl, h]

/-- The scanner reads an octet. -/
theorem foldlM_toDecimal {done : List Nat} (h : done.length < 4) {n : Nat} (hn : n < 256) :
    (toDecimal n).foldlM pton4Step ⟨done, none⟩ = some ⟨done, some n⟩ := by
  -- one digit, and one more at a time
  have h1 : ∀ m < 10, (toDecimal m).foldlM pton4Step ⟨done, none⟩ = some ⟨done, some m⟩ := by
    intro m hm
    rw [toDecimal_digit hm, List.foldlM_cons, step_digit_none h hm]
    rfl
  have hsnoc : ∀ m, (m / 10 ≠ 0) → m < 256 →
      (toDecimal (m / 10)).foldlM pton4Step ⟨done, none⟩ = some ⟨done, some (m / 10)⟩ →
      (toDecimal m).foldlM pton4Step ⟨done, none⟩ = some ⟨done, some m⟩ := by
    intro m hm hm' hprev
    have hmod : m % 10 < 10 := Nat.mod_lt m (by decide)
    have hsplit : m = m / 10 * 10 + m % 10 := by omega
    rw [hsplit, toDecimal_snoc hm hmod, List.foldlM_append, hprev]
    show (List.foldlM pton4Step _ [digitChar (m % 10)]) = _
    rw [List.foldlM_cons, step_digit_some done hm hmod (by omega)]
    rfl
  by_cases hn1 : n < 10
  · exact h1 n hn1
  · by_cases hn2 : n < 100
    · exact hsnoc n (by omega) hn (h1 (n / 10) (by omega))
    · exact hsnoc n (by omega) hn
        (hsnoc (n / 10) (by omega) (by omega) (h1 (n / 10 / 10) (by omega)))

/-- The text that a state of the scanner has read. -/
def text (s : Pton4) : Bytes :=
  s.done.flatMap (fun n => toDecimal n ++ [dot]) ++ s.cur.elim [] toDecimal

/-- Octets only, and at most three of them closed. -/
structure Valid (s : Pton4) : Prop where
  done : ∀ n ∈ s.done, n < 256
  cur : ∀ n ∈ s.cur, n < 256
  length : s.done.length ≤ 3

/-- One character: it is what the new state has read more. -/
theorem Valid.step {s s' : Pton4} {c : UInt8} (h : s.Valid) (hstep : pton4Step s c = some s') :
    s'.Valid ∧ s'.text = s.text ++ [c] := by
  obtain ⟨done, cur⟩ := s
  have hdone : ∀ n ∈ done, n < 256 := h.done
  have hlength : done.length ≤ 3 := h.length
  -- a digit starts an octet or goes on with one
  by_cases hdigit : isDigit c = true
  · obtain ⟨hd, hc⟩ := eq_digitChar hdigit
    cases cur with
    | none =>
      simp only [pton4Step, hdigit, if_true, if_pos (Nat.lt_succ_of_le hlength)] at hstep
      cases hstep
      refine ⟨⟨hdone, fun n hn => ?_, hlength⟩, ?_⟩
      · cases hn
        omega
      · simp only [text, Option.elim_none, Option.elim_some, List.append_nil, toDecimal_digit hd,
          ← hc]
    | some n =>
      by_cases hbad : n = 0 ∨ 255 < n * 10 + (c.toNat - 48)
      · simp only [pton4Step, hdigit, if_true, if_pos hbad] at hstep
        cases hstep
      · simp only [pton4Step, hdigit, if_true, if_neg hbad] at hstep
        cases hstep
        rw [not_or] at hbad
        refine ⟨⟨hdone, fun n hn => ?_, hlength⟩, ?_⟩
        · cases hn
          omega
        · simp only [text, Option.elim_some, toDecimal_snoc hbad.1 hd, ← hc, List.append_assoc]
  -- a dot ends an octet, and anything else the text
  · by_cases hdot : c = dot
    · subst hdot
      cases cur with
      | none => cases hstep
      | some n =>
        by_cases hlen : done.length < 3
        · rw [step_dot hlen] at hstep
          cases hstep
          have hn : n < 256 := h.cur n rfl
          refine ⟨⟨List.forall_mem_append.mpr ⟨hdone, List.forall_mem_singleton.mpr hn⟩,
            fun m hm => absurd hm (Option.not_mem_none m), ?_⟩, ?_⟩
          · rw [List.length_append]
            exact hlen
          · simp [text]
        · simp only [pton4Step, if_neg hdigit, if_true, if_neg hlen] at hstep
          cases hstep
    · simp only [pton4Step, if_neg hdigit, if_neg hdot] at hstep
      cases hstep

/-- The whole text, by induction from its end. -/
theorem valid_of_foldlM {t : Bytes} {s : Pton4}
    (h : t.foldlM pton4Step ⟨[], none⟩ = some s) : s.Valid ∧ s.text = t := by
  induction t using List.reverseRecOn generalizing s with
  | nil =>
    cases h
    exact ⟨⟨fun n hn => absurd hn List.not_mem_nil, fun n hn => absurd hn (Option.not_mem_none n),
      Nat.zero_le 3⟩, rfl⟩
  | append_singleton t c ih =>
    rw [List.foldlM_append] at h
    obtain ⟨s₁, hs₁, hstep⟩ := Option.bind_eq_some_iff.mp h
    obtain ⟨hvalid, htext⟩ := ih hs₁
    rw [List.foldlM_cons] at hstep
    obtain ⟨s₂, hs₂, hlast⟩ := Option.bind_eq_some_iff.mp hstep
    cases hlast
    obtain ⟨hvalid', htext'⟩ := hvalid.step hs₂
    exact ⟨hvalid', by rw [htext', htext]⟩

end Pton4

/-! ## IPv4 -/

/-- The address of four octets. -/
theorem octets_ofNat {a b c d : Nat} (ha : a < 256) (hb : b < 256) (hc : c < 256) (hd : d < 256) :
    octets (BitVec.ofNat 32 (((a * 256 + b) * 256 + c) * 256 + d)) = [a, b, c, d] := by
  unfold octets
  rw [BitVec.toNat_ofNat]
  have hmod : (((a * 256 + b) * 256 + c) * 256 + d) % 2 ^ 32 =
      ((a * 256 + b) * 256 + c) * 256 + d := Nat.mod_eq_of_lt (by omega)
  rw [hmod]
  simp only [List.cons.injEq, and_true]
  omega

/-- `inet_pton` reads the text of `inet_ntop`. -/
theorem inetPton4_inetNtop4 (a : BitVec 32) : inetPton4 (inetNtop4 a) = some a := by
  have hlt := a.isLt
  obtain ⟨w, x, y, z, hw, hx, hy, hz, ha, hnat⟩ : ∃ w x y z : Nat, w < 256 ∧ x < 256 ∧ y < 256 ∧
      z < 256 ∧ octets a = [w, x, y, z] ∧ ((w * 256 + x) * 256 + y) * 256 + z = a.toNat :=
    ⟨_, _, _, _, by omega, by omega, by omega, by omega, rfl, by omega⟩
  have htext : inetNtop4 a =
      toDecimal w ++ (dot :: (toDecimal x ++ (dot :: (toDecimal y ++ (dot :: toDecimal z))))) := by
    rw [inetNtop4, ha]
    rfl
  -- octet by octet, each with its dot
  have hfold : (inetNtop4 a).foldlM pton4Step ⟨[], none⟩ = some ⟨[w, x, y], some z⟩ := by
    simp only [htext, List.foldlM_append, List.foldlM_cons, Option.bind_eq_bind, Option.bind_some,
      Pton4.foldlM_toDecimal (show ([] : List Nat).length < 4 by decide) hw,
      Pton4.step_dot (show ([] : List Nat).length < 3 by decide), List.nil_append,
      Pton4.foldlM_toDecimal (show [w].length < 4 by simp) hx,
      Pton4.step_dot (show [w].length < 3 by simp), List.cons_append,
      Pton4.foldlM_toDecimal (show [w, x].length < 4 by simp) hy,
      Pton4.step_dot (show [w, x].length < 3 by simp),
      Pton4.foldlM_toDecimal (show [w, x, y].length < 4 by simp) hz]
  rw [inetPton4, hfold]
  show some (BitVec.ofNat 32 (((w * 256 + x) * 256 + y) * 256 + z)) = some a
  rw [hnat, BitVec.ofNat_toNat, BitVec.setWidth_eq]

/-- The one text that `inet_pton` reads as an address is that of `inet_ntop`. -/
theorem inetPton4_eq_some_iff {t : Bytes} {a : BitVec 32} :
    inetPton4 t = some a ↔ t = inetNtop4 a := by
  constructor
  · intro h
    unfold inetPton4 at h
    split at h
    · next w x y z hfold =>
      cases h
      obtain ⟨hvalid, htext⟩ := Pton4.valid_of_foldlM hfold
      have hz : z < 256 := hvalid.cur z rfl
      have hdone := hvalid.done
      simp only [List.forall_mem_cons] at hdone
      rw [inetNtop4, octets_ofNat hdone.1 hdone.2.1 hdone.2.2.1 hz, ← htext]
      simp [Pton4.text, dottedQuad, joinSep]
    · cases h
  · rintro rfl
    exact inetPton4_inetNtop4 a

/-! ## IPv6 -/

/-- A hexadecimal digit in lower case. -/
def lowerHex (c : UInt8) : UInt8 := if 65 ≤ c ∧ c ≤ 70 then c + 32 else c

/-- One to four hexadecimal digits. -/
def hexField (f : Bytes) : Bool := f ≠ [] && f.length ≤ 4 && f.all isHexDigit

/-- A field as a text may have it: the last one may be a dotted quad. -/
def legalField (last : Bool) (f : Bytes) : Bool :=
  f = [] || hexField f || (last && (inetPton4 f).isSome)

/-- The groups that a field stands for. -/
def fieldWidth (f : Bytes) : Nat := if dot ∈ f then 2 else 1

/-- The fields between the colons of an address: eight groups, or fewer with the
empty fields of one `::` among them. -/
def legalFields (fs : List Bytes) : Bool :=
  let front := fs.takeWhile (· ≠ [])
  let back := fs.rtakeWhile (· ≠ [])
  let gap := (if front = [] then 1 else 0) + (if back = [] then 1 else 0) + 1
  fs.dropLast.all (legalField false) && (fs.getLast?.toList).all (legalField true) &&
    if fs.all (· ≠ []) then (fs.map fieldWidth).sum = 8
    else fs = front ++ List.replicate gap [] ++ back &&
      (front.map fieldWidth).sum + (back.map fieldWidth).sum < 8

/-- The address of eight groups. -/
def ofGroups (gs : List Nat) : BitVec 128 :=
  BitVec.ofNat 128 (gs.foldl (fun n g => n * 2 ^ 16 + g) 0)

/-- `inet_pton(AF_INET6, …)`. -/
def inetPton6 (t : Bytes) : Option (BitVec 128) :=
  let fs := splitSep colon (t.map lowerHex)
  if legalFields fs then some (ofGroups (readGroups fs)) else none

theorem ofGroups_groups (a : BitVec 128) : ofGroups (groups a) = a := by
  have hlt := a.isLt
  have hfold : (groups a).foldl (fun n g => n * 2 ^ 16 + g) 0 = a.toNat := by
    simp only [groups, List.range_succ, List.range_zero, List.nil_append, List.cons_append,
      List.map_cons, List.map_nil, List.foldl_cons, List.foldl_nil]
    norm_num at hlt ⊢
    omega
  rw [ofGroups, hfold, BitVec.ofNat_toNat, BitVec.setWidth_eq]

/-! ### The fields of a canonical text -/

theorem isHexDigit_digitChar {d : Nat} (hd : d < 16) : isHexDigit (digitChar d) = true := by
  interval_cases d <;> decide

theorem length_numeral_le {g : Nat} (hg : g < 2 ^ 16) : (numeral 16 g).length ≤ 4 := by
  unfold numeral
  split
  · decide
  · rw [List.length_map, List.length_reverse, Nat.digits_length_le_iff (by decide)]
    exact hg

theorem hexField_numeral {g : Nat} (hg : g < 2 ^ 16) : hexField (numeral 16 g) = true := by
  have hne := numeral_ne_nil 16 g
  have hdigits : ∀ c ∈ numeral 16 g, isHexDigit c = true := by
    intro c hc
    obtain ⟨d, hd, rfl⟩ := mem_numeral (by decide) hc
    exact isHexDigit_digitChar hd
  simp only [hexField, Bool.and_eq_true, decide_eq_true_eq, List.all_eq_true]
  exact ⟨⟨hne, length_numeral_le hg⟩, hdigits⟩

theorem legalField_of_map_numeral {gs : List Nat} (hgs : ∀ g ∈ gs, g < 2 ^ 16) (last : Bool) :
    ∀ f ∈ gs.map (numeral 16), legalField last f = true := by
  intro f hf
  obtain ⟨g, hg, rfl⟩ := List.mem_map.mp hf
  simp [legalField, hexField_numeral (hgs g hg)]

theorem sum_fieldWidth_map_numeral (gs : List Nat) :
    ((gs.map (numeral 16)).map fieldWidth).sum = gs.length := by
  induction gs with
  | nil => rfl
  | cons g gs ih =>
    simp only [List.map_cons, List.sum_cons, ih, List.length_cons, fieldWidth,
      if_neg (dot_notMem_numeral g)]
    omega

/-- A dotted quad of octets is an address. -/
theorem isSome_inetPton4_dottedQuad {hi lo : Nat} (hhi : hi < 2 ^ 16) (hlo : lo < 2 ^ 16) :
    (inetPton4 (dottedQuad (groupOctets hi lo))).isSome := by
  have htext : dottedQuad (groupOctets hi lo) = inetNtop4 (BitVec.ofNat 32
      (((hi / 256 * 256 + hi % 256) * 256 + lo / 256) * 256 + lo % 256)) := by
    rw [inetNtop4, octets_ofNat (by omega) (by omega) (by omega) (by omega)]
    rfl
  rw [htext, inetPton4_inetNtop4]
  rfl

/-- All eight groups written out. -/
theorem legalFields_of_full {fs : List Bytes} (hinit : ∀ f ∈ fs.dropLast, legalField false f = true)
    (hlast : ∀ f ∈ fs.getLast?, legalField true f = true) (hall : fs.all (· ≠ []) = true)
    (hwidth : (fs.map fieldWidth).sum = 8) : legalFields fs = true := by
  unfold legalFields
  dsimp only
  rw [if_pos hall, List.all_eq_true.mpr hinit,
    List.all_eq_true.mpr fun f hf => hlast f (Option.mem_toList.mp hf), hwidth]
  rfl

/-- Fewer groups, with one gap. -/
theorem legalFields_of_gap {fs front back : List Bytes}
    (hinit : ∀ f ∈ fs.dropLast, legalField false f = true)
    (hlast : ∀ f ∈ fs.getLast?, legalField true f = true)
    (hfront : fs.takeWhile (· ≠ []) = front) (hback : fs.rtakeWhile (· ≠ []) = back)
    (hall : fs.all (· ≠ []) = false)
    (hfs : fs = front ++ List.replicate
      ((if front = [] then 1 else 0) + (if back = [] then 1 else 0) + 1) [] ++ back)
    (hwidth : (front.map fieldWidth).sum + (back.map fieldWidth).sum < 8) :
    legalFields fs = true := by
  subst hfront hback
  unfold legalFields
  dsimp only
  rw [if_neg (by rw [hall]; exact Bool.false_ne_true), List.all_eq_true.mpr hinit,
    List.all_eq_true.mpr fun f hf => hlast f (Option.mem_toList.mp hf),
    decide_eq_true hwidth, decide_eq_true hfs]
  rfl

section Canonical

variable {gs : List Nat} (hlen : gs.length = 8) (hgs : ∀ g ∈ gs, g < 2 ^ 16)

include hlen hgs

/-- The fields behind the zero run: hexadecimal, and the last one may be a quad. -/
theorem legalField_tailFields {b l : Nat} (hl : 2 ≤ l) :
    (∀ f ∈ tailFields gs b l, legalField true f = true) ∧
      (∀ f ∈ (tailFields gs b l).dropLast, legalField false f = true) ∧
      ((tailFields gs b l).map fieldWidth).sum = 8 - (b + l) ∧
      (tailFields gs b l = [] ↔ 8 ≤ b + l) := by
  have hsub : ∀ n m : Nat, ∀ g ∈ (gs.take n).drop m, g < 2 ^ 16 :=
    fun n m g hg => hgs g (List.mem_of_mem_take (List.mem_of_mem_drop hg))
  have hdrop : ∀ n : Nat, ∀ g ∈ gs.drop n, g < 2 ^ 16 :=
    fun n g hg => hgs g (List.mem_of_mem_drop hg)
  have hget : ∀ i < 8, gs.getD i 0 < 2 ^ 16 := by
    intro i hi
    have hi' : i < gs.length := by omega
    rw [List.getD_eq_getElem?_getD, List.getElem?_eq_getElem hi', Option.getD_some]
    exact hgs _ (List.getElem_mem hi')
  unfold tailFields
  split
  · next hembed =>
    simp only [embedsIPv4, Bool.and_eq_true, Bool.or_eq_true, beq_iff_eq] at hembed
    have hquad := isSome_inetPton4_dottedQuad (hget 6 (by decide)) (hget 7 (by decide))
    have hwidth : fieldWidth (dottedQuad (groupOctets (gs.getD 6 0) (gs.getD 7 0))) = 2 := by
      have hdot : dot ∈ dottedQuad (groupOctets (gs.getD 6 0) (gs.getD 7 0)) := by
        simp [dottedQuad, groupOctets, joinSep]
      exact if_pos hdot
    -- the last field is a dotted quad and counts twice
    refine ⟨?_, ?_, ?_, ?_⟩
    · refine List.forall_mem_append.mpr ⟨legalField_of_map_numeral (hsub 6 l) true, ?_⟩
      refine List.forall_mem_singleton.mpr ?_
      rw [legalField, hquad]
      simp only [Bool.and_self, Bool.or_true]
    · rw [List.dropLast_concat]
      exact legalField_of_map_numeral (hsub 6 l) false
    · rw [List.map_append, List.sum_append, sum_fieldWidth_map_numeral, List.length_drop,
        List.length_take, List.map_cons, List.map_nil, List.sum_singleton, hwidth]
      omega
    · refine iff_of_false (by simp) ?_
      omega
  · refine ⟨legalField_of_map_numeral (hdrop _) true, fun f hf => ?_, ?_, ?_⟩
    · exact legalField_of_map_numeral (hdrop _) false f (List.mem_of_mem_dropLast hf)
    · rw [sum_fieldWidth_map_numeral, List.length_drop, hlen]
    · rw [List.map_eq_nil_iff, List.drop_eq_nil_iff, hlen]

/-- The fields of a canonical text are legal. -/
theorem legalFields_fields : legalFields (fields gs) = true := by
  cases hrun : bestRun gs with
  | none =>
    have hall : (gs.map (numeral 16)).all (· ≠ []) = true :=
      List.all_eq_true.mpr fun f hf => by simpa using map_numeral_ne_nil f hf
    rw [fields_of_none hrun]
    refine legalFields_of_full (fun f hf => ?_) (fun f hf => ?_) hall ?_
    · exact legalField_of_map_numeral hgs false f (List.mem_of_mem_dropLast hf)
    · exact legalField_of_map_numeral hgs true f (List.mem_of_getLast? hf)
    · rw [sum_fieldWidth_map_numeral, hlen]
  | some run =>
    obtain ⟨b, l⟩ := run
    obtain ⟨hl, hl2⟩ := bestRun_spec hrun
    obtain ⟨hfront, hback, hall⟩ := around_gap hrun
    have hbl := zeroRun_le gs b
    obtain ⟨htrue, hfalse, hwidth, hnil⟩ := legalField_tailFields hlen hgs (b := b) hl2
    have htake : ∀ g ∈ gs.take b, g < 2 ^ 16 := fun g hg => hgs g (List.mem_of_mem_take hg)
    have hfields := fields_of_some hrun
    have hempty : ∀ f ∈ gapFields b l, f = [] := fun f hf => List.eq_of_mem_replicate hf
    -- the fields before the tail are groups, or the empty ones of the gap
    have hlegal : ∀ last : Bool, ∀ f ∈ (gs.take b).map (numeral 16) ++ gapFields b l,
        legalField last f = true := by
      intro last f hf
      rcases List.mem_append.mp hf with hf | hf
      · exact legalField_of_map_numeral htake last f hf
      · simp [legalField, hempty f hf]
    have hfrontNil : (gs.take b).map (numeral 16) = [] ↔ b = 0 := by
      rw [List.map_eq_nil_iff, List.take_eq_nil_iff]
      refine or_iff_left ?_
      rintro rfl
      cases hlen
    have hbackNil : tailFields gs b l = [] ↔ b + l = 8 := hnil.trans ⟨fun h => by omega,
      fun h => by omega⟩
    refine legalFields_of_gap (fun f hf => ?_) (fun f hf => ?_) hfront hback hall ?_ ?_
    · -- all but the last field: the tail's, or all before the tail
      by_cases htail : tailFields gs b l = []
      · rw [hfields, htail, List.append_nil] at hf
        exact hlegal false f (List.mem_of_mem_dropLast hf)
      · rw [hfields, List.dropLast_append_of_ne_nil htail] at hf
        rcases List.mem_append.mp hf with hf | hf
        · exact hlegal false f hf
        · exact hfalse f hf
    · have hmem := List.mem_of_getLast? hf
      rw [hfields] at hmem
      rcases List.mem_append.mp hmem with hmem | hmem
      · exact hlegal true f hmem
      · exact htrue f hmem
    · simp only [hfrontNil, hbackNil]
      exact hfields
    · rw [sum_fieldWidth_map_numeral, hwidth, List.length_take]
      omega

end Canonical

theorem length_groups (a : BitVec 128) : (groups a).length = 8 := by simp [groups]

theorem groups_lt (a : BitVec 128) : ∀ g ∈ groups a, g < 2 ^ 16 := by
  intro g hg
  obtain ⟨i, -, rfl⟩ := List.mem_map.mp hg
  exact Nat.mod_lt _ (by decide)

/-! ### The start of a canonical text -/

theorem numeral_ne_separator {b n : Nat} (hb : 1 < b) (hb' : b ≤ 16) :
    ∀ c ∈ numeral b n, c ≠ dot ∧ c ≠ colon := by
  intro c hc
  obtain ⟨d, hd, rfl⟩ := mem_numeral hb hc
  have hd' : d < 16 := by omega
  interval_cases d <;> decide

theorem lt_of_length_numeral_le {n k : Nat} (h : (numeral 16 n).length ≤ k) :
    n < 16 ^ k := by
  by_cases hn : n = 0
  · rw [hn]
    exact Nat.pow_pos (by decide)
  · rw [numeral, if_neg hn, List.length_map, List.length_reverse,
      Nat.digits_length_le_iff (by decide)] at h
    exact h

/-- The first field of a text: the numeral of the first group, or empty where the
zero run starts. -/
theorem fields_eq_cons {gs : List Nat} (hlen : gs.length = 8) :
    ∃ first rest, fields gs = first :: rest ∧ rest ≠ [] ∧
      (first = numeral 16 (gs.getD 0 0) ∨ first = [] ∧ gs.getD 0 0 = 0) := by
  obtain ⟨g, gs', rfl⟩ : ∃ g gs', gs = g :: gs' :=
    List.exists_cons_of_ne_nil (by rintro rfl; cases hlen)
  have hgs' : gs' ≠ [] := by
    rintro rfl
    cases hlen
  cases hrun : bestRun (g :: gs') with
  | none =>
    rw [fields_of_none hrun]
    exact ⟨numeral 16 g, gs'.map (numeral 16), rfl, by simpa using hgs', .inl rfl⟩
  | some run =>
    obtain ⟨b, l⟩ := run
    obtain ⟨hl, hl2⟩ := bestRun_spec hrun
    rw [fields_of_some hrun]
    cases b with
    | zero =>
      -- the run starts the address: two empty fields at least
      have hg : g = 0 := by
        by_contra hg
        have hzero : zeroRun (g :: gs') 0 = 0 := by simp [zeroRun, hg]
        omega
      refine ⟨[], _, rfl, ?_, .inr ⟨rfl, hg⟩⟩
      simp
    | succ b =>
      refine ⟨numeral 16 g, _, rfl, ?_, .inl rfl⟩
      simp [gapFields]

/-- A text starts with the first group up to its first colon. -/
theorem inetNtop6_eq (a : BitVec 128) : ∃ first rest, inetNtop6 a = first ++ colon :: rest ∧
    (first = numeral 16 (a.toNat / 2 ^ 112) ∨ first = [] ∧ a.toNat / 2 ^ 112 = 0) := by
  have hlt := a.isLt
  have hgroup : (groups a).getD 0 0 = a.toNat / 2 ^ 112 := by
    have hhead : (groups a).getD 0 0 = a.toNat / 2 ^ 112 % 2 ^ 16 := rfl
    omega
  obtain ⟨first, rest, hfields, hne, hfirst⟩ := fields_eq_cons (length_groups a)
  rw [hgroup] at hfirst
  obtain ⟨f, fs, rfl⟩ := List.exists_cons_of_ne_nil hne
  refine ⟨first, joinSep colon (f :: fs), ?_, hfirst⟩
  rw [inetNtop6, hfields]
  rfl

/-! ### Reading a canonical text -/

theorem lowerHex_of_textChars : ∀ c ∈ textChars, lowerHex c = c := by decide

/-- **`inet_pton` reads the text of `inet_ntop`.** -/
theorem inetPton6_inetNtop6 (a : BitVec 128) : inetPton6 (inetNtop6 a) = some a := by
  have hlower : (inetNtop6 a).map lowerHex = inetNtop6 a := by
    refine (List.map_congr_left fun c hc => ?_).trans (List.map_id _)
    exact lowerHex_of_textChars c (mem_textChars_of_inetNtop6 hc)
  have hsplit : splitSep colon (inetNtop6 a) = fields (groups a) :=
    splitSep_joinSep (fields_ne_nil (length_groups a)) colon_notMem_fields
  simp only [inetPton6, hlower, hsplit, legalFields_fields (length_groups a) (groups_lt a),
    if_true, readGroups_fields (length_groups a), ofGroups_groups]

theorem mem_legalField {last : Bool} {f : Bytes} (h : legalField last f = true) {c : UInt8}
    (hc : c ∈ f) : isHexDigit c = true ∨ c = dot := by
  simp only [legalField, Bool.or_eq_true, decide_eq_true_eq, Bool.and_eq_true] at h
  rcases h with (rfl | hhex) | ⟨-, hquad⟩
  · cases hc
  · simp only [hexField, Bool.and_eq_true, List.all_eq_true] at hhex
    exact .inl (hhex.2 c hc)
  · obtain ⟨a, ha⟩ := Option.isSome_iff_exists.mp hquad
    rw [inetPton4_eq_some_iff] at ha
    rw [ha] at hc
    rcases mem_joinSep hc with rfl | ⟨o, ho, hc⟩
    · exact .inr rfl
    · obtain ⟨n, -, rfl⟩ := List.mem_map.mp ho
      obtain ⟨d, hd, rfl⟩ := mem_numeral (by decide) hc
      exact .inl (isHexDigit_digitChar (by omega))

/-- An accepted text has the characters of an address only. -/
theorem mem_of_inetPton6 {t : Bytes} {b : BitVec 128} (h : inetPton6 t = some b) {c : UInt8}
    (hc : c ∈ t) : isHexDigit (lowerHex c) = true ∨ lowerHex c = dot ∨ lowerHex c = colon := by
  have hlegal : legalFields (splitSep colon (t.map lowerHex)) = true := by
    by_contra hno
    simp [inetPton6, hno] at h
  simp only [legalFields, Bool.and_eq_true, List.all_eq_true] at hlegal
  obtain ⟨⟨hinit, hlast⟩, -⟩ := hlegal
  rcases mem_splitSep (c := colon) (List.mem_map_of_mem hc) with hcolon | ⟨f, hf, hmem⟩
  · exact .inr (.inr hcolon)
  · have hfield : isHexDigit (lowerHex c) = true ∨ lowerHex c = dot := by
      have hne : splitSep colon (t.map lowerHex) ≠ [] := List.ne_nil_of_mem hf
      rw [← List.dropLast_append_getLast hne] at hf
      rcases List.mem_append.mp hf with hf | hf
      · exact mem_legalField (hinit f hf) hmem
      · rw [List.mem_singleton] at hf
        refine mem_legalField (hlast f ?_) hmem
        rw [Option.mem_toList, List.getLast?_eq_getLast_of_ne_nil hne, hf]
    rcases hfield with hhex | hdot
    · exact .inl hhex
    · exact .inr (.inl hdot)

/-- Upper case, leading zeros and a gap in another place. -/
example : inetPton6 (bytes "2001:0DB8:0::1") = inetPton6 (bytes "2001:db8::1") := by decide +kernel

example : inetPton6 (bytes "1::2::3") = none := by decide +kernel

end Inet
