import DdnsCloudTencent.Util.Base64

/-!
# The base64 codec loses nothing, and where it stays in its buffer

- `decodeLoop_quad`: one round of the decoder, four characters of the alphabet;
- `decodeScan_encodeGroups`, `decodeLoop_encodeGroups`: the two loops on an
  encoded text;
- `Folded`: a text broken into lines, which neither loop notices;
- `base64_round_trip`: hence decoding undoes encoding;
- `encode_within_iff`: the encoder keeps to its buffer exactly for inputs below
  `2 ^ 29` bytes, where `slen << 3` does not wrap;
- `decodeScan_isSome_iff`, `base64_decode_spec`: what the decoder accepts, and
  that it keeps to its buffer on any text.
-/

namespace DdnsCloudTencent

open Cxx

/-! ## The alphabet -/

theorem encMap_spec {i : Nat} (h : i < 64) :
    decMap (encMap i) = i ∧ encMap i ≠ CR ∧ encMap i ≠ LF ∧ encMap i ≠ padChar ∧
      ¬ encMap i > 127 := by
  have hall : ∀ i < 64, decMap (encMap i) = i ∧ encMap i ≠ CR ∧ encMap i ≠ LF ∧
      encMap i ≠ padChar ∧ ¬ encMap i > 127 := by decide +kernel
  exact hall i h

/-- The length of an encoded text. -/
theorem length_encodeGroups (src : Bytes) :
    (encodeGroups src).length = 4 * ((src.length + 2) / 3) := by
  fun_induction encodeGroups src with
  | case1 c1 c2 c3 src ih =>
    simp only [List.length_cons, ih]
    omega
  | case2 c1 c2 => simp
  | case3 c1 => simp
  | case4 => rfl

/-- What the code computes for it: right up to the wrap of `slen << 3`. -/
theorem encodeSize_eq (slen : Nat) : encodeSize slen = 4 * ((slen % 2 ^ 29 + 2) / 3) := by
  have hbits : slen * 8 % 2 ^ 32 = 8 * (slen % 2 ^ 29) := by omega
  unfold encodeSize
  simp only [hbits]
  by_cases h2 : 8 * (slen % 2 ^ 29) - 8 * (slen % 2 ^ 29) / 6 * 6 = 2
  · rw [if_pos h2]
    omega
  · by_cases h4 : 8 * (slen % 2 ^ 29) - 8 * (slen % 2 ^ 29) / 6 * 6 = 4
    · rw [if_neg h2, if_pos h4]
      omega
    · rw [if_neg h2, if_neg h4]
      omega

/-! ## One character, four characters -/

theorem decodeScan_encMap {i : Nat} (h : i < 64) (s : Bytes) (n : Nat) :
    decodeScan (encMap i :: s) 0 n = decodeScan s 0 (n + 1) := by
  obtain ⟨hvalue, hcr, hlf, hpad, hascii⟩ := encMap_spec h
  have hne : decMap (encMap i) ≠ 127 := by omega
  simp [decodeScan, hcr, hlf, hpad, hascii, hne]

/-- The shift register after one more character. -/
def shiftIn (x v : Nat) : Nat := (x * 64 + v) % 2 ^ 64

theorem shiftIn_four (x : Nat) {a b c d : Nat} (ha : a < 64) (hb : b < 64) (hc : c < 64)
    (hd : d < 64) :
    shiftIn (shiftIn (shiftIn (shiftIn x a) b) c) d % 2 ^ 24 =
      a * 2 ^ 18 + b * 2 ^ 12 + c * 2 ^ 6 + d := by
  unfold shiftIn
  omega

/-- A byte of the shift register. -/
theorem ofNat_eq {m : Nat} {c : UInt8} (h : m % 256 = c.toNat) : UInt8.ofNat m = c := by
  rw [← UInt8.toNat_inj, UInt8.toNat_ofNat']
  exact h

/-- What a full shift register gives. -/
def quadBytes (j x : Nat) : Bytes :=
  (if j > 0 then [UInt8.ofNat (x / 2 ^ 16)] else []) ++
    (if j > 1 then [UInt8.ofNat (x / 2 ^ 8)] else []) ++ if j > 2 then [UInt8.ofNat x] else []

theorem decodeLoop_encMap {i : Nat} (h : i < 64) (s : Bytes) (j n x : Nat) :
    decodeLoop (encMap i :: s) j n x =
      if n + 1 = 4 then quadBytes j (shiftIn x i) ++ decodeLoop s j 0 (shiftIn x i)
      else decodeLoop s j (n + 1) (shiftIn x i) := by
  obtain ⟨hvalue, hcr, hlf, hpad, hascii⟩ := encMap_spec h
  have hne : i ≠ 64 := by omega
  rw [decodeLoop]
  simp only [hcr, hlf, or_self, if_false, hvalue, hne, Nat.sub_zero, Nat.mod_eq_of_lt h, shiftIn,
    quadBytes]

theorem decodeLoop_pad (s : Bytes) (j n x : Nat) :
    decodeLoop (padChar :: s) j n x =
      if n + 1 = 4 then quadBytes (j - 1) (shiftIn x 0) ++ decodeLoop s (j - 1) 0 (shiftIn x 0)
      else decodeLoop s (j - 1) (n + 1) (shiftIn x 0) := rfl

section Quad

variable {a b c d : Nat} (ha : a < 64) (hb : b < 64) (s : Bytes) (x : Nat)

include ha hb

/-- Four characters of the alphabet. -/
theorem decodeLoop_quad (hc : c < 64) (hd : d < 64) :
    ∃ y, y % 2 ^ 24 = a * 2 ^ 18 + b * 2 ^ 12 + c * 2 ^ 6 + d ∧
      decodeLoop (encMap a :: encMap b :: encMap c :: encMap d :: s) 3 0 x =
        quadBytes 3 y ++ decodeLoop s 3 0 y := by
  refine ⟨_, shiftIn_four x ha hb hc hd, ?_⟩
  rw [decodeLoop_encMap ha, if_neg (by decide), decodeLoop_encMap hb, if_neg (by decide),
    decodeLoop_encMap hc, if_neg (by decide), decodeLoop_encMap hd, if_pos rfl]

/-- Three and a pad. -/
theorem decodeLoop_pad_one (hc : c < 64) :
    ∃ y, y % 2 ^ 24 = a * 2 ^ 18 + b * 2 ^ 12 + c * 2 ^ 6 + 0 ∧
      decodeLoop [encMap a, encMap b, encMap c, padChar] 3 0 x = quadBytes 2 y := by
  refine ⟨_, shiftIn_four x ha hb hc (by decide), ?_⟩
  rw [decodeLoop_encMap ha, if_neg (by decide), decodeLoop_encMap hb, if_neg (by decide),
    decodeLoop_encMap hc, if_neg (by decide), decodeLoop_pad, if_pos rfl, decodeLoop,
    List.append_nil]

/-- Two and two pads. -/
theorem decodeLoop_pad_two :
    ∃ y, y % 2 ^ 24 = a * 2 ^ 18 + b * 2 ^ 12 + 0 * 2 ^ 6 + 0 ∧
      decodeLoop [encMap a, encMap b, padChar, padChar] 3 0 x = quadBytes 1 y := by
  refine ⟨_, shiftIn_four x ha hb (by decide) (by decide), ?_⟩
  rw [decodeLoop_encMap ha, if_neg (by decide), decodeLoop_encMap hb, if_neg (by decide),
    decodeLoop_pad, if_neg (by decide), decodeLoop_pad, if_pos rfl, decodeLoop, List.append_nil]

end Quad

/-! ## The two loops on an encoded text -/

theorem decodeScan_encodeGroups (src : Bytes) (n : Nat) :
    decodeScan (encodeGroups src) 0 n = some (n + (encodeGroups src).length) := by
  induction src using encodeGroups.induct generalizing n with
  | case1 c1 c2 c3 src ih =>
    have h1 := c1.toNat_lt
    rw [encodeGroups, decodeScan_encMap (by omega), decodeScan_encMap (by omega),
      decodeScan_encMap (by omega), decodeScan_encMap (by omega), ih]
    simp only [List.length_cons]
    congr 1
    omega
  | case2 c1 c2 =>
    rw [encodeGroups, decodeScan_encMap (by omega), decodeScan_encMap (by omega),
      decodeScan_encMap (by omega)]
    rfl
  | case3 c1 =>
    rw [encodeGroups, decodeScan_encMap (by omega), decodeScan_encMap (by omega)]
    rfl
  | case4 => rfl

/-- The decoder gives back what was encoded, whatever older characters are left
in the shift register. -/
theorem decodeLoop_encodeGroups (src : Bytes) (x : Nat) :
    decodeLoop (encodeGroups src) 3 0 x = src := by
  induction src using encodeGroups.induct generalizing x with
  | case1 c1 c2 c3 src ih =>
    have h1 := c1.toNat_lt
    have h2 := c2.toNat_lt
    have h3 := c3.toNat_lt
    obtain ⟨y, hy, heq⟩ := decodeLoop_quad (a := c1.toNat / 4 % 64)
      (b := (c1.toNat % 4 * 16 + c2.toNat / 16) % 64)
      (c := (c2.toNat % 16 * 4 + c3.toNat / 64) % 64) (d := c3.toNat % 64) (by omega) (by omega)
      (encodeGroups src) x (by omega) (by omega)
    have hb1 : UInt8.ofNat (y / 2 ^ 16) = c1 := ofNat_eq (by omega)
    have hb2 : UInt8.ofNat (y / 2 ^ 8) = c2 := ofNat_eq (by omega)
    have hb3 : UInt8.ofNat y = c3 := ofNat_eq (by omega)
    rw [encodeGroups, heq, ih, quadBytes, hb1, hb2, hb3]
    rfl
  | case2 c1 c2 =>
    have h1 := c1.toNat_lt
    have h2 := c2.toNat_lt
    obtain ⟨y, hy, heq⟩ := decodeLoop_pad_one (a := c1.toNat / 4 % 64)
      (b := (c1.toNat % 4 * 16 + c2.toNat / 16) % 64) (c := c2.toNat % 16 * 4 % 64) (by omega)
      (by omega) x (by omega)
    have hb1 : UInt8.ofNat (y / 2 ^ 16) = c1 := ofNat_eq (by omega)
    have hb2 : UInt8.ofNat (y / 2 ^ 8) = c2 := ofNat_eq (by omega)
    rw [encodeGroups, heq, quadBytes, hb1, hb2]
    rfl
  | case3 c1 =>
    have h1 := c1.toNat_lt
    obtain ⟨y, hy, heq⟩ := decodeLoop_pad_two (a := c1.toNat / 4 % 64)
      (b := c1.toNat % 4 * 16 % 64) (by omega) (by omega) x
    have hb1 : UInt8.ofNat (y / 2 ^ 16) = c1 := ofNat_eq (by omega)
    rw [encodeGroups, heq, quadBytes, hb1]
    rfl
  | case4 => rfl

/-! ## Line breaks -/

/-- `t` is `s` with line breaks put in, `\n` or `\r\n`, anywhere. -/
inductive Folded : Bytes → Bytes → Prop where
  | nil : Folded [] []
  | char {c : UInt8} {s t : Bytes} (hcr : c ≠ CR) (hlf : c ≠ LF) (h : Folded s t) :
    Folded (c :: s) (c :: t)
  | lf {s t : Bytes} (h : Folded s t) : Folded s (LF :: t)
  | crlf {s t : Bytes} (h : Folded s t) : Folded s (CR :: LF :: t)

theorem Folded.decodeScan {s t : Bytes} (h : Folded s t) (j n : Nat) :
    decodeScan t j n = decodeScan s j n := by
  induction h generalizing j n with
  | nil => rfl
  | char hcr hlf h ih => simp [DdnsCloudTencent.decodeScan, hcr, hlf, ih]
  | lf h ih => simpa [DdnsCloudTencent.decodeScan] using ih j n
  | crlf h ih => simpa [DdnsCloudTencent.decodeScan] using ih j n

theorem Folded.decodeLoop {s t : Bytes} (h : Folded s t) (j n x : Nat) :
    decodeLoop t j n x = decodeLoop s j n x := by
  induction h generalizing j n x with
  | nil => rfl
  | char hcr hlf h ih => simp [DdnsCloudTencent.decodeLoop, hcr, hlf, ih]
  | lf h ih => simpa [DdnsCloudTencent.decodeLoop] using ih j n x
  | crlf h ih => simpa [DdnsCloudTencent.decodeLoop] using ih j n x

theorem Folded.length_le {s t : Bytes} (h : Folded s t) : s.length ≤ t.length := by
  induction h with
  | nil => exact le_rfl
  | char _ _ _ ih =>
    simp only [List.length_cons]
    omega
  | lf _ ih =>
    simp only [List.length_cons]
    omega
  | crlf _ ih =>
    simp only [List.length_cons]
    omega

/-! ## Round trip -/

/-- **Decoding undoes encoding.** An input that is not empty and whose size
leaves the codec's arithmetic in 32 bits is encoded into any buffer with room
for its text and a NUL, and the text, broken into lines in any way, is decoded
to the input in any buffer of three bytes for each four characters. -/
theorem base64_round_trip (src : Bytes) (hne : src ≠ []) (hlen : src.length + 1 < 2 ^ 29)
    (dlen : Nat) (hdlen : 4 * ((src.length + 2) / 3) + 1 ≤ dlen) :
    ∃ text : Bytes, text.length = 4 * ((src.length + 2) / 3) ∧
      tretapBase64Encode dlen src = ⟨0, text.length, text ++ [0]⟩ ∧
      ∀ folded, Folded text folded → ∀ room, 3 * ((src.length + 2) / 3) ≤ room →
        tretapBase64Decode room folded = ⟨0, src.length, src⟩ := by
  have hsize : encodeSize src.length = 4 * ((src.length + 2) / 3) := by
    rw [encodeSize_eq, Nat.mod_eq_of_lt (by omega)]
  have htext := length_encodeGroups src
  refine ⟨encodeGroups src, htext, ?_, fun folded hfolded room hroom => ?_⟩
  · have hmod : (encodeGroups src).length % 2 ^ 32 = (encodeGroups src).length :=
      Nat.mod_eq_of_lt (by omega)
    unfold tretapBase64Encode
    simp only [hsize, hne, hmod, if_false, Nat.not_lt.mpr hdlen]
  · have hpos : 0 < src.length := List.length_pos_of_ne_nil hne
    have hscan : decodeScan folded 0 0 = some (encodeGroups src).length := by
      rw [hfolded.decodeScan, decodeScan_encodeGroups, Nat.zero_add]
    have hloop : decodeLoop folded 3 0 0 = src := by
      rw [hfolded.decodeLoop, decodeLoop_encodeGroups]
    have hneed : ((encodeGroups src).length * 6 % 2 ^ 32 + 7) % 2 ^ 32 / 8 =
        3 * ((src.length + 2) / 3) := by omega
    have hzero : (encodeGroups src).length ≠ 0 := by omega
    have hmod : src.length % 2 ^ 32 = src.length := Nat.mod_eq_of_lt (by omega)
    unfold tretapBase64Decode
    rw [hscan]
    simp only [hzero, if_false, hneed, Nat.not_lt.mpr hroom, hloop, hmod]

/-- A text of two groups, with a line break in the second. -/
theorem base64_round_trip_hello :
    ∃ text : Bytes, text.length = 8 ∧
      tretapBase64Encode 9 (bytes "hello") = ⟨0, 8, text ++ [0]⟩ ∧
      ∀ folded, Folded text folded → tretapBase64Decode 6 folded = ⟨0, 5, bytes "hello"⟩ := by
  obtain ⟨text, hlength, hencode, hdecode⟩ :=
    base64_round_trip (bytes "hello") (by decide) (by decide) 9 (by decide)
  rw [hlength] at hencode
  exact ⟨text, hlength, hencode, fun folded h => hdecode folded h 6 (by decide)⟩

/-! ## The room of the encoder -/

/-- **The encoder keeps to its buffer exactly below `2 ^ 29` bytes.** From there
on `slen << 3` wraps, and the room that is asked for is too small. -/
theorem encode_within_iff (src : Bytes) :
    (∀ dlen, (tretapBase64Encode dlen src).written.length ≤ dlen) ↔ src.length < 2 ^ 29 := by
  have htext := length_encodeGroups src
  have hsize := encodeSize_eq src.length
  constructor
  · intro h
    by_contra hlen
    have hne : src ≠ [] := by
      rintro rfl
      exact hlen (by decide)
    -- the least room that is accepted
    have hroom := h (encodeSize src.length + 1)
    unfold tretapBase64Encode at hroom
    simp only [hne, if_false, lt_irrefl, List.length_append, List.length_singleton] at hroom
    omega
  · intro hlen dlen
    rw [Nat.mod_eq_of_lt hlen] at hsize
    unfold tretapBase64Encode
    by_cases hne : src = []
    · rw [if_pos hne]
      exact Nat.zero_le _
    · rw [if_neg hne]
      by_cases hroom : dlen < encodeSize src.length + 1
      · simp only [hroom, if_true]
        exact Nat.zero_le _
      · simp only [hroom, if_false, List.length_append, List.length_singleton]
        omega

/-! ## What the decoder accepts -/

/-- The second table undoes the first. -/
theorem encMap_decMap {c : UInt8} (h : c ∈ tretapBase64EncMap) :
    decMap c < 64 ∧ encMap (decMap c) = c := by
  have hall : ∀ c ∈ tretapBase64EncMap, decMap c < 64 ∧ encMap (decMap c) = c := by
    decide +kernel
  exact hall c h

theorem encMap_mem {i : Nat} (h : i < 64) : encMap i ∈ tretapBase64EncMap := by
  have hlength : i < tretapBase64EncMap.length := h
  rw [encMap, List.getD_eq_getElem?_getD, List.getElem?_eq_getElem hlength, Option.getD_some]
  exact List.getElem_mem hlength

/-- A byte that has an entry is a pad or a character of the alphabet. -/
theorem mem_encMap_of_decMap {c : UInt8} (hpad : c ≠ padChar) (hascii : ¬ c > 127)
    (hvalue : decMap c ≠ 127) : decMap c < 64 ∧ c ∈ tretapBase64EncMap := by
  have hall : ∀ i < 128, UInt8.ofNat i ≠ padChar → decMap (UInt8.ofNat i) ≠ 127 →
      decMap (UInt8.ofNat i) < 64 ∧ encMap (decMap (UInt8.ofNat i)) = UInt8.ofNat i := by
    decide +kernel
  have hlt : c.toNat < 128 := by
    have hle := UInt8.le_iff_toNat_le.mp (UInt8.not_lt.mp hascii)
    exact Nat.lt_succ_of_le hle
  have h := hall c.toNat hlt
  rw [UInt8.ofNat_toNat] at h
  obtain ⟨hsmall, heq⟩ := h hpad hvalue
  exact ⟨hsmall, heq ▸ encMap_mem hsmall⟩

/-- A text that the first loop passes: characters of the alphabet and at most two
pads behind them, with line breaks anywhere. -/
structure Base64Text (text : Bytes) (pads : Nat) (src : Bytes) : Prop where
  folded : Folded (text ++ List.replicate pads padChar) src
  alphabet : ∀ c ∈ text, c ∈ tretapBase64EncMap
  pads : pads ≤ 2

/-- The pads at the end, `j` of which have been seen. -/
theorem decodeScan_pads {j k : Nat} (h : j + k ≤ 2) (n : Nat) :
    decodeScan (List.replicate k padChar) j n = some (n + k) := by
  induction k generalizing j n with
  | zero => rfl
  | succ k ih =>
    have hj : ¬ j + 1 > 2 := by omega
    have hcr : padChar ≠ CR := by decide
    have hlf : padChar ≠ LF := by decide
    have hvalue : decMap padChar = 64 := by decide
    have hascii : ¬ padChar > 127 := by decide
    rw [List.replicate_succ, decodeScan]
    simp only [hcr, false_and, if_false, hlf, if_true, hj, and_false, hascii, hvalue]
    have hnext := ih (j := j + 1) (by omega) (n + 1)
    simpa [Nat.add_assoc, Nat.add_comm 1 k] using hnext

theorem decodeScan_base64Text {text src : Bytes} {pads : Nat} (h : Base64Text text pads src) :
    decodeScan src 0 0 = some (text.length + pads) := by
  rw [h.folded.decodeScan]
  have hfrom : ∀ (text : Bytes) (n : Nat), (∀ c ∈ text, c ∈ tretapBase64EncMap) →
      decodeScan (text ++ List.replicate pads padChar) 0 n = some (n + text.length + pads) := by
    intro text
    induction text with
    | nil => exact fun n _ => decodeScan_pads (by have := h.pads; omega) n
    | cons c text ih =>
      intro n hall
      obtain ⟨hi, hc⟩ := encMap_decMap (hall c List.mem_cons_self)
      rw [List.cons_append, ← hc, decodeScan_encMap hi,
        ih (n + 1) fun c hc => hall c (List.mem_cons_of_mem _ hc), List.length_cons]
      congr 1
      omega
  rw [hfrom text 0 h.alphabet, Nat.zero_add]

theorem Folded.of_lf {s t : Bytes} (h : Folded s (LF :: t)) : Folded s t := by
  cases h with
  | char _ hlf _ => exact absurd rfl hlf
  | lf h => exact h

/-- From a place where `j` pads have been seen. -/
theorem base64Text_of_decodeScan {src : Bytes} {j n m : Nat} (hj : j ≤ 2)
    (h : decodeScan src j n = some m) :
    ∃ text k, Folded (text ++ List.replicate k padChar) src ∧
      (∀ c ∈ text, c ∈ tretapBase64EncMap) ∧ j + k ≤ 2 ∧ (j ≠ 0 → text = []) := by
  induction src generalizing j n with
  | nil => exact ⟨[], 0, .nil, fun c hc => absurd hc List.not_mem_nil, hj, fun _ => rfl⟩
  | cons c src ih =>
    rw [decodeScan] at h
    by_cases hcr : c = CR ∧ src.head? = some LF
    · -- the line feed behind it is skipped in the next round
      rw [if_pos hcr] at h
      obtain ⟨rfl, hhead⟩ := hcr
      obtain ⟨rest, rfl⟩ := List.head?_eq_some_iff.mp hhead
      obtain ⟨text, k, hfold, hrest⟩ := ih hj h
      exact ⟨text, k, hfold.of_lf.crlf, hrest⟩
    · rw [if_neg hcr] at h
      by_cases hlf : c = LF
      · rw [if_pos hlf] at h
        obtain ⟨text, k, hfold, hrest⟩ := ih hj h
        rw [hlf]
        exact ⟨text, k, hfold.lf, hrest⟩
      · rw [if_neg hlf] at h
        by_cases hpad : c = padChar
        · simp only [hpad, if_true, true_and] at h
          split at h
          · cases h
          · split at h
            · cases h
            · split at h
              · cases h
              · next hj' _ _ =>
                -- no character of the alphabet follows a pad
                obtain ⟨text, k, hfold, -, hk, htext⟩ := ih (by omega) h
                obtain rfl := htext (by omega)
                refine ⟨[], k + 1, ?_, fun c hc => absurd hc List.not_mem_nil, by omega,
                  fun _ => rfl⟩
                rw [hpad]
                exact .char (by decide) (by decide) hfold
        · simp only [hpad, if_false, false_and] at h
          split at h
          · cases h
          · next hbad =>
            obtain ⟨hascii, hvalue⟩ := not_or.mp hbad
            obtain ⟨hlt, hmem⟩ := mem_encMap_of_decMap hpad hascii hvalue
            split at h
            · cases h
            · next hfirst =>
              have hj0 : j = 0 := by_contra fun hj0 => hfirst ⟨hlt, hj0⟩
              obtain ⟨text, k, hfold, hall, hk, -⟩ := ih hj h
              have hne : c ≠ CR := by
                rintro rfl
                exact absurd hvalue (by decide)
              exact ⟨c :: text, k, .char hne hlf hfold, List.forall_mem_cons.mpr ⟨hmem, hall⟩, hk,
                fun h0 => absurd hj0 h0⟩

/-- The first loop passes the well-formed texts and no others. -/
theorem decodeScan_isSome_iff (src : Bytes) :
    (decodeScan src 0 0).isSome ↔ ∃ text pads, Base64Text text pads src := by
  constructor
  · intro h
    obtain ⟨m, hm⟩ := Option.isSome_iff_exists.mp h
    obtain ⟨text, k, hfold, hall, hk, -⟩ := base64Text_of_decodeScan (Nat.zero_le 2) hm
    exact ⟨text, k, hfold, hall, by omega⟩
  · rintro ⟨text, pads, h⟩
    rw [decodeScan_base64Text h]
    rfl

/-! ## The room of the decoder -/

theorem length_quadBytes_le (j x : Nat) : (quadBytes j x).length ≤ 3 := by
  have hone : ∀ (p : Prop) [Decidable p] (c : UInt8), (if p then [c] else []).length ≤ 1 := by
    intro p _ c
    by_cases h : p
    · rw [if_pos h]
      exact le_rfl
    · rw [if_neg h]
      exact Nat.zero_le 1
  rw [quadBytes, List.length_append, List.length_append]
  have h1 := hone (j > 0) (UInt8.ofNat (x / 2 ^ 16))
  have h2 := hone (j > 1) (UInt8.ofNat (x / 2 ^ 8))
  have h3 := hone (j > 2) (UInt8.ofNat x)
  omega

/-- Three bytes for each four characters, `n` of which are in the shift register. -/
theorem length_decodeLoop_le (s : Bytes) (j x : Nat) {n : Nat} (hn : n < 4) :
    4 * (decodeLoop s j n x).length ≤ 3 * (n + s.length) := by
  induction s generalizing j n x with
  | nil => exact Nat.zero_le _
  | cons c s ih =>
    rw [decodeLoop, List.length_cons]
    by_cases hbreak : c = CR ∨ c = LF
    · rw [if_pos hbreak]
      have h := ih j x hn
      omega
    · rw [if_neg hbreak]
      simp only
      by_cases hfull : n + 1 = 4
      · rw [if_pos hfull, List.length_append]
        have hquad := length_quadBytes_le (j - if decMap c = 64 then 1 else 0)
          ((x * 64 + decMap c % 64) % 2 ^ 64)
        have h := ih (j - if decMap c = 64 then 1 else 0) ((x * 64 + decMap c % 64) % 2 ^ 64)
          (show 0 < 4 by decide)
        rw [quadBytes] at hquad
        omega
      · rw [if_neg hfull]
        have h := ih (j - if decMap c = 64 then 1 else 0) ((x * 64 + decMap c % 64) % 2 ^ 64)
          (show n + 1 < 4 by omega)
        omega

/-- **The decoder on any text.** It refuses exactly the texts that are not
characters of the alphabet and at most two pads, broken into lines. It never
writes beyond its buffer, and where the buffer is too small it writes nothing
and names a room that is enough. -/
theorem base64_decode_spec (src : Bytes) (hlen : src.length * 6 + 7 < 2 ^ 32) (dlen : Nat) :
    ((tretapBase64Decode dlen src).ret = base64InvalidCharacter ↔
        ¬ ∃ text pads, Base64Text text pads src) ∧
      (tretapBase64Decode dlen src).written.length ≤ dlen ∧
      ((tretapBase64Decode dlen src).ret = base64BufferTooSmall →
        (tretapBase64Decode dlen src).written = [] ∧
          ∀ room, (tretapBase64Decode dlen src).dlen ≤ room →
            (tretapBase64Decode room src).ret = 0) := by
  -- the room that is asked for, and what is written into it
  have hroom : ∀ m, decodeScan src 0 0 = some m →
      4 * (decodeLoop src 3 0 0).length ≤ 3 * m ∧ m ≤ src.length := by
    intro m hm
    have hsome := Option.isSome_iff_exists.mpr ⟨m, hm⟩
    obtain ⟨text, pads, htext⟩ := (decodeScan_isSome_iff src).mp hsome
    obtain rfl := Option.some.inj ((decodeScan_base64Text htext).symm.trans hm)
    have hwritten := length_decodeLoop_le (text ++ List.replicate pads padChar) 3 0
      (show 0 < 4 by decide)
    rw [htext.folded.decodeLoop]
    have hfold := htext.folded.length_le
    rw [List.length_append, List.length_replicate] at hwritten hfold
    exact ⟨by omega, hfold⟩
  rw [← decodeScan_isSome_iff]
  unfold tretapBase64Decode
  cases hscan : decodeScan src 0 0 with
  | none =>
    have hcodes : base64InvalidCharacter ≠ base64BufferTooSmall := by decide
    exact ⟨iff_of_true rfl Bool.false_ne_true, Nat.zero_le _, fun h => absurd h hcodes⟩
  | some m =>
    obtain ⟨hwritten, hm⟩ := hroom m hscan
    have hneed : (m * 6 % 2 ^ 32 + 7) % 2 ^ 32 / 8 = (m * 6 + 7) / 8 := by omega
    simp only [Option.isSome_some, not_true_eq_false, iff_false, hneed]
    by_cases hzero : m = 0
    · simp only [hzero, if_true]
      exact ⟨by decide, Nat.zero_le _, fun h => absurd h (by decide)⟩
    · by_cases hsmall : dlen < (m * 6 + 7) / 8
      · simp only [hzero, if_false, hsmall, if_true]
        refine ⟨by decide, Nat.zero_le _, fun _ => ⟨trivial, fun room hr => ?_⟩⟩
        simp only [Nat.not_lt.mpr hr, if_false]
      · simp only [hzero, if_false, hsmall]
        exact ⟨by decide, by omega, fun h => absurd h (by decide)⟩

/-- A text of one group with both kinds of line break, and a buffer of two bytes. -/
theorem base64_decode_spec_sample :
    (tretapBase64Decode 2 (bytes "T\r\nW\nFu")).ret = base64BufferTooSmall ∧
      (tretapBase64Decode 2 (bytes "T\r\nW\nFu")).written = [] ∧
      (tretapBase64Decode 3 (bytes "T\r\nW\nFu")).ret = 0 := by
  have hsmall : (tretapBase64Decode 2 (bytes "T\r\nW\nFu")).ret = base64BufferTooSmall ∧
      (tretapBase64Decode 2 (bytes "T\r\nW\nFu")).dlen ≤ 3 := ⟨rfl, le_refl 3⟩
  obtain ⟨-, -, hcall⟩ := base64_decode_spec (bytes "T\r\nW\nFu") (by decide) 2
  obtain ⟨hnothing, henough⟩ := hcall hsmall.1
  exact ⟨hsmall.1, hnothing, henough 3 hsmall.2⟩

end DdnsCloudTencent
