import DdnsCloudTencent.Lib.Lines

/-!
# The vendored base64 codec (util/tretap_base_64.c)

A call gets the room of its output in `*dlen`. It returns a code, leaves a
length in `*dlen` and writes some bytes from `dst` on (`Base64Call`); the input
is `slen` bytes, the list itself. `unsigned int` arithmetic is modulo `2 ^ 32`
wherever it can wrap.
-/

namespace DdnsCloudTencent

open Cxx

/-- What a call returns and does. -/
structure Base64Call where
  ret : Int
  dlen : Nat
  written : Bytes
deriving DecidableEq

/-- `TRETAP_POLARSSL_ERR_BASE64_BUFFER_TOO_SMALL`. -/
def base64BufferTooSmall : Int := -0x2A

/-- `TRETAP_POLARSSL_ERR_BASE64_INVALID_CHARACTER`. -/
def base64InvalidCharacter : Int := -0x2C

/-- `tretap_base64_enc_map`. -/
def tretapBase64EncMap : Bytes :=
  bytes "ABCDEFGHIJKLMNOPQRSTUVWXYZabcdefghijklmnopqrstuvwxyz0123456789+/"

/-- `tretap_base64_dec_map`. -/
def tretapBase64DecMap : List Nat :=
  [ 127, 127, 127, 127, 127, 127, 127, 127, 127, 127, 127, 127, 127, 127, 127, 127,
    127, 127, 127, 127, 127, 127, 127, 127, 127, 127, 127, 127, 127, 127, 127, 127,
    127, 127, 127, 127, 127, 127, 127, 127, 127, 127, 127, 62, 127, 127, 127, 63,
    52, 53, 54, 55, 56, 57, 58, 59, 60, 61, 127, 127, 127, 64, 127, 127,
    127, 0, 1, 2, 3, 4, 5, 6, 7, 8, 9, 10, 11, 12, 13, 14,
    15, 16, 17, 18, 19, 20, 21, 22, 23, 24, 25, 127, 127, 127, 127, 127,
    127, 26, 27, 28, 29, 30, 31, 32, 33, 34, 35, 36, 37, 38, 39, 40,
    41, 42, 43, 44, 45, 46, 47, 48, 49, 50, 51, 127, 127, 127, 127, 127 ]

/-- `tretap_base64_enc_map[i]`. -/
def encMap (i : Nat) : UInt8 := tretapBase64EncMap.getD i 0

/-- `tretap_base64_dec_map[c]`. -/
def decMap (c : UInt8) : Nat := tretapBase64DecMap.getD c.toNat 127

/-- `=`. -/
def padChar : UInt8 := 61

/-- The length of the encoded text, as the code computes it. -/
def encodeSize (slen : Nat) : Nat :=
  let bits := slen * 8 % 2 ^ 32
  let n := bits / 6
  if bits - n * 6 = 2 then n + 3
  else if bits - n * 6 = 4 then n + 2
  else n

/-- The loop over whole groups of three, and the one or two bytes behind them. -/
def encodeGroups : Bytes → Bytes
  | c1 :: c2 :: c3 :: src =>
    encMap (c1.toNat / 4 % 64) :: encMap ((c1.toNat % 4 * 16 + c2.toNat / 16) % 64) ::
      encMap ((c2.toNat % 16 * 4 + c3.toNat / 64) % 64) :: encMap (c3.toNat % 64) ::
      encodeGroups src
  | [c1, c2] =>
    [encMap (c1.toNat / 4 % 64), encMap ((c1.toNat % 4 * 16 + c2.toNat / 16) % 64),
      encMap (c2.toNat % 16 * 4 % 64), padChar]
  | [c1] => [encMap (c1.toNat / 4 % 64), encMap (c1.toNat % 4 * 16 % 64), padChar, padChar]
  | [] => []

/-- `tretap_base64_encode` (tretap_base_64.c:38). -/
def tretapBase64Encode (dlen : Nat) (src : Bytes) : Base64Call :=
  if src = [] then ⟨0, dlen, []⟩
  else
    let n := encodeSize src.length
    if dlen < n + 1 then ⟨base64BufferTooSmall, n + 1, []⟩
    else
      let text := encodeGroups src
      ⟨0, text.length % 2 ^ 32, text ++ [0]⟩

/-- The first loop of the decoder over the rest of the text: the number of
characters that are not line breaks, `none` for an invalid one. -/
def decodeScan : Bytes → Nat → Nat → Option Nat
  | [], _, n => some n
  | c :: s, j, n =>
    if c = CR ∧ s.head? = some LF then decodeScan s j n
    else if c = LF then decodeScan s j n
    else
      let j := if c = padChar then j + 1 else j
      if c = padChar ∧ j > 2 then none
      else if c > 127 ∨ decMap c = 127 then none
      else if decMap c < 64 ∧ j ≠ 0 then none
      else decodeScan s j (n + 1)

/-- The second loop over the rest of the text. `x` is never cleared: the older
characters are shifted out of the 24 bits that are read. -/
def decodeLoop : Bytes → Nat → Nat → Nat → Bytes
  | [], _, _, _ => []
  | c :: s, j, n, x =>
    if c = CR ∨ c = LF then decodeLoop s j n x
    else
      let j := j - if decMap c = 64 then 1 else 0
      let x := (x * 64 + decMap c % 64) % 2 ^ 64
      if n + 1 = 4 then
        (if j > 0 then [UInt8.ofNat (x / 2 ^ 16)] else []) ++
          (if j > 1 then [UInt8.ofNat (x / 2 ^ 8)] else []) ++
          (if j > 2 then [UInt8.ofNat x] else []) ++ decodeLoop s j 0 x
      else decodeLoop s j (n + 1) x

/-- `tretap_base64_decode` (tretap_base_64.c:100). -/
def tretapBase64Decode (dlen : Nat) (src : Bytes) : Base64Call :=
  match decodeScan src 0 0 with
  | none => ⟨base64InvalidCharacter, dlen, []⟩
  | some n =>
    if n = 0 then ⟨0, dlen, []⟩
    else
      let n := (n * 6 % 2 ^ 32 + 7) % 2 ^ 32 / 8
      if dlen < n then ⟨base64BufferTooSmall, n, []⟩
      else
        let out := decodeLoop src 3 0 0
        ⟨0, out.length % 2 ^ 32, out⟩

end DdnsCloudTencent
