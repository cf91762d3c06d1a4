import DdnsCloudTencent.Util.CurlRequest

/-!
# The vendored JSON reader (util/tretap_CJSON.c)

`CJson` is a node of the parsed tree. The constructors carry exactly the fields
the parser can set together, so that a string pointer is there for a `String`
node only and a number for a `Number` node only; `valuestring`, `valueint` and
`valuedouble` are the C fields of any node.

The parser works on the bytes before the terminator, so the end of the list is
the NUL it stops at. Its result has three kinds: a node with the unread text, a
NULL pointer (`none`), or a `Fault` where the C code leaves defined behaviour:
reading on past the terminator after a trailing backslash, writing more bytes
than were counted, overflowing the exponent.

- Recursion is by fuel; `parse_ne_outOfFuel` shows that it never runs out;
- `readingDepth` counts the calls that are open at a time. The C code has no limit to
  them but its stack, which is no part of `tretapCJsonParse` (`onStack`).
-/

namespace DdnsCloudTencent

open Cxx

/-- Where the C and C++ code has no defined behaviour left. -/
inductive Fault where
  /-- A NULL `valuestring` is read through, or a `std::string` made of it. -/
  | nullString
  /-- A member is looked up in a NULL node. -/
  | nullObject
  /-- The parser reads beyond the terminator of its input. -/
  | strayRead
  /-- The parser writes beyond the string it allocated. -/
  | bufferOverrun
  /-- The decimal exponent does not fit an `int`. -/
  | intOverflow
  /-- Not an outcome of the C code: the fuel of the recursion is used up. -/
  | outOfFuel
deriving DecidableEq

/-- `struct tretap_CJson`, by its `type`. -/
inductive CJson where
  | false
  | true
  | null
  | number (valueint : Int32) (valuedouble : Double)
  | string (valuestring : CStr)
  | array (child : List CJson)
  | object (child : List (CStr × CJson))

namespace CJson

/-- `valuestring`, NULL unless the node is a `String`. -/
def valuestring : CJson → Option CStr
  | .string s => some s
  | _ => none

/-- `valueint`. -/
def valueint : CJson → Int32
  | .number i _ => i
  | .true => 1
  | _ => 0

/-- `valuedouble`. -/
def valuedouble : CJson → Double
  | .number _ d => d
  | _ => .finite 0

/-- `child` and its `next` chain, each with its member name (NULL in an array). -/
def child : CJson → List (Option CStr × CJson)
  | .array cs => cs.map fun c => (none, c)
  | .object ms => ms.map fun m => (some m.1, m.2)
  | _ => []

/-- `type == tretap_CJson_Array`. -/
def isArray : CJson → Bool
  | .array _ => Bool.true
  | _ => Bool.false

end CJson

/-- `tolower` in the C locale. -/
def tolower (c : UInt8) : UInt8 := if 65 ≤ c ∧ c ≤ 90 then c + 32 else c

/-- The comparison loop of `tretap_CJson_strcasecmp` (tretap_CJSON.c:47). -/
def strcasecmpLoop : Bytes → Bytes → Int
  | [], [] => 0
  | [], d :: _ => -((tolower d).toNat : Int)
  | c :: _, [] => (tolower c).toNat
  | c :: s, d :: t =>
    if tolower c = tolower d then strcasecmpLoop s t
    else (tolower c).toNat - ((tolower d).toNat : Int)

/-- `tretap_CJson_strcasecmp` (tretap_CJSON.c:44) with a non-NULL second string. -/
def tretapCJsonStrcasecmp (s1 : Option CStr) (s2 : CStr) : Int :=
  match s1 with
  | none => 1
  | some s1 => strcasecmpLoop s1.toBytes s2.toBytes

/-- `tretap_CJson_GetArraySize` (tretap_CJSON.c:662). -/
def tretapCJsonGetArraySize (array : CJson) : Nat := array.child.length

/-- `tretap_CJson_GetArrayItem` (tretap_CJSON.c:671). -/
def tretapCJsonGetArrayItem (array : CJson) (item : Nat) : Option CJson :=
  array.child[item]?.map Prod.snd

/-- `tretap_CJson_GetObjectItem` (tretap_CJSON.c:678): the first member whose
name matches up to ASCII case. -/
def tretapCJsonGetObjectItem (object : CJson) (string : CStr) : Option CJson :=
  (object.child.find? fun c => tretapCJsonStrcasecmp c.1 string == 0).map Prod.snd

/-! ## Strings -/

/-- `"`. -/
abbrev quote : UInt8 := 34

/-- `\`. -/
abbrev backslash : UInt8 := 92

/-- The first loop of `parse_string` (tretap_CJSON.c:200): the bytes to allocate.
A backslash right before the terminator takes the pointer over it. `len` is an `int`
there, so this is the code on strings of fewer than 2^31 bytes. -/
def scanString : Bytes → Except Fault Nat
  | [] => .ok 0
  | [c] =>
    if c = quote then .ok 0 else if c = backslash then .error .strayRead else .ok 1
  | c :: d :: s =>
    if c = quote then .ok 0
    else if c = backslash then (scanString s).map (· + 1)
    else (scanString (d :: s)).map (· + 1)

/-- One digit of `parse_hex4`. -/
def hexDigit (c : UInt8) : Option Nat :=
  if 48 ≤ c ∧ c ≤ 57 then some (c.toNat - 48)
  else if 65 ≤ c ∧ c ≤ 70 then some (c.toNat - 55)
  else if 97 ≤ c ∧ c ≤ 102 then some (c.toNat - 87)
  else none

/-- `parse_hex4` (tretap_CJSON.c:180): 0 unless all four are digits. -/
def parseHex4 (a b c d : UInt8) : Nat :=
  match hexDigit a, hexDigit b, hexDigit c, hexDigit d with
  | some w, some x, some y, some z => ((w * 16 + x) * 16 + y) * 16 + z
  | _, _, _, _ => 0

/-- The UTF-8 bytes written for a code point (tretap_CJSON.c:232). -/
def utf8 (uc : Nat) : Bytes :=
  if uc < 0x80 then [uc.toUInt8]
  else if uc < 0x800 then [(0xC0 + uc / 64).toUInt8, (0x80 + uc % 64).toUInt8]
  else if uc < 0x10000 then
    [(0xE0 + uc / 4096).toUInt8, (0x80 + uc / 64 % 64).toUInt8, (0x80 + uc % 64).toUInt8]
  else
    [(0xF0 + uc / 262144).toUInt8, (0x80 + uc / 4096 % 64).toUInt8,
      (0x80 + uc / 64 % 64).toUInt8, (0x80 + uc % 64).toUInt8]

/-- The byte a one-letter escape stands for (tretap_CJSON.c:214). -/
def escapeByte (c : UInt8) : UInt8 :=
  if c = 98 then 8 else if c = 102 then 12 else if c = 110 then 10
  else if c = 114 then 13 else if c = 116 then 9 else c

/-- The second loop of `parse_string` (tretap_CJSON.c:206): the bytes written and
the text after the closing quote. A string that the text ends in is accepted. -/
def unescape : Bytes → Except Fault (Bytes × Bytes)
  | [] => .ok ([], [])
  | [c] =>
    if c = quote then .ok ([], []) else if c = backslash then .error .strayRead else .ok ([c], [])
  | c :: d :: s =>
    if c = quote then .ok ([], d :: s)
    else if c ≠ backslash then (unescape (d :: s)).map fun r => (c :: r.1, r.2)
    else if d ≠ 117 then (unescape s).map fun r => (escapeByte d :: r.1, r.2)
    else match s with
      | h₁ :: h₂ :: h₃ :: h₄ :: s =>
        let uc := parseHex4 h₁ h₂ h₃ h₄
        -- a low surrogate alone, NUL, or digits that are none: nothing is written
        if (0xDC00 ≤ uc ∧ uc ≤ 0xDFFF) ∨ uc = 0 then unescape s
        else if 0xD800 ≤ uc ∧ uc ≤ 0xDBFF then
          match s with
          | b :: u :: g₁ :: g₂ :: g₃ :: g₄ :: s' =>
            -- a high surrogate alone is dropped as well
            if b ≠ backslash ∨ u ≠ 117 then unescape (b :: u :: g₁ :: g₂ :: g₃ :: g₄ :: s')
            else
              let uc2 := parseHex4 g₁ g₂ g₃ g₄
              -- and so are two escapes that are no pair
              if uc2 < 0xDC00 ∨ uc2 > 0xDFFF then unescape s'
              else
                let uc := 0x10000 + (uc % 1024) * 1024 + uc2 % 1024
                (unescape s').map fun r => (utf8 uc ++ r.1, r.2)
          | b :: u :: s' =>
            if b ≠ backslash ∨ u ≠ 117 then unescape (b :: u :: s') else .error .strayRead
          | s' => unescape s'
        else (unescape s).map fun r => (utf8 uc ++ r.1, r.2)
      | _ => .error .strayRead

/-- `parse_string` (tretap_CJSON.c:195): the string and the text after it. -/
def parseString : Bytes → Except Fault (Option (CStr × Bytes))
  | [] => .ok none
  | c :: s =>
    if c ≠ quote then .ok none
    else do
      let len ← scanString s
      let (out, rest) ← unescape s
      if len < out.length then .error .bufferOverrun else .ok (some (cStr out, rest))

/-! ## Numbers -/

/-- `n = n * 10.0 + (c - '0')` over a run of digits. -/
def accumulate (n : Double) (ds : Bytes) : Double :=
  ds.foldl (fun n c => (n.mul (.ofNat 10)).add (.ofNat (c.toNat - 48))) n

/-- The digits of the integer part and the text after them (tretap_CJSON.c:104):
one leading zero is skipped, and digits count only after a nonzero one. -/
def integerPart (num : Bytes) : Bytes × Bytes :=
  let num := match num with
    | 48 :: t => t
    | num => num
  match num with
  | c :: _ =>
    if 49 ≤ c ∧ c ≤ 57 then (num.takeWhile isDigit, num.dropWhile isDigit) else ([], num)
  | [] => ([], num)

/-- The digits of the fraction and the text after them (tretap_CJSON.c:106). -/
def fractionPart (num : Bytes) : Bytes × Bytes :=
  match num with
  | 46 :: d :: t =>
    if isDigit d then ((d :: t).takeWhile isDigit, (d :: t).dropWhile isDigit) else ([], num)
  | _ => ([], num)

/-- `subscale` with its sign and the text after it (tretap_CJSON.c:107). -/
def exponentPart (num : Bytes) : Except Fault (ℤ × Bytes) :=
  match num with
  | c :: t =>
    if c = 101 ∨ c = 69 then
      let (sign, t) : ℤ × Bytes := match t with
        | 43 :: t => (1, t)
        | 45 :: t => (-1, t)
        | t => (1, t)
      let subscale := ofNumeral 10 (t.takeWhile isDigit)
      if 2 ^ 31 ≤ subscale then .error .intOverflow
      else .ok (sign * subscale, t.dropWhile isDigit)
    else .ok (0, num)
  | [] => .ok (0, num)

/-- `parse_number` (tretap_CJSON.c:99). -/
def parseNumber (M : Machine) (num : Bytes) : Except Fault (CJson × Bytes) := do
  let (sign, num) : Double × Bytes := match num with
    | 45 :: t => (.finite (-1), t)
    | num => (.finite 1, num)
  let (int, num) := integerPart num
  let (frac, num) := fractionPart num
  let (subscale, num) ← exponentPart num
  let n := accumulate (accumulate (.finite 0) int) frac
  let n := (sign.mul n).mul (M.pow10 (-frac.length + subscale))
  -- `valueint` is `valuedouble` cast to `int`
  .ok (.number (M.toInt32 n) n, num)

/-! ## Values -/

/-- `skip` (tretap_CJSON.c:323). -/
def skip (s : Bytes) : Bytes := s.dropWhile (· ≤ 32)

mutual

/-- `parse_value` (tretap_CJSON.c:358). -/
def parseValue (M : Machine) : Nat → Bytes → Except Fault (Option (CJson × Bytes))
  | 0, _ => .error .outOfFuel
  | fuel + 1, value =>
    -- a literal counts whatever follows it
    if (bytes "null").isPrefixOf value then .ok (some (.null, value.drop 4))
    else if (bytes "false").isPrefixOf value then .ok (some (.false, value.drop 5))
    else if (bytes "true").isPrefixOf value then .ok (some (.true, value.drop 4))
    else match value with
      | [] => .ok none
      | c :: s =>
        if c = quote then
          (parseString value).map fun r => r.map fun (str, rest) => (.string str, rest)
        else if c = 45 ∨ isDigit c then (parseNumber M value).map some
        else if c = 91 then
          match skip s with
          | [] => .ok none
          | d :: t =>
            if d = 93 then .ok (some (.array [], t))
            else (parseElements M fuel (d :: t)).map fun r =>
              r.map fun (items, rest) => (.array items, rest)
        else if c = 123 then
          match skip s with
          | [] => .ok none
          | d :: t =>
            if d = 125 then .ok (some (.object [], t))
            else (parseMembers M fuel (d :: t)).map fun r =>
              r.map fun (items, rest) => (.object items, rest)
        else .ok none

/-- The loop of `parse_array` (tretap_CJSON.c:418): one element, and more after
a comma. -/
def parseElements (M : Machine) : Nat → Bytes → Except Fault (Option (List CJson × Bytes))
  | 0, _ => .error .outOfFuel
  | fuel + 1, value => do
    let some (child, rest) ← parseValue M fuel (skip value) | .ok none
    match skip rest with
    | [] => .ok none
    | c :: t =>
      if c = 44 then
        (parseElements M fuel t).map fun r => r.map fun (items, rest) => (child :: items, rest)
      else if c = 93 then .ok (some ([child], t))
      else .ok none

/-- The loop of `parse_object` (tretap_CJSON.c:526): one member, and more after
a comma. -/
def parseMembers (M : Machine) :
    Nat → Bytes → Except Fault (Option (List (CStr × CJson) × Bytes))
  | 0, _ => .error .outOfFuel
  | fuel + 1, value => do
    let some (name, rest) ← parseString (skip value) | .ok none
    match skip rest with
    | [] => .ok none
    | c :: t =>
      if c ≠ 58 then .ok none
      else do
        let some (child, rest) ← parseValue M fuel (skip t) | .ok none
        match skip rest with
        | [] => .ok none
        | c :: t =>
          if c = 44 then
            (parseMembers M fuel t).map fun r =>
              r.map fun (items, rest) => ((name, child) :: items, rest)
          else if c = 125 then .ok (some ([(name, child)], t))
          else .ok none

end

/-- `tretap_CJson_Parse` (tretap_CJSON.c:340): one value, what follows it is not
looked at. -/
def tretapCJsonParse (M : Machine) (value : CStr) : Except Fault (Option CJson) :=
  (parseValue M (2 * value.toBytes.length + 2) (skip value.toBytes)).map fun r => r.map Prod.fst

/-- `tretap_CJson_ParseWithOpts` (tretap_CJSON.c:326): the value with what
`return_parse_end` points to. Where the terminator is required, nothing but white
space may stand before it. -/
def tretapCJsonParseWithOpts (M : Machine) (value : CStr) (requireNullTerminated : Bool) :
    Except Fault (Option (CJson × Bytes)) :=
  (parseValue M (2 * value.toBytes.length + 2) (skip value.toBytes)).map fun r =>
    r.bind fun (c, ending) =>
      if requireNullTerminated then if skip ending = [] then some (c, []) else none
      else some (c, ending)

/-! ## The C stack -/

/-- How the C code stops early: a fault, or a call for which the stack has no room. -/
inductive Stop where
  | fault (f : Fault)
  | stackOverflow
deriving DecidableEq

/-- The text behind the byte that follows what was read. -/
def textAfter {α : Type} (c : UInt8) (r : Except Fault (Option (α × Bytes))) : Option Bytes :=
  match r with
  | .ok (some (_, rest)) =>
    match skip rest with
    | [] => none
    | d :: t => if d = c then some t else none
  | _ => none

mutual

/-- How many calls of `parse_array` and `parse_object` are open at most while
`parse_value` reads. -/
def valueDepth (M : Machine) : Nat → Bytes → Nat
  | 0, _ => 0
  | _ + 1, [] => 0
  | fuel + 1, c :: s =>
    if c = 91 then
      match skip s with
      | [] => 1
      | d :: t => if d = 93 then 1 else elementsDepth M fuel (d :: t) + 1
    else if c = 123 then
      match skip s with
      | [] => 1
      | d :: t => if d = 125 then 1 else membersDepth M fuel (d :: t) + 1
    else 0

/-- While the loop of `parse_array` runs. -/
def elementsDepth (M : Machine) : Nat → Bytes → Nat
  | 0, _ => 0
  | fuel + 1, value =>
    max (valueDepth M fuel (skip value))
      (match textAfter 44 (parseValue M fuel (skip value)) with
      | none => 0
      | some t => elementsDepth M fuel t)

/-- While the loop of `parse_object` runs. -/
def membersDepth (M : Machine) : Nat → Bytes → Nat
  | 0, _ => 0
  | fuel + 1, value =>
    match textAfter 58 (parseString (skip value)) with
    | none => 0
    | some t =>
      max (valueDepth M fuel (skip t))
        (match textAfter 44 (parseValue M fuel (skip t)) with
        | none => 0
        | some t => membersDepth M fuel t)

end

/-- The same for `tretap_CJson_Parse`. `tretap_CJson_Delete` goes no deeper. -/
def readingDepth (M : Machine) (value : CStr) : Nat :=
  valueDepth M (2 * value.toBytes.length + 2) (skip value.toBytes)

/-- A call that goes `depth` deep, on a stack with room for `stack` levels. -/
def onStack {α : Type} (stack depth : Nat) (r : Except Fault α) : Except Stop α :=
  if stack < depth then .error .stackOverflow else r.mapError .fault

theorem onStack_of_le {α : Type} {stack depth : Nat} (h : depth ≤ stack) (r : Except Fault α) :
    onStack stack depth r = r.mapError .fault := if_neg (Nat.not_lt.mpr h)

end DdnsCloudTencent
