import DdnsCloudTencent.Lib.Printf
import DdnsCloudTencent.Util.CJson

/-!
# Printing a tree (util/tretap_CJSON.c)

The library prints in two ways. `tretap_CJson_Print` and `_PrintUnformatted`
(`printValue`) allocate every text on its own, after computing its size;
`tretap_CJson_PrintBuffered` (`printValueTo`) writes into one buffer that `ensure`
makes larger. Both are modelled down to the allocated sizes: a text that does not
fit is a `Fault.bufferOverrun`, a size that does not fit an `int` a
`Fault.intOverflow`.

A number, a string and a literal ask for the same number of bytes and write the
same text in both ways; `printNumber` and `printStringPtr` give the two.
-/

namespace DdnsCloudTencent

open Cxx

/-- `DBL_EPSILON`. -/
def dblEpsilon : Double := .finite (1 / 2 ^ 52)

/-- `print_number` (tretap_CJSON.c:150): the bytes asked for, and the text. -/
def printNumber (valueint : Int32) (d : Double) : Nat × Bytes :=
  if d = .finite 0 then (2, bytes "0")
  else if ((Double.finite valueint.toInt).sub d).abs.le dblEpsilon ∧
      d.le (.finite 2147483647) ∧ Double.le (.finite (-2147483648)) d then
    (21, printfD valueint.toInt)
  else
    (64,
      if (d.floor.sub d).abs.le dblEpsilon ∧ d.abs.lt (.round (10 ^ 60)) then printfF 0 d
      else if d.abs.lt (.round (1 / 10 ^ 6)) ∨ Double.lt (.round (10 ^ 9)) d.abs then printfE d
      else printfF 6 d)

/-- The counting loop of `print_string_ptr` (tretap_CJSON.c:281). -/
def escapedLength (str : Bytes) : Nat :=
  (str.map fun token =>
    if token ∈ bytes "\"\\\x08\x0c\n\r\t" then 2 else if token < 32 then 6 else 1).sum

/-- What `print_string_ptr` writes for one byte (tretap_CJSON.c:291). -/
def escapeChar (c : UInt8) : Bytes :=
  if 31 < c ∧ c ≠ quote ∧ c ≠ backslash then [c]
  else backslash ::
    (if c = backslash then [backslash] else if c = quote then [quote]
    else if c = 8 then bytes "b" else if c = 12 then bytes "f" else if c = 10 then bytes "n"
    else if c = 13 then bytes "r" else if c = 9 then bytes "t"
    -- `u%04x`
    else 117 :: (List.replicate (4 - (numeral 16 c.toNat).length) 48 ++ numeral 16 c.toNat))

/-- `print_string_ptr` (tretap_CJSON.c:255) of a non-NULL string. -/
def printStringPtr (str : CStr) : Nat × Bytes :=
  let s := str.toBytes
  -- a `char` is signed: the bytes from 128 on are below zero and not escaped
  if s.any fun c => c < 32 || c == quote || c == backslash then
    (escapedLength s + 3, quote :: s.flatMap escapeChar ++ [quote])
  else (s.length + 3, quote :: s ++ [quote])

/-- A run of tabs. -/
def tabs (n : Nat) : Bytes := List.replicate n 9

/-- The empty object (tretap_CJSON.c:560). -/
def emptyObject (fmt : Bool) (depth : Nat) : Nat × Bytes :=
  if fmt then (depth + 4, 123 :: 10 :: (tabs (depth - 1) ++ [125])) else (3, [123, 125])

/-! ## A text for every node -/

/-- `malloc(len)`, filled with a text and its terminator. -/
def place (len : Nat) (text : Bytes) : Except Fault CStr :=
  if 2 ^ 31 ≤ len then .error .intOverflow
  else if len < text.length + 1 then .error .bufferOverrun
  else .ok (cStr text)

/-- The loop that composes an array (tretap_CJSON.c:502). -/
def composeEntries (fmt : Bool) : List Bytes → Bytes
  | [] => []
  | entry :: entries =>
    entry ++ (if entries = [] then [] else if fmt then [44, 32] else [44]) ++
      composeEntries fmt entries

/-- `print_array` (tretap_CJSON.c:435) with the texts of its entries. -/
def printArray (fmt : Bool) (entries : List CStr) : Except Fault CStr :=
  if entries = [] then place 3 [91, 93]
  else
    let len := 5 + (entries.map fun e => e.toBytes.length + 2 + if fmt then 1 else 0).sum
    place len (91 :: composeEntries fmt (entries.map (·.toBytes)) ++ [93])

/-- The loop that composes an object (tretap_CJSON.c:643). -/
def composeMembers (fmt : Bool) (depth : Nat) : List (Bytes × Bytes) → Bytes
  | [] => []
  | (name, entry) :: members =>
    (if fmt then tabs depth else []) ++ name ++ (if fmt then [58, 9] else [58]) ++ entry ++
      (if members = [] then [] else [44]) ++ (if fmt then [10] else []) ++
      composeMembers fmt depth members

/-- `print_object` (tretap_CJSON.c:551) with the texts of its members; `depth` is
that of the object. -/
def printObject (fmt : Bool) (depth : Nat) (members : List (CStr × CStr)) : Except Fault CStr :=
  if members = [] then place (emptyObject fmt depth).1 (emptyObject fmt depth).2
  else
    let depth := depth + 1
    let len := 7 + (if fmt then depth else 0) + (members.map fun m =>
      m.2.toBytes.length + m.1.toBytes.length + 2 + if fmt then 2 + depth else 0).sum
    place len ((if fmt then [123, 10] else [123]) ++
      composeMembers fmt depth (members.map fun m => (m.1.toBytes, m.2.toBytes)) ++
      (if fmt then tabs (depth - 1) else []) ++ [125])

mutual

/-- `print_value` (tretap_CJSON.c:373) without a buffer. -/
def printValue (fmt : Bool) : CJson → Nat → Except Fault CStr
  | .null, _ => place 5 (bytes "null")
  | .false, _ => place 6 (bytes "false")
  | .true, _ => place 5 (bytes "true")
  | .number valueint valuedouble, _ =>
    place (printNumber valueint valuedouble).1 (printNumber valueint valuedouble).2
  | .string valuestring, _ => place (printStringPtr valuestring).1 (printStringPtr valuestring).2
  | .array child, depth => do printArray fmt (← printEntries fmt child (depth + 1))
  | .object child, depth => do printObject fmt depth (← printMembers fmt child (depth + 1))

/-- The results for an array's children (tretap_CJSON.c:478). -/
def printEntries (fmt : Bool) : List CJson → Nat → Except Fault (List CStr)
  | [], _ => .ok []
  | child :: cs, depth => do
    let ret ← printValue fmt child depth
    .ok (ret :: (← printEntries fmt cs depth))

/-- The results for an object's children, with their names (tretap_CJSON.c:621). -/
def printMembers (fmt : Bool) : List (CStr × CJson) → Nat → Except Fault (List (CStr × CStr))
  | [], _ => .ok []
  | (name, child) :: cs, depth => do
    let str ← place (printStringPtr name).1 (printStringPtr name).2
    let ret ← printValue fmt child depth
    .ok ((str, ret) :: (← printMembers fmt cs depth))

end

/-- `tretap_CJson_Print` (tretap_CJSON.c:343). -/
def tretapCJsonPrint (item : CJson) : Except Fault CStr := printValue true item 0

/-- `tretap_CJson_PrintUnformatted` (tretap_CJSON.c:344). -/
def tretapCJsonPrintUnformatted (item : CJson) : Except Fault CStr := printValue false item 0

/-! ## One buffer for the whole tree -/

/-- `malloc` of the sizes that an `int` has, which never fails here. The new memory
holds anything, of which the zeros of `ddns_mem_alloc` are one case. -/
structure Malloc where
  contents : Nat → Bytes
  length_contents : ∀ n, (contents n).length = n

/-- `printbuffer` (tretap_CJSON.c:122); its `length` is that of `buffer`. -/
structure Printbuffer where
  buffer : Bytes
  offset : Nat

/-- `pow2gt` (tretap_CJSON.c:120) of a positive number up to 2^30. -/
def pow2gt (x : Nat) : Nat :=
  let x := x - 1
  let x := x ||| x >>> 1
  let x := x ||| x >>> 2
  let x := x ||| x >>> 4
  let x := x ||| x >>> 8
  let x := x ||| x >>> 16
  x + 1

namespace Printbuffer

/-- `ensure` (tretap_CJSON.c:124) of a buffer that is not `NULL`. The new size is not 0. -/
def ensure (A : Malloc) (p : Printbuffer) (needed : Nat) : Except Fault Printbuffer :=
  let needed := needed + p.offset
  if needed ≤ p.buffer.length then .ok p
  else if 2 ^ 30 < needed then .error .intOverflow
  else .ok { p with buffer := p.buffer ++ (A.contents (pow2gt needed)).drop p.buffer.length }

/-- Writing at the offset. -/
def put (p : Printbuffer) (text : Bytes) : Except Fault Printbuffer :=
  if p.buffer.length < p.offset + text.length then .error .bufferOverrun
  else .ok { p with
    buffer := p.buffer.take p.offset ++ text ++ p.buffer.drop (p.offset + text.length) }

/-- `p->offset+=n`. -/
def advance (p : Printbuffer) (n : Nat) : Printbuffer := { p with offset := p.offset + n }

/-- The C string at a place of the buffer. -/
def cStringAt (p : Printbuffer) (i : Nat) : Except Fault CStr :=
  if 0 ∈ p.buffer.drop i then .ok (cStr (p.buffer.drop i)) else .error .strayRead

/-- `p->offset=update(p)` (tretap_CJSON.c:141). -/
def update (p : Printbuffer) : Except Fault Printbuffer := do
  let str ← p.cStringAt p.offset
  .ok (p.advance str.toBytes.length)

/-- A text with its terminator in the bytes that were asked for, and where it stands. -/
def leaf (A : Malloc) (p : Printbuffer) (x : Nat × Bytes) : Except Fault (Printbuffer × Nat) := do
  let p ← p.ensure A x.1
  let p ← p.put (x.2 ++ [0])
  .ok (p, p.offset)

/-- A text in the bytes that were asked for, and the offset moved over `n` of them. -/
def write (A : Malloc) (p : Printbuffer) (needed : Nat) (text : Bytes) (n : Nat) :
    Except Fault Printbuffer := do
  let p ← p.ensure A needed
  let p ← p.put text
  .ok (p.advance n)

end Printbuffer

mutual

/-- `print_value` with a buffer: the buffer, and where the returned pointer points. -/
def printValueTo (A : Malloc) (fmt : Bool) :
    CJson → Nat → Printbuffer → Except Fault (Printbuffer × Nat)
  | .null, _, p => p.leaf A (5, bytes "null")
  | .false, _, p => p.leaf A (6, bytes "false")
  | .true, _, p => p.leaf A (5, bytes "true")
  | .number valueint valuedouble, _, p => p.leaf A (printNumber valueint valuedouble)
  | .string valuestring, _, p => p.leaf A (printStringPtr valuestring)
  | .array [], _, p => p.leaf A (3, [91, 93])
  | .array (child :: cs), depth, p => do
    let i := p.offset
    let p ← p.write A 1 [91] 1
    let p ← printEntriesTo A fmt (child :: cs) (depth + 1) p
    let p ← p.write A 2 [93, 0] 0
    .ok (p, i)
  | .object [], depth, p => p.leaf A (emptyObject fmt depth)
  | .object (child :: cs), depth, p => do
    let i := p.offset
    let len := if fmt then 2 else 1
    let p ← p.write A (len + 1) ((if fmt then [123, 10] else [123]) ++ [0]) len
    let depth := depth + 1
    let p ← printMembersTo A fmt (child :: cs) depth p
    let p ← p.write A (if fmt then depth + 1 else 2)
      ((if fmt then tabs (depth - 1) else []) ++ [125, 0]) 0
    -- the loop that writes the tabs counts in `i`
    .ok (p, if fmt then depth - 1 else i)

/-- The loop of `print_array` over the buffer (tretap_CJSON.c:460). -/
def printEntriesTo (A : Malloc) (fmt : Bool) :
    List CJson → Nat → Printbuffer → Except Fault Printbuffer
  | [], _, p => .ok p
  | child :: cs, depth, p => do
    let (p, _) ← printValueTo A fmt child depth p
    let p ← p.update
    let len := if fmt then 2 else 1
    let p ← if cs.isEmpty then .ok p
      else p.write A (len + 1) ((if fmt then [44, 32] else [44]) ++ [0]) len
    printEntriesTo A fmt cs depth p

/-- The loop of `print_object` over the buffer (tretap_CJSON.c:578). -/
def printMembersTo (A : Malloc) (fmt : Bool) :
    List (CStr × CJson) → Nat → Printbuffer → Except Fault Printbuffer
  | [], _, p => .ok p
  | (name, child) :: cs, depth, p => do
    let p ← if fmt then p.write A depth (tabs depth) depth else .ok p
    let (p, _) ← p.leaf A (printStringPtr name)
    let p ← p.update
    let len := if fmt then 2 else 1
    let p ← p.write A len (if fmt then [58, 9] else [58]) len
    let (p, _) ← printValueTo A fmt child depth p
    let p ← p.update
    let len := (if fmt then 1 else 0) + if cs.isEmpty then 0 else 1
    let p ← p.write A (len + 1)
      ((if cs.isEmpty then [] else [44]) ++ (if fmt then [10] else []) ++ [0]) len
    printMembersTo A fmt cs depth p

end

/-- Where the loops of `tretap_CJson_Minify` are. -/
inductive MinifyState where
  | text
  | string
  | lineComment
  | blockComment

/-- `tretap_CJson_Minify` (tretap_CJSON.c:755). It works in place, but `into` never
overtakes `json`. A string or a block comment without its end takes the pointer over
the terminator. -/
def minifyFrom : MinifyState → Bytes → Except Fault Bytes
  | .text, [] => .ok []
  | .text, c :: json =>
    if c = 32 ∨ c = 9 ∨ c = 13 ∨ c = 10 then minifyFrom .text json
    else if c = 47 ∧ json.head? = some 47 then minifyFrom .lineComment json
    else if c = 47 ∧ json.head? = some 42 then minifyFrom .blockComment json
    else if c = quote then (minifyFrom .string json).map (c :: ·)
    else (minifyFrom .text json).map (c :: ·)
  | .string, [] => .error .strayRead
  | .string, [c] => if c = quote then .ok [c] else .error .strayRead
  | .string, c :: d :: json =>
    if c = quote then (minifyFrom .text (d :: json)).map (c :: ·)
    else if c = backslash then (minifyFrom .string json).map fun into => c :: d :: into
    else (minifyFrom .string (d :: json)).map (c :: ·)
  | .lineComment, [] => .ok []
  -- the line's end is white space
  | .lineComment, c :: json =>
    if c = 10 then minifyFrom .text json else minifyFrom .lineComment json
  | .blockComment, [] => .error .strayRead
  | .blockComment, [_] => .error .strayRead
  | .blockComment, c :: d :: json =>
    if c = 42 ∧ d = 47 then minifyFrom .text json else minifyFrom .blockComment (d :: json)

/-- The text after the call. -/
def tretapCJsonMinify (json : CStr) : Except Fault Bytes := minifyFrom .text json.toBytes

end DdnsCloudTencent
