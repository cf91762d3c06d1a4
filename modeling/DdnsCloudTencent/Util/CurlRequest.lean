import DdnsCloudTencent.Lib.Binary64
import DdnsCloudTencent.Lib.ByteString

/-!
# The program and its surroundings (util/curl_request_api.cpp)

`Env` is everything the program calls that is not its own code: the network
behind libcurl, the clock and the calendar, the two OpenSSL digests, and what
the C++ standard leaves to the machine. The network is an arbitrary automaton
over a state of its own, so that a theorem over every `Env` speaks about every
server and every sequence of replies, transfer errors included.

`World` is what the program's calls change out there: the network's state, the
requests sent so far and the number of clock readings. `curlRequest` returns
the bytes received whatever the result code is, as the source does.
-/

namespace DdnsCloudTencent

open Cxx

/-- What `curl_request` hands to libcurl. -/
structure Request where
  url : CStr
  method : Bytes
  postFields : Option CStr
  headers : List CStr
deriving DecidableEq

/-- Outcome of `curl_easy_perform`: `res == CURLE_OK`, and the bytes the write
callback received before it returned. -/
structure Transfer where
  ok : Bool
  body : Bytes

/-- What the language leaves to the platform: conversions of a `double` that is
out of range, `pow` with base 10, the contents of an uninitialised `in_addr`. -/
structure Machine where
  wideInt : Double → Int32
  wideUInt64 : Double → UInt64
  pow10 : ℤ → Double
  inAddr : BitVec 32

/-- `(int)d`. -/
def Machine.toInt32 (M : Machine) (d : Double) : Int32 :=
  match d.trunc with
  | some k => if -2 ^ 31 ≤ k ∧ k < 2 ^ 31 then Int32.ofInt k else M.wideInt d
  | none => M.wideInt d

/-- `static_cast<uint64_t>(d)`. -/
def Machine.toUInt64 (M : Machine) (d : Double) : UInt64 :=
  match d.trunc with
  | some k => if 0 ≤ k ∧ k < 2 ^ 64 then UInt64.ofNat k.toNat else M.wideUInt64 d
  | none => M.wideUInt64 d

/-- The calendar fields of `struct tm` that `%Y-%m-%d` prints. -/
structure Tm where
  year : Nat
  mon : Nat
  mday : Nat

/-- The program's surroundings. -/
structure Env (σ : Type) where
  perform : Request → σ → Transfer × σ
  time : Nat → Nat
  gmtime : Nat → Tm
  sha256 : Bytes → Vector UInt8 32
  hmacSha256 : Bytes → Bytes → Vector UInt8 32
  machine : Machine

/-- The surroundings' state, as far as the program changes or sees it. -/
structure World (σ : Type) where
  net : σ
  sent : List Request
  ticks : Nat

variable {σ : Type}

/-- `curl_request` (curl_request_api.cpp:10): libcurl copies the C strings it is
handed, and the body comes back whether or not the transfer succeeded. -/
def curlRequest (E : Env σ) (url : Bytes) (method : Bytes) (postFields : Option Bytes)
    (headers : List CStr) (w : World σ) : Bytes × World σ :=
  let r : Request := ⟨cStr url, method, postFields.map cStr, headers⟩
  let t := E.perform r w.net
  (t.1.body, { w with net := t.2, sent := w.sent ++ [r] })

/-- `time(nullptr)`. -/
def readClock (E : Env σ) (w : World σ) : Nat × World σ :=
  (E.time w.ticks, { w with ticks := w.ticks + 1 })

/-- The value of the first header line `name: value`. -/
def Request.header (r : Request) (name : Bytes) : Option Bytes :=
  (r.headers.find? fun h => (name ++ bytes ": ").isPrefixOf h.toBytes).map fun h =>
    h.toBytes.drop (name.length + 2)

/-- The API action a request names, `none` for the plain IP checks. -/
def Request.action (r : Request) : Option Bytes := r.header (bytes "X-TC-Action")

/-- A natural below 2^53 passes through a `double` unchanged. -/
theorem Machine.toUInt64_ofNat (M : Machine) {n : Nat} (h : n < 2 ^ 53) :
    M.toUInt64 (.ofNat n) = UInt64.ofNat n := by
  have hrange : (0 : ℤ) ≤ (n : ℤ) ∧ (n : ℤ) < 2 ^ 64 := by omega
  unfold Machine.toUInt64
  rw [Double.trunc_ofNat]
  simp only [hrange, and_self, if_true, Int.toNat_natCast]

end DdnsCloudTencent
