import DdnsCloudTencent.Lib.Runs
import DdnsCloudTencent.Theory.Decoding

/-!
# Sequences of operations on the client

`Operation` lists the public operations of `cloudTencent_dnspod`. A sequence of
them is a run of `callStep`, which stops at a fault.
`foldl_callStep_preserves` is the induction over a sequence.
-/

namespace DdnsCloudTencent

open Cxx

variable {σ : Type}

/-- A call of an operation of the client. -/
inductive Operation where
  | domainList
  | recordList
  | recordLineList
  | recordListFilter
  | recordDelete (domain : Bytes) (recordId : UInt32)
  | recordDeleteRemainOne
  | recordModify (ipType : Dnspod.IpType) (ipAddr : Bytes)
  | recordTXTModify (ipType : Dnspod.IpType) (ipAddr : Bytes)

/-- The call itself, without its return value. -/
def Operation.call (E : Env σ) (g : Config) (s : Session σ) :
    Operation → Except Fault Unit × Session σ
  | .domainList => ((dnspodDomainList E g s).1.map fun _ => (), (dnspodDomainList E g s).2)
  | .recordList => (.ok (), (dnspodRecordList E g s).2)
  | .recordLineList => (.ok (), (dnspodRecordLineList E g s).2)
  | .recordListFilter =>
    ((dnspodRecordListFilter E g s).1.map fun _ => (), (dnspodRecordListFilter E g s).2)
  | .recordDelete domain id => (.ok (), (dnspodRecordDelete E domain id s).2)
  | .recordDeleteRemainOne => (.ok (), DdnsCloudTencent.recordDeleteRemainOne E g s)
  | .recordModify t ip => (.ok (), (dnspodRecordModify E g t ip s).2)
  | .recordTXTModify t ip => (.ok (), (dnspodRecordTXTModify E g t ip s).2)

/-- One call of a sequence: none is made after a fault. -/
def callStep (E : Env σ) (g : Config) (p : Except Fault Unit × Session σ) (op : Operation) :
    Except Fault Unit × Session σ :=
  match p.1 with
  | .error _ => p
  | .ok () => op.call E g p.2

/-- A property of the session that every call keeps holds after any sequence. -/
theorem foldl_callStep_preserves {E : Env σ} {g : Config} {P : Session σ → Prop}
    {ops : List Operation} (hcall : ∀ op ∈ ops, ∀ s, P s → P (op.call E g s).2)
    (p : Except Fault Unit × Session σ) (hp : P p.2) : P (ops.foldl (callStep E g) p).2 := by
  induction ops generalizing p with
  | nil => exact hp
  | cons op ops ih =>
    refine ih (fun op' h => hcall op' (List.mem_cons_of_mem op h)) _ ?_
    unfold callStep
    cases p.1 with
    | error f => exact hp
    | ok u => exact hcall op List.mem_cons_self p.2 hp

end DdnsCloudTencent
