import DdcControl.Protocol.Logged
import DdcControl.Scanner.Generate

/-!
# Reading a control

`read_control` of the scanner tries an exchange three times, until the reply to it is one
to a read of the control. A monitor that is slow may answer a request that came before.

Proved here: what is reported by it, and by `ddcci_readctrl` of the library, is what the
answer to the last transaction says, which was heard on the bus in this very call.
-/

namespace DdcControl.Scanner

open Protocol

section ReadControl

variable {σ : Type} (bus : Bus σ)

/-- What is reported of a reply: a reading, or none if the control is not supported. -/
def reported (reply : VcpReply) : Option Reading := if reply.supported then some ⟨reply.value, reply.maximum⟩ else none

/-- The operation `read_control` tries. -/
def tryControl (code : UInt8) (s : Traced σ) : Except ExchangeError (Option Reading) × Traced σ :=
  match exchange bus [0x01, code] 8 s with
  | (.error e, s) => (.error e, s)
  | (.ok reply, s) => (((parseVcpReply reply code).mapError .control).map reported, s)

/-- `read_control`. -/
def readControl (code : UInt8) (s : Traced σ) : Except ExchangeError (Option Reading) × Traced σ := retry (tryControl bus code) s

/-- A try is one transaction. -/
theorem tryControl_logged (code : UInt8) (s : Traced (σ × List BusEvent)) :
    ∃ heard : Heard, (tryControl bus.logged code s).1.toOption = (heard.vcp code).map reported ∧
      (tryControl bus.logged code s).2.log = s.log ++ heard.events [0x01, code] := by
  obtain ⟨heard, hresult, hlog⟩ := exchange_logged bus (show [0x01,
    code].length ≤ maxPayloadLen by simp [maxPayloadLen]) 8 s
  refine ⟨heard, ?_⟩
  unfold tryControl Heard.vcp
  rw [← hresult, ← hlog]
  rcases exchange bus.logged [0x01, code] 8 s with ⟨e | payload, s'⟩
  · exact ⟨rfl, rfl⟩
  · refine ⟨?_, rfl⟩
    dsimp only [ddcciParseVcp, Except.toOption, Option.bind_some]
    cases parseVcpReply payload code <;> rfl

/-- **A reply is never taken for that of another control.** Whatever the bus does, the
scanner makes at most three transactions, each of which asks for the control. All but a
last one heard no answer of the control; the scanner reports something if and only if the
last one did, and then what the answer says, that the control is not supported included.
The library makes one transaction, and stores what its answer says. -/
theorem readControl_attributed (code : UInt8) (s : Traced (σ × List BusEvent)) :
    (∃ (failed : List Heard) (last : Option Heard), failed.length + last.toList.length ≤ 3 ∧
      (readControl bus.logged code s).2.log = s.log ++ (failed ++ last.toList).flatMap (Heard.events [0x01, code]) ∧
      (∀ bytes reply, .frame bytes ∈ failed → ¬Answers code bytes reply) ∧
      ∀ result, (readControl bus.logged code s).1 = .ok result ↔
        ∃ bytes reply, last = some (.frame bytes) ∧ Answers code bytes reply ∧ result = reported reply) ∧
    ∃ heard : Heard, (ddcciReadctrl bus.logged code s).2.log = s.log ++ heard.events [0x01, code] ∧
      ∀ reply, (ddcciReadctrl bus.logged code s).1 = some reply ↔ ∃ bytes, heard = .frame bytes ∧ Answers code bytes reply := by
  constructor
  · obtain ⟨failed, last, hresult, hlog, hlength, hfailed, -⟩ :=
      retryFrom_logged (tryControl_logged bus code) 3 .none s
    refine ⟨failed, last, hlength, hlog, fun bytes reply hmem hanswers => ?_, fun result => ?_⟩
    · have hnone := hfailed _ hmem
      rw [Heard.vcp_eq_some.mpr ⟨bytes, rfl, hanswers⟩] at hnone
      cases hnone
    · have hok : (readControl bus.logged code s).1 = .ok result ↔
          last.bind (fun heard => (heard.vcp code).map reported) = some result := by
        rw [← hresult]
        unfold readControl retry
        cases (retryFrom (tryControl bus.logged code) 3 .none s).1 <;> simp [Except.toOption]
      rw [hok]
      cases last with
      | none => simp
      | some heard =>
        simp only [Option.bind_some, Option.map_eq_some_iff, Heard.vcp_eq_some, Option.some.injEq]
        constructor
        · rintro ⟨reply, ⟨bytes, rfl, hanswers⟩, rfl⟩
          exact ⟨bytes, reply, rfl, hanswers, rfl⟩
        · rintro ⟨bytes, reply, rfl, hanswers, rfl⟩
          exact ⟨reply, ⟨bytes, rfl, hanswers⟩, rfl⟩
  · obtain ⟨heard, hresult, hlog⟩ := ddcciReadctrl_logged bus code s
    refine ⟨heard, hlog, fun reply => ?_⟩
    rw [hresult, Heard.vcp_eq_some]

end ReadControl

end DdcControl.Scanner
