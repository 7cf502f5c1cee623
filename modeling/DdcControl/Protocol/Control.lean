import DdcControl.Protocol.Exchange

/-!
# Reading and writing a control

`ddcci_readctrl` and `ddcci_writectrl`, of a monitor opened on its device. A control is
a byte and a value has 16 bits; how long a write is waited for is left out.
-/

namespace DdcControl.Protocol

open Fallible

section Bus

variable {σ : Type} (bus : Bus σ)

/-- What `ddcci_writectrl` sends. -/
def writeRequest (ctrl : UInt8) (value : UInt16) : List UInt8 := [0x03, ctrl, (value >>> 8).toUInt8, (value &&& 255).toUInt8]

/-- `ddcci_writectrl`, and whether it returns 0. -/
def ddcciWritectrl (ctrl : UInt8) (value : UInt16) (device : σ) : Bool × σ := ddcciWrite bus (writeRequest ctrl value) device

/-- `ddccontrol_ddcci_parse_vcp`. -/
def ddcciParseVcp (payload : List UInt8) (control : UInt8) : Option VcpReply := (parseVcpReply payload control).toOption

/-- `ddcci_readctrl`, and what it stored. -/
def ddcciReadctrl (ctrl : UInt8) (s : Traced σ) : Option VcpReply × Traced σ :=
  match ddcciRawReadctrl bus ctrl 8 s with
  | (none, s) => (none, s)
  | (some buf, s) => (ddcciParseVcp buf ctrl, s)

/-- `ddcci_command`. -/
def ddcciCommand (cmd : UInt8) (device : σ) : Bool × σ := ddcciWrite bus [cmd] device

/-- The reply a transaction gave to a read of a control. -/
def Transaction.vcp (t : Transaction) (ctrl : UInt8) : Option VcpReply := t.reply.bind fun payload => ddcciParseVcp payload ctrl

end Bus

/-- A value is sent as its two bytes. -/
theorem writeRequest_toNat (ctrl : UInt8) (value : UInt16) :
    (writeRequest ctrl value).map UInt8.toNat = [3, ctrl.toNat, value.toNat / 256,
      value.toNat % 256] := by
  have hlow : value.toNat &&& 255 = value.toNat % 256 :=
    Nat.and_two_pow_sub_one_eq_mod value.toNat 8
  have hvalue := value.toNat_lt
  simp only [writeRequest, List.map_cons, List.map_nil, UInt16.toNat_toUInt8, UInt16.toNat_and,
    UInt16.toNat_shiftRight]
  have hhigh : value.toNat >>> 8 = value.toNat / 256 := Nat.shiftRight_eq_div_pow _ _
  simp [hlow, hhigh]
  omega

end DdcControl.Protocol
