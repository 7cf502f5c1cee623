import DdcControl.Capabilities.Patch
import DdcControl.Library.Utf8

/-!
# Capabilities as received

A monitor's reply is a byte string, and the two programs prepare it for the parser each
in its own way. The library (`ddcci_caps`) masks the payloads of binary sections, ends
the text at the first NUL, as a C string ends there, and reads it with
`to_string_lossy`; the scanner (`read_capabilities`) insists on UTF-8 and parses the
whole of it.

## The model

`ddcci_normalize_caps` walks a buffer that a NUL follows; here it walks the bytes not
read yet, and the end of the list stands for that NUL. Its loop takes `fuel`, one unit a
pass, and a pass reads at least one byte (`normalizeLoop_of_le`). `strtol` is the C
library's with base 0, in the C locale and with 64-bit `long`: it returns the number it
read, in range or not, and how many bytes it used; `ERANGE` is a number out of range.
-/

namespace DdcControl.Capabilities

/-! ### `strtol` -/

/-- `isspace`. -/
def isCSpace (byte : UInt8) : Bool := (9 ≤ byte && byte ≤ 13) || byte = 32

/-- A sign. -/
def isSign (byte : UInt8) : Bool := byte = '+'.toUInt8 || byte = '-'.toUInt8

/-- A digit of `radix`, which is 8, 10 or 16. -/
def isDigitOf (radix : ℕ) (byte : UInt8) : Bool := isHexdigit byte && (hexNibble byte).toNat < radix

/-- `0x`, where a hexadecimal digit follows. -/
def hexPrefix : List UInt8 → List UInt8
  | zero :: x :: digit :: _ =>
    if zero = '0'.toUInt8 && (x = 'x'.toUInt8 || x = 'X'.toUInt8) && isHexdigit digit then [zero, x] else []
  | _ => []

/-- The radix of a number written with the prefix before `digits`. -/
def radixOf (hex digits : List UInt8) : ℕ :=
  if !hex.isEmpty then 16 else if digits.head? = some '0'.toUInt8 then 8 else 10

/-- `strtol(s, &endptr, 0)`: the number, and `endptr - s`; `none` when `endptr` is `s`. As in
C11: with `_GNU_SOURCE`, glibc reads `0b` as a prefix too, from 2.38 on. -/
def strtol (s : List UInt8) : Option (ℤ × ℕ) :=
  let spaces := s.takeWhile isCSpace
  let s := s.drop spaces.length
  let sign := (s.take 1).filter isSign
  let s := s.drop sign.length
  let hex := hexPrefix s
  let s := s.drop hex.length
  let digits := s.takeWhile (isDigitOf (radixOf hex s))
  if digits.isEmpty then none
  else
    let value : ℕ := digits.foldl (fun value byte => radixOf hex s * value + (hexNibble byte).toNat) 0
    some (if sign = ['-'.toUInt8] then -value else value,
      spaces.length + sign.length + hex.length + digits.length)

example : strtol (utf8 " 0x1f(") = some (31, 5) := by decide
example : strtol (utf8 "010(") = some (8, 3) := by decide
example : strtol (utf8 "(3") = none := by decide

/-! ### The library -/

/-- `#`, which stands for the bytes of a payload. -/
def mask : UInt8 := '#'.toUInt8

/-- The length that a binary section declares, and how many bytes declare it; `none` when
the section is refused. `number` is what follows `bin(`. -/
def binaryLength (number : List UInt8) : Option (ℕ × ℕ) :=
  match strtol number with
  | none => none
  | some (binaryLen, used) =>
    if binaryLen < -2 ^ 63 ∨ 2 ^ 63 ≤ binaryLen then none -- `errno == ERANGE`
    else if binaryLen < 0 ∨ (number.drop used).head? ≠ some openParen then none
    else if (number.drop (used + 1)).length < binaryLen.toNat then none
    else some (binaryLen.toNat, used)

/-- The loop of `ddcci_normalize_caps`, from the bytes at `pos` on. -/
def normalizeLoop : ℕ → List UInt8 → Option (List UInt8)
  | _, [] => some []
  | 0, _ => none
  | fuel + 1, byte :: rest =>
    if byte = 0 then some (byte :: rest)
    else if !(utf8 "bin(").isPrefixOf (byte :: rest) then do
      let rest ← normalizeLoop fuel rest
      return byte :: rest
    else do
      let number := (byte :: rest).drop 4
      let (binaryLen, used) ← binaryLength number
      let rest ← normalizeLoop fuel (number.drop (used + 1 + binaryLen))
      return utf8 "bin(" ++ number.take (used + 1) ++ List.replicate binaryLen mask ++ rest

/-- `ddcci_normalize_caps`: the buffer with its binary payloads masked. -/
def ddcciNormalizeCaps (rawCaps : List UInt8) : Option (List UInt8) := normalizeLoop rawCaps.length rawCaps

/-- The C string that a buffer holds. -/
def cString (buffer : List UInt8) : List UInt8 := buffer.takeWhile (· ≠ 0)

/-- `ddcci_parse_caps` in add mode: `ddccontrol_caps_parse` on a C string. -/
def ddcciParseCaps (capsStr : List UInt8) (caps : Caps) : Option Caps :=
  match caps.apply (Utf8.lossy capsStr) .add with
  | .error _ => none
  | .ok (caps, count) => if asCInt count < 0 then none else some caps

/-- `ddcci_caps`, from the received bytes on, on an empty table. -/
def ddcciReceivedCaps (rawCaps : List UInt8) : Option Caps := do
  let text ← ddcciNormalizeCaps rawCaps
  ddcciParseCaps (cString text) .default

/-! ### The scanner -/

/-- Why the scanner has no capabilities. -/
inductive ScannerError where
  | notUtf8
  | parse (error : ParseError)
  deriving DecidableEq, Repr

/-- `read_capabilities`, once the bytes have arrived: `String::from_utf8`. -/
def readCapabilities (bytes : List UInt8) : Except ScannerError (List UInt8) :=
  if Utf8.isValid bytes then .ok bytes else .error .notUtf8

/-- The scanner's capabilities: `read_capabilities`, then `Caps::parse`. -/
def scannerCaps (rawCaps : List UInt8) : Except ScannerError Caps := do
  let capabilities ← readCapabilities rawCaps
  (Caps.parse capabilities).mapError .parse

end DdcControl.Capabilities
