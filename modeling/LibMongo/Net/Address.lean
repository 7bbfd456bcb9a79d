import LibMongo.Wire.Packet

/-!
# Addresses

`mongo_util_parse_addr` of `mongo-utils.c`, and the seed strings that
`mongo-sync.c` makes of a host and a port.  `strtol` is the one of a host with
64-bit `long`.
-/

namespace LibMongo

open Bytes

/-! ## Numbers in decimal -/

/-- `isspace` in the C locale. -/
def isSpace (b : UInt8) : Bool := b == 32 || (9 ≤ b && b ≤ 13)

/-- An ASCII digit. -/
def isDigit (b : UInt8) : Bool := 48 ≤ b && b ≤ 57

/-- The value of a string of digits. -/
def digitsValue (ds : Bytes) : Nat := ds.foldl (fun n d => 10 * n + (d.toNat - 48)) 0

/-- The sign in front of a number, and what comes after it. -/
def splitSign : Bytes → Bool × Bytes
  | 45 :: rest => (true, rest)
  | 43 :: rest => (false, rest)
  | s => (false, s)

/-- `strtol` in base ten: the value, kept in the range of a `long`, and the end
pointer.  Without digits the end pointer is where the number should have started. -/
def strtol (s : Bytes) : Int × Bytes :=
  let (negative, digits) := splitSign (s.dropWhile isSpace)
  if digits.takeWhile isDigit = [] then (0, s)
  else
    let n : Int := digitsValue (digits.takeWhile isDigit)
    let value := if negative then -n else n
    (max (-9223372036854775808) (min value 9223372036854775807), digits.dropWhile isDigit)

/-- The digits of a number, of which there are at most as many as the fuel. -/
def decimalDigits : Nat → Nat → Bytes
  | 0, _ => []
  | fuel + 1, n =>
      if n < 10 then [UInt8.ofNat (48 + n)]
      else decimalDigits fuel (n / 10) ++ [UInt8.ofNat (48 + n % 10)]

/-- The conversion `%d`. -/
def formatInt (i : Int) : Bytes :=
  if i < 0 then 45 :: decimalDigits (i.natAbs + 1) i.natAbs
  else decimalDigits (i.toNat + 1) i.toNat

/-- The conversion `%s:%d`. -/
def formatAddr (host : CString) (port : Int) : CString :=
  CString.ofBytes (host.bytes ++ 58 :: formatInt port)

/-! ## Parsing -/

/-- `MONGO_CONN_LOCAL`. -/
def mongoConnLocal : Int := -1

/-- What `mongo_util_parse_addr` does once it has split off the port. -/
def parsePort (host : CString) (portS : Bytes) : Except Errno (CString × Int) :=
  let (p, ep) := strtol portS
  if p = -9223372036854775808 ∨ p = 9223372036854775807 then .error .ERANGE
  else if p ≠ mongoConnLocal ∧ (p < 0 ∨ 2147483647 < p) then .error .ERANGE
  else if ep ≠ [] then .error .EINVAL
  else .ok (host, p)

/-- Where the last `':'` of a string is. -/
def lastColon (s : Bytes) : Option Nat :=
  (s.reverse.findIdx? (· == 58)).map fun i => s.length - 1 - i

/-- An IPv6 address stands in brackets. -/
def mongoUtilParseAddr (addr : CString) : Except Errno (CString × Int) :=
  match addr.bytes with
  | 91 :: rest =>
      match rest.findIdx? (· == 93) with
      | none => .error .EINVAL
      | some 0 => .error .EINVAL
      | some i =>
          let host := CString.ofBytes (rest.take i)
          if addr.length ≤ i + 3 then .ok (host, -1)
          else parsePort host (rest.drop (i + 2))
  | s =>
      match lastColon s with
      | none => .ok (addr, -1)
      | some 0 => .error .EINVAL
      | some i => parsePort (CString.ofBytes (s.take i)) (s.drop (i + 1))

end LibMongo
