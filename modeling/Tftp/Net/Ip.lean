import Tftp.Text.Decimal

namespace Tftp

inductive Ip where
  | v4 (a b c d : UInt8)
  | v6 (groups : Vector UInt16 8)
deriving DecidableEq, Repr

namespace Ip

def unspecified4 : Ip := v4 0 0 0 0

def unspecified6 : Ip := v6 (Vector.replicate 8 0)

def dotted (a b c d : UInt8) : String :=
  ".".intercalate ([a, b, c, d].map fun octet => toString octet.toNat)

def hexText (group : UInt16) : String :=
  String.ofList (Nat.toDigits 16 group.toNat)

def groupsText (groups : List UInt16) : String :=
  ":".intercalate (groups.map hexText)

structure Span where
  start : Nat := 0
  length : Nat := 0
deriving DecidableEq, Repr

/-- The longest run of zeros, the first of equals; `current` ends just before place `i`. -/
def longestZeros (i : Nat) (current longest : Span) : List UInt16 → Span
  | [] => longest
  | group :: groups =>
    if group = 0 then
      let current := if current.length = 0 then ⟨i, 1⟩ else { current with length := current.length + 1 }
      let longest := if longest.length < current.length then current else longest
      longestZeros (i + 1) current longest groups
    else longestZeros (i + 1) {} longest groups

def text6 (groups : List UInt16) : String :=
  match groups with
  | [0, 0, 0, 0, 0, 0xFFFF, high, low] =>
    "::ffff:" ++ dotted (high >>> 8).toUInt8 high.toUInt8 (low >>> 8).toUInt8 low.toUInt8
  | _ =>
    let zeros := longestZeros 0 {} {} groups
    if 1 < zeros.length then
      groupsText (groups.take zeros.start) ++ "::" ++ groupsText (groups.drop (zeros.start + zeros.length))
    else groupsText groups

def text : Ip → String
  | v4 a b c d => dotted a b c d
  | v6 groups => text6 groups.toList

abbrev Reader (α : Type) := List Char → Option (α × List Char)

def digitValue? (radix : Nat) (c : Char) : Option Nat :=
  let value :=
    if c.isDigit then c.toNat - '0'.toNat
    else if 'a' ≤ c ∧ c ≤ 'z' then c.toNat - 'a'.toNat + 10
    else if 'A' ≤ c ∧ c ≤ 'Z' then c.toNat - 'A'.toNat + 10
    else radix
  if value < radix then some value else none

def readDigits (radix : Nat) (value count : Nat) : List Char → Nat × Nat × List Char
  | [] => (value, count, [])
  | c :: cs =>
    match digitValue? radix c with
    | some digit => readDigits radix (value * radix + digit) (count + 1) cs
    | none => (value, count, c :: cs)

def readNumber (radix greatest : Nat) (maxDigits : Option Nat) (zeroPrefix : Bool) : Reader Nat :=
  fun cs =>
    let (value, count, rest) := readDigits radix 0 0 cs
    let tooLong := maxDigits.any (· < count)
    let refusedZero := !zeroPrefix && cs.head? == some '0' && 1 < count
    if count = 0 || tooLong || refusedZero || greatest < value then none else some (value, rest)

def readChar (c : Char) : Reader Unit
  | [] => none
  | d :: cs => if c = d then some ((), cs) else none

def readOctet : Reader UInt8 := fun cs => do
  let (value, rest) ← readNumber 10 255 (some 3) false cs
  return (value.toUInt8, rest)

def readOctets4 : Reader (UInt8 × UInt8 × UInt8 × UInt8) := fun cs => do
  let (a, cs) ← readOctet cs
  let (_, cs) ← readChar '.' cs
  let (b, cs) ← readOctet cs
  let (_, cs) ← readChar '.' cs
  let (c, cs) ← readOctet cs
  let (_, cs) ← readChar '.' cs
  let (d, cs) ← readOctet cs
  return ((a, b, c, d), cs)

def read4 : Reader Ip := fun cs => do
  let ((a, b, c, d), cs) ← readOctets4 cs
  return (v4 a b c d, cs)

def afterColon (first : Bool) {α : Type} (reader : Reader α) : Reader α := fun cs =>
  if first then reader cs else do
    let (_, cs) ← readChar ':' cs
    reader cs

def pairWord (high low : UInt8) : UInt16 :=
  high.toUInt16 <<< 8 ||| low.toUInt16

/-- Up to `limit` groups, the last two of which may be an IPv4 address with dots. Says whether
they are. -/
def readGroups (first : Bool) : Nat → List Char → List UInt16 × Bool × List Char
  | 0, cs => ([], false, cs)
  | limit + 1, cs =>
    match if limit = 0 then none else afterColon first readOctets4 cs with
    | some ((a, b, c, d), rest) => ([pairWord a b, pairWord c d], true, rest)
    | none =>
      match afterColon first (readNumber 16 0xFFFF (some 4) true) cs with
      | some (group, rest) =>
        let (groups, dots, rest) := readGroups false limit rest
        (group.toUInt16 :: groups, dots, rest)
      | none => ([], false, cs)

def ofGroups? (groups : List UInt16) : Option Ip :=
  if h : groups.toArray.size = 8 then some (v6 ⟨groups.toArray, h⟩) else none

def read6 : Reader Ip := fun cs => do
  let (head, dots, rest) := readGroups true 8 cs
  if head.length = 8 then
    return (← ofGroups? head, rest)
  if dots then none
  let (_, rest) ← readChar ':' rest
  let (_, rest) ← readChar ':' rest
  let (tail, _, rest) := readGroups true (8 - (head.length + 1)) rest
  let zeros := List.replicate (8 - head.length - tail.length) 0
  return (← ofGroups? (head ++ zeros ++ tail), rest)

def readIp : Reader Ip := fun cs => read4 cs <|> read6 cs

def parse? (s : String) : Option Ip :=
  match readIp s.toList with
  | some (ip, []) => some ip
  | _ => none

end Ip

end Tftp
