/-!
# Internet addresses

Addresses of the two generations, their text, and sockets, which are addresses
with a port.

* `Ip.parse` reads an address and `Ip.text` writes it.  An IPv6 address is
  written with its first longest run of two or more zero groups as `::`, and
  with an embedded IPv4 address when it is IPv4-mapped.
* `Socket.parse` and `Socket.text` do the same for sockets; an IPv6 address
  stands in brackets there and may have a scope.
-/

namespace FramedChannel

/-- An internet address. -/
inductive Ip where
  | v4 (a b c d : UInt8)
  /-- The eight groups of an IPv6 address. -/
  | v6 (groups : List UInt16)
  deriving DecidableEq, Repr

namespace Ip

/-- The address of the own host. -/
def loopback : Ip :=
  v4 127 0 0 1

/-! ## Reading

A reader takes the text from some place on and gives what it read with the
text behind it.
-/

/-- The character `mark`. -/
def readMark (mark : Char) : List Char → Option (List Char)
  | [] => none
  | c :: rest => if c = mark then some rest else none

/-- The value of a hexadecimal digit. -/
def hexValue (c : Char) : Option Nat :=
  let n := c.toNat
  if '0'.toNat ≤ n ∧ n ≤ '9'.toNat then some (n - '0'.toNat)
  else if 'a'.toNat ≤ n ∧ n ≤ 'f'.toNat then some (n - 'a'.toNat + 10)
  else if 'A'.toNat ≤ n ∧ n ≤ 'F'.toNat then some (n - 'A'.toNat + 10)
  else none

/-- A number in digits of the given base, at most 16, with no digit missing behind it. -/
def readNumber (base : Nat) (text : List Char) : Option (Nat × List Char × List Char) :=
  let isDigit (c : Char) := (hexValue c).any (· < base)
  match text.span isDigit with
  | ([], _) => none
  | (digits, rest) =>
    some (digits.foldl (fun n c => n * base + (hexValue c).getD 0) 0, digits, rest)

/-- A byte in decimal, without a leading zero. -/
def readByte (text : List Char) : Option (UInt8 × List Char) :=
  match readNumber 10 text with
  | none => none
  | some (n, digits, rest) =>
    if n < 256 ∧ digits.length ≤ 3 ∧ (digits.length = 1 ∨ digits.head? ≠ some '0') then
      some (UInt8.ofNat n, rest)
    else none

/-- The four bytes of an IPv4 address. -/
def readV4 (text : List Char) : Option ((UInt8 × UInt8 × UInt8 × UInt8) × List Char) := do
  let (a, text) ← readByte text
  let (b, text) ← readByte (← readMark '.' text)
  let (c, text) ← readByte (← readMark '.' text)
  let (d, text) ← readByte (← readMark '.' text)
  some ((a, b, c, d), text)

/-- A group of one to four hexadecimal digits. -/
def readGroup (text : List Char) : Option (UInt16 × List Char) :=
  match readNumber 16 text with
  | none => none
  | some (n, digits, rest) => if digits.length ≤ 4 then some (UInt16.ofNat n, rest) else none

/-- A 16-bit group made of two bytes. -/
def pair (high low : UInt8) : UInt16 :=
  UInt16.ofNat (high.toNat * 256 + low.toNat)

/-- At most `count` groups between colons, and whether an IPv4 address, which stands for two
groups, ended them. -/
def readGroups : Nat → Bool → List Char → List UInt16 × Bool × List Char
  | 0, _, text => ([], false, text)
  | count + 1, first, text =>
    match if first then some text else readMark ':' text with
    | none => ([], false, text)
    | some body =>
      let embedded := if count = 0 then none else readV4 body
      match embedded with
      | some ((a, b, c, d), rest) => ([pair a b, pair c d], true, rest)
      | none =>
        match readGroup body with
        | none => ([], false, text)
        | some (group, rest) =>
          let (groups, ended, rest) := readGroups count false rest
          (group :: groups, ended, rest)

/-- The eight groups of an IPv6 address.  `::` stands for one zero group or more. -/
def readV6 (text : List Char) : Option (List UInt16 × List Char) := do
  let (front, ended, text) := readGroups 8 true text
  if front.length = 8 then some (front, text)
  else if ended then none
  else
    let text ← readMark ':' (← readMark ':' text)
    let (back, _, text) := readGroups (7 - front.length) true text
    some (front ++ List.replicate (8 - front.length - back.length) 0 ++ back, text)

/-- An address of either generation. -/
def read (text : List Char) : Option (Ip × List Char) :=
  match readV4 text with
  | some ((a, b, c, d), rest) => some (.v4 a b c d, rest)
  | none => (readV6 text).map fun (groups, rest) => (.v6 groups, rest)

/-- The address that a whole text stands for. -/
def parse (text : String) : Option Ip :=
  match read text.toList with
  | some (ip, []) => some ip
  | _ => none

/-! ## Writing -/

/-- The text of an IPv4 address. -/
def v4Text (a b c d : UInt8) : String :=
  s!"{a}.{b}.{c}.{d}"

/-- Groups in hexadecimal between colons. -/
def groupsText (groups : List UInt16) : String :=
  ":".intercalate (groups.map fun group => String.ofList (Nat.toDigits 16 group.toNat))

/-- The start and the length of the first longest run of zero groups.  `index` is the place of the
first group, `run` the length of the run in front of it, and `best` the answer so far. -/
def longestZeros : List UInt16 → Nat → Nat → Nat × Nat → Nat × Nat
  | [], _, _, best => best
  | group :: rest, index, run, best =>
    if group = 0 then
      let run := run + 1
      longestZeros rest (index + 1) run (if best.2 < run then (index + 1 - run, run) else best)
    else longestZeros rest (index + 1) 0 best

/-- The text of an IPv6 address. -/
def v6Text (groups : List UInt16) : String :=
  match groups with
  | [0, 0, 0, 0, 0, 0xFFFF, high, low] =>
    "::ffff:" ++ v4Text (high >>> 8).toUInt8 high.toUInt8 (low >>> 8).toUInt8 low.toUInt8
  | groups =>
    let (start, count) := longestZeros groups 0 0 (0, 0)
    if count > 1 then
      groupsText (groups.take start) ++ "::" ++ groupsText (groups.drop (start + count))
    else groupsText groups

/-- The text of an address. -/
def text : Ip → String
  | v4 a b c d => v4Text a b c d
  | v6 groups => v6Text groups

end Ip

/-- An address with a port. -/
structure Socket where
  ip : Ip
  port : UInt16
  /-- The scope of an IPv6 address, and 0 for none. -/
  scope : Nat := 0
  deriving DecidableEq, Repr

namespace Socket

/-- A decimal number below `bound`. -/
def readDecimal (bound : Nat) (text : List Char) : Option (Nat × List Char) :=
  match Ip.readNumber 10 text with
  | none => none
  | some (n, _, rest) => if n < bound then some (n, rest) else none

/-- The port behind a colon, at the end of a text. -/
def readPort (text : List Char) : Option UInt16 := do
  let (port, rest) ← readDecimal UInt16.size (← Ip.readMark ':' text)
  if rest.isEmpty then some (UInt16.ofNat port) else none

/-- The scope behind a percent sign, if one is there. -/
def readScope (text : List Char) : Nat × List Char :=
  match (Ip.readMark '%' text).bind (readDecimal UInt32.size) with
  | some (scope, rest) => (scope, rest)
  | none => (0, text)

/-- An IPv6 address in brackets, with its scope and its port. -/
def readV6 (text : List Char) : Option Socket := do
  let (groups, text) ← Ip.readV6 (← Ip.readMark '[' text)
  let (scope, text) := readScope text
  let port ← readPort (← Ip.readMark ']' text)
  some ⟨.v6 groups, port, scope⟩

/-- The socket that a whole text stands for. -/
def parse (text : String) : Option Socket :=
  match Ip.readV4 text.toList with
  | some ((a, b, c, d), rest) => (readPort rest).map fun port => ⟨.v4 a b c d, port, 0⟩
  | none => readV6 text.toList

/-- The text of a socket. -/
def text (s : Socket) : String :=
  match s.ip with
  | .v4 .. => s!"{s.ip.text}:{s.port}"
  | .v6 _ =>
    let scope := if s.scope = 0 then "" else s!"%{s.scope}"
    "[" ++ s.ip.text ++ scope ++ "]" ++ s!":{s.port}"

end Socket

end FramedChannel
