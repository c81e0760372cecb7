/-!
# Option documents

Options are written as JSON.  A document keeps all members of an object in
order, so that a repeated name can be refused, and tells natural numbers from
all others.  The text of a string or of a name is missing when one of its `\u`
escapes names half of a surrogate pair: such a string is well formed, but no
text.

* `Document.parse` reads a document.
* `Document.fields` gives the values that a document has for some named fields,
  by name from an object and by position from an array.
-/

namespace FramedChannel

/-- A JSON document. -/
inductive Document where
  | null
  | boolean (value : Bool)
  /-- A number; the value is known when it is written as digits only. -/
  | number (natural : Option Nat)
  | string (text : Option String)
  | array (items : List Document)
  | object (members : List (Option String × Document))
  deriving Repr, Inhabited

namespace Document

/-! ## Reading

A reader takes the text from some place on and gives what it read with the
text behind it.
-/

/-- The text behind the white space in front of it. -/
def skipSpace (text : List Char) : List Char :=
  text.dropWhile fun c => c == ' ' || c == '\n' || c == '\t' || c == '\r'

/-- The value of a hexadecimal digit. -/
def hexDigit (c : Char) : Option Nat :=
  let n := c.toNat
  if '0'.toNat ≤ n ∧ n ≤ '9'.toNat then some (n - '0'.toNat)
  else if 'a'.toNat ≤ n ∧ n ≤ 'f'.toNat then some (n - 'a'.toNat + 10)
  else if 'A'.toNat ≤ n ∧ n ≤ 'F'.toNat then some (n - 'A'.toNat + 10)
  else none

/-- The number that four hexadecimal digits write. -/
def hexUnit (a b c d : Char) : Option Nat := do
  some ((((← hexDigit a) * 16 + (← hexDigit b)) * 16 + (← hexDigit c)) * 16 + (← hexDigit d))

/-- The character of an escape that is a letter or a mark. -/
def escaped? : Char → Option Char
  | '"' => some '"'
  | '\\' => some '\\'
  | '/' => some '/'
  | 'b' => some '\x08'
  | 'f' => some '\x0c'
  | 'n' => some '\n'
  | 'r' => some '\r'
  | 't' => some '\t'
  | _ => none

/-- The rest of a string: its characters, with every `\u` escape as a number, up to the quote. -/
def readString (done : List (Char ⊕ Nat)) : List Char → Option (List (Char ⊕ Nat) × List Char)
  | [] => none
  | '"' :: rest => some (done.reverse, rest)
  | '\\' :: 'u' :: a :: b :: c :: d :: rest =>
    match hexUnit a b c d with
    | none => none
    | some unit => readString (.inr unit :: done) rest
  | '\\' :: c :: rest =>
    match escaped? c with
    | none => none
    | some c => readString (.inl c :: done) rest
  | c :: rest => if c.toNat < 0x20 then none else readString (.inl c :: done) rest

/-- The text of a string, whose numbers are UTF-16 units. -/
def textOf : List (Char ⊕ Nat) → Option (List Char)
  | [] => some []
  | .inl c :: rest => (textOf rest).map (c :: ·)
  | .inr high :: .inr low :: rest =>
    if 0xD800 ≤ high ∧ high < 0xDC00 then
      if 0xDC00 ≤ low ∧ low < 0xE000 then
        (textOf rest).map (Char.ofNat (0x10000 + (high - 0xD800) * 0x400 + (low - 0xDC00)) :: ·)
      else none
    else if 0xDC00 ≤ high ∧ high < 0xE000 then none
    else (textOf (.inr low :: rest)).map (Char.ofNat high :: ·)
  | .inr unit :: rest =>
    if 0xD800 ≤ unit ∧ unit < 0xE000 then none else (textOf rest).map (Char.ofNat unit :: ·)

/-- One decimal digit or more. -/
def readDigits (text : List Char) : Option (List Char × List Char) :=
  match text.span Char.isDigit with
  | ([], _) => none
  | digits => some digits

/-- The whole part of a number: a zero alone, or digits that do not start with one. -/
def readWhole : List Char → Option (List Char × List Char)
  | '0' :: rest => some (['0'], rest)
  | text => readDigits text

/-- The text behind a fraction, if one is there, and whether one is. -/
def readFraction : List Char → Option (Bool × List Char)
  | '.' :: rest => (readDigits rest).map fun (_, rest) => (true, rest)
  | text => some (false, text)

/-- The text behind an exponent, if one is there, and whether one is. -/
def readExponent : List Char → Option (Bool × List Char)
  | c :: rest =>
    if c == 'e' || c == 'E' then
      let digits :=
        match rest with
        | '+' :: rest => rest
        | '-' :: rest => rest
        | rest => rest
      (readDigits digits).map fun (_, rest) => (true, rest)
    else some (false, c :: rest)
  | [] => some (false, [])

/-- A number. -/
def readNumber (text : List Char) : Option (Document × List Char) := do
  let (negative, text) :=
    match text with
    | '-' :: rest => (true, rest)
    | text => (false, text)
  let (digits, text) ← readWhole text
  let (fraction, text) ← readFraction text
  let (exponent, text) ← readExponent text
  let value := digits.foldl (fun n c => n * 10 + (c.toNat - '0'.toNat)) 0
  some (.number (if negative || fraction || exponent then none else some value), text)

/-- The text behind a given word. -/
def readWord (word : List Char) (text : List Char) : Option (List Char) :=
  if word.isPrefixOf text then some (text.drop word.length) else none

mutual

/-- A value, whose nesting is at most `depth`. -/
def readValue : Nat → List Char → Option (Document × List Char)
  | 0, _ => none
  | depth + 1, text =>
    match skipSpace text with
    | [] => none
    | '"' :: rest =>
      (readString [] rest).map fun (units, rest) =>
        (.string ((textOf units).map String.ofList), rest)
    | '[' :: rest =>
      match skipSpace rest with
      | ']' :: rest => some (.array [], rest)
      | rest => (readItems depth rest).map fun (items, rest) => (.array items, rest)
    | '{' :: rest =>
      match skipSpace rest with
      | '}' :: rest => some (.object [], rest)
      | rest => (readMembers depth rest).map fun (members, rest) => (.object members, rest)
    | 't' :: rest => (readWord ['r', 'u', 'e'] rest).map fun rest => (.boolean true, rest)
    | 'f' :: rest => (readWord ['a', 'l', 's', 'e'] rest).map fun rest => (.boolean false, rest)
    | 'n' :: rest => (readWord ['u', 'l', 'l'] rest).map fun rest => (.null, rest)
    | text => readNumber text
termination_by depth => depth

/-- The items of an array up to its bracket. -/
def readItems : Nat → List Char → Option (List Document × List Char)
  | 0, _ => none
  | depth + 1, text => do
    let (item, text) ← readValue depth text
    match skipSpace text with
    | ',' :: rest =>
      let (items, rest) ← readItems depth rest
      some (item :: items, rest)
    | ']' :: rest => some ([item], rest)
    | _ => none
termination_by depth => depth

/-- The members of an object up to its brace. -/
def readMembers : Nat → List Char → Option (List (Option String × Document) × List Char)
  | 0, _ => none
  | depth + 1, text => do
    let rest ← readWord ['"'] (skipSpace text)
    let (units, rest) ← readString [] rest
    let rest ← readWord [':'] (skipSpace rest)
    let (value, rest) ← readValue depth rest
    let member := ((textOf units).map String.ofList, value)
    match skipSpace rest with
    | ',' :: rest =>
      let (members, rest) ← readMembers depth rest
      some (member :: members, rest)
    | '}' :: rest => some ([member], rest)
    | _ => none
termination_by depth => depth

end

/-- The document that a whole text stands for. -/
def parse (text : String) : Option Document :=
  match readValue (2 * text.length + 1) text.toList with
  | some (document, rest) => if (skipSpace rest).isEmpty then some document else none
  | none => none

/-! ## Fields -/

/-- The value of a field of an object.  A field that is given twice is refused. -/
def member? (members : List (Option String × Document)) (name : String) :
    Option (Option Document) :=
  match members.filter (·.1 == some name) with
  | [] => some none
  | [(_, value)] => some (some value)
  | _ => none

/-- The values of some fields: by position from an array, in which fields at the end may be
missing, or by name from an object, whose other members count for nothing.  All names of the object
must be texts. -/
def fields (names : List String) : Document → Option (List (Option Document))
  | .array items =>
    if items.length ≤ names.length then
      some (items.map some ++ List.replicate (names.length - items.length) none)
    else none
  | .object members =>
    if members.all (·.1.isSome) then names.mapM (member? members) else none
  | _ => none

/-- A natural number below `bound`. -/
def natural? (bound : Nat) : Document → Option Nat
  | .number (some n) => if n < bound then some n else none
  | _ => none

/-- A truth value. -/
def boolean? : Document → Option Bool
  | .boolean value => some value
  | _ => none

/-- A text. -/
def text? : Document → Option String
  | .string text => text
  | _ => none

/-- A list of texts. -/
def texts? : Document → Option (List String)
  | .array items => items.mapM text?
  | _ => none

/-- The value of a field, or `fallback` where the document has none. -/
def fieldOr {α : Type} (fallback : α) (read : Document → Option α) : Option Document → Option α
  | none => some fallback
  | some value => read value

end Document

end FramedChannel
