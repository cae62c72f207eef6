import MeshLayout.Json

/-!
# Reading JSON

Reads the text of one document. A number is whole if it is written with digits only, after a
sign or not; one with a point or an exponent is not, whatever its value, and neither is a zero
with a sign. Of members with one name an object keeps the last.
-/

set_option autoImplicit false

namespace MeshLayout.Json

namespace Parser

def isBlank (c : Char) : Bool := c == ' ' || c == '\n' || c == '\r' || c == '\t'

def skipBlanks (chars : List Char) : List Char := chars.dropWhile isBlank

/-! Texts -/

def hexDigit? (c : Char) : Option Nat :=
  if '0' ≤ c ∧ c ≤ '9' then some (c.toNat - '0'.toNat)
  else if 'a' ≤ c ∧ c ≤ 'f' then some (c.toNat - 'a'.toNat + 10)
  else if 'A' ≤ c ∧ c ≤ 'F' then some (c.toNat - 'A'.toNat + 10)
  else none

def escaped? : Char → Option Char
  | '"' => some '"'
  | '\\' => some '\\'
  | '/' => some '/'
  | 'b' => some '\x08'
  | 'f' => some '\x0c'
  | 'n' => some '\n'
  | 'r' => some '\r'
  | 't' => some '\t'
  | _ => none

/-- The part of a text that is being read: a character, what follows a backslash, or the
digits of a code unit, of which so many are missing. -/
inductive Part
  | char
  | escape
  | unit (missing value : Nat)

/-- The character of a code unit after the first half of a pair, or of a code unit alone. -/
def unitChar? (high : Option Nat) (unit : Nat) : Option Char :=
  match high with
  | some high =>
    if 0xDC00 ≤ unit ∧ unit < 0xE000 then
      some (Char.ofNat (0x10000 + (high - 0xD800) * 0x400 + (unit - 0xDC00)))
    else none
  | none => if unit < 0xD800 ∨ 0xE000 ≤ unit then some (Char.ofNat unit) else none

def isHigh (unit : Nat) : Bool := 0xD800 ≤ unit && unit < 0xDC00

/-- Reads a text up to its closing quote. What was read before comes last first; `high` is the
first half of a pair that waits for the second. -/
def text? : Part → Option Nat → List Char → List Char → Option (String × List Char)
  | _, _, _, [] => none
  | .char, high, read, c :: rest =>
    if c = '\\' then text? .escape high read rest
    else if high.isSome || c < ' ' then none
    else if c = '"' then some (String.ofList read.reverse, rest)
    else text? .char none (c :: read) rest
  | .escape, high, read, c :: rest =>
    if c = 'u' then text? (.unit 4 0) high read rest
    else
      match high, escaped? c with
      | none, some e => text? .char none (e :: read) rest
      | _, _ => none
  | .unit missing value, high, read, c :: rest =>
    match hexDigit? c with
    | none => none
    | some digit =>
      let unit := 16 * value + digit
      if 1 < missing then text? (.unit (missing - 1) unit) high read rest
      else if high.isNone && isHigh unit then text? .char (some unit) read rest
      else
        match unitChar? high unit with
        | some e => text? .char none (e :: read) rest
        | none => none

/-! Numbers -/

def isNumberChar (c : Char) : Bool :=
  c.isDigit || c == '-' || c == '+' || c == '.' || c == 'e' || c == 'E'

def natural (digits : List Char) : Nat :=
  digits.foldl (fun n c => 10 * n + (c.toNat - '0'.toNat)) 0

def isDigits (digits : List Char) : Bool := !digits.isEmpty && digits.all Char.isDigit

def isWhole (digits : List Char) : Bool := digits == Nat.toDigits 10 (natural digits)

def isExponent : List Char → Bool
  | '+' :: digits | '-' :: digits => isDigits digits
  | digits => isDigits digits

/-- What may come after the whole part of a number: a fraction, an exponent, or both. -/
def isTail (chars : List Char) : Bool :=
  let (fraction, exponent) := chars.span fun c => c != 'e' && c != 'E'
  (fraction.isEmpty || fraction.head? == some '.' && isDigits fraction.tail) &&
    (exponent.isEmpty || isExponent exponent.tail)

def isDecimal (chars : List Char) : Bool :=
  let (digits, rest) := chars.span Char.isDigit
  isWhole digits && isTail rest

/-- The number that a run of characters is written for. -/
def number? (written : List Char) : Option Json :=
  match written with
  | '-' :: digits =>
    if isWhole digits && natural digits != 0 then some (integer (-(natural digits : Int)))
    else if isDecimal digits then some (decimal (String.ofList written))
    else none
  | digits =>
    if isWhole digits then some (integer (natural digits))
    else if isDecimal digits then some (decimal (String.ofList written))
    else none

/-! Values -/

/-- Puts a member in front of others, unless one of them has its name. -/
def addMember (name : String) (value : Json) (members : List (String × Json)) :
    List (String × Json) :=
  if (lookup name members).isSome then members else (name, value) :: members

mutual

/-- Reads a value of at most so many parts, and gives what comes after it. -/
def value? : Nat → List Char → Option (Json × List Char)
  | 0, _ => none
  | fuel + 1, chars =>
    match skipBlanks chars with
    | '\x7b' :: rest =>
      match skipBlanks rest with
      | '\x7d' :: rest => some (record [], rest)
      | rest => do
        let (members, rest) ← members? fuel rest
        return (record members, rest)
    | '[' :: rest =>
      match skipBlanks rest with
      | ']' :: rest => some (list [], rest)
      | rest => do
        let (items, rest) ← items? fuel rest
        return (list items, rest)
    | '"' :: rest => do
      let (value, rest) ← text? .char none [] rest
      return (text value, rest)
    | 't' :: 'r' :: 'u' :: 'e' :: rest => some (bool true, rest)
    | 'f' :: 'a' :: 'l' :: 's' :: 'e' :: rest => some (bool false, rest)
    | 'n' :: 'u' :: 'l' :: 'l' :: rest => some (null, rest)
    | chars => do
      let (written, rest) := chars.span isNumberChar
      return (← number? written, rest)

def items? : Nat → List Char → Option (List Json × List Char)
  | 0, _ => none
  | fuel + 1, chars => do
    let (item, rest) ← value? fuel chars
    match skipBlanks rest with
    | ',' :: rest =>
      let (items, rest) ← items? fuel rest
      return (item :: items, rest)
    | ']' :: rest => return ([item], rest)
    | _ => none

def members? : Nat → List Char → Option (List (String × Json) × List Char)
  | 0, _ => none
  | fuel + 1, chars =>
    match skipBlanks chars with
    | '"' :: rest => do
      let (name, rest) ← text? .char none [] rest
      match skipBlanks rest with
      | ':' :: rest =>
        let (value, rest) ← value? fuel rest
        match skipBlanks rest with
        | ',' :: rest =>
          let (members, rest) ← members? fuel rest
          return (addMember name value members, rest)
        | '\x7d' :: rest => return ([(name, value)], rest)
        | _ => none
      | _ => none
    | _ => none

end

end Parser

def depthLimit : Nat := 128

/-- The document that a text is. Each part of it takes a character at least. -/
def parse? (text : String) : Option Json := do
  let chars := text.toList
  let (value, rest) ← Parser.value? (chars.length + 1) chars
  if (Parser.skipBlanks rest).isEmpty && value.depth < depthLimit then return value else none

end MeshLayout.Json
