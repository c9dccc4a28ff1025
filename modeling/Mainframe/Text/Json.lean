/-! Strict JSON text. Of the values only what a configuration can use is kept: natural numbers,
truth values and the structure around them. -/

set_option autoImplicit false

namespace Mainframe

/-- A key is missing where its escapes spell no text, such as half of a surrogate pair. -/
inductive JsonValue where
  | null
  | bool (value : Bool)
  | natural (value : Nat)
  | otherNumber
  | string
  | list (items : List JsonValue)
  | object (members : List (Option String × JsonValue))

namespace JsonValue

def isBlank (char : Char) : Bool := char == ' ' || char == '\n' || char == '\t' || char == '\r'

def skipBlanks (text : List Char) : List Char := text.dropWhile isBlank

def hexValue (digits : List Char) : Option Nat :=
  digits.foldlM (fun value digit => (digitValue digit).map (16 * value + ·)) 0
where
  digitValue (digit : Char) : Option Nat :=
    if '0' ≤ digit ∧ digit ≤ '9' then some (digit.toNat - 48)
    else if 'a' ≤ digit ∧ digit ≤ 'f' then some (digit.toNat - 87)
    else if 'A' ≤ digit ∧ digit ≤ 'F' then some (digit.toNat - 55)
    else none

/-- What a piece of a string stands for: a character, or a unit of sixteen bits that was
written as an escape. -/
inductive StringPiece where
  | char (value : Char)
  | unit (value : Nat)

def simpleEscape : Char → Option Char
  | '"' => some '"'
  | '\\' => some '\\'
  | '/' => some '/'
  | 'b' => some '\x08'
  | 'f' => some '\x0c'
  | 'n' => some '\n'
  | 'r' => some '\r'
  | 't' => some '\t'
  | _ => none

/-- The pieces of a string up to its closing quote, and the text after it. Control characters
must be escaped. -/
def stringPieces : List Char → Option (List StringPiece × List Char)
  | [] => none
  | '"' :: rest => some ([], rest)
  | '\\' :: 'u' :: a :: b :: c :: d :: rest => do
    let value ← hexValue [a, b, c, d]
    let (pieces, after) ← stringPieces rest
    return (.unit value :: pieces, after)
  | '\\' :: escape :: rest => do
    let char ← simpleEscape escape
    let (pieces, after) ← stringPieces rest
    return (.char char :: pieces, after)
  | char :: rest => do
    if char.toNat < 0x20 then none
    let (pieces, after) ← stringPieces rest
    return (.char char :: pieces, after)

def isHighSurrogate (unit : Nat) : Bool := decide (0xD800 ≤ unit ∧ unit < 0xDC00)

def isLowSurrogate (unit : Nat) : Bool := decide (0xDC00 ≤ unit ∧ unit < 0xE000)

/-- The characters that the pieces spell. Surrogates must come in pairs. -/
def spell : List StringPiece → Option (List Char)
  | [] => some []
  | .char char :: rest => (spell rest).map (char :: ·)
  | .unit high :: rest =>
    if isLowSurrogate high then none
    else if isHighSurrogate high then
      match rest with
      | .unit low :: after =>
        if isLowSurrogate low then
          (spell after).map (Char.ofNat (0x10000 + (high - 0xD800) * 0x400 + (low - 0xDC00)) :: ·)
        else none
      | _ => none
    else (spell rest).map (Char.ofNat high :: ·)

def isDigit (char : Char) : Bool := decide ('0' ≤ char ∧ char ≤ '9')

def naturalOf (digits : List Char) : Nat :=
  digits.foldl (fun value digit => 10 * value + (digit.toNat - 48)) 0

def skipFraction : List Char → Option (Bool × List Char)
  | '.' :: rest =>
    match rest with
    | digit :: _ => if isDigit digit then some (true, rest.dropWhile isDigit) else none
    | [] => none
  | text => some (false, text)

def isSign (char : Char) : Bool := char == '+' || char == '-'

def skipExponent : List Char → Option (Bool × List Char)
  | mark :: rest =>
    if mark == 'e' || mark == 'E' then
      let digits := match rest with
        | sign :: after => if isSign sign then after else rest
        | [] => []
      match digits with
      | digit :: _ => if isDigit digit then some (true, digits.dropWhile isDigit) else none
      | [] => none
    else some (false, mark :: rest)
  | [] => some (false, [])

/-- A number without sign. Only one written as an integer counts as natural, and a leading zero
stands alone. -/
def unsignedNumber (text : List Char) : Option (JsonValue × List Char) := do
  let digits := text.takeWhile isDigit
  match digits with
  | [] => none
  | '0' :: _ :: _ => none
  | _ =>
    let (hasFraction, afterFraction) ← skipFraction (text.dropWhile isDigit)
    let (hasExponent, rest) ← skipExponent afterFraction
    return (if hasFraction || hasExponent then .otherNumber else .natural (naturalOf digits), rest)

def number : List Char → Option (JsonValue × List Char)
  | '-' :: rest => (unsignedNumber rest).map fun (_, after) => (.otherNumber, after)
  | text => unsignedNumber text

def after (word : List Char) (text : List Char) : Option (List Char) :=
  if word.isPrefixOf text then some (text.drop word.length) else none

mutual

/-- The value at the beginning of a text, and what follows it. The fuel bounds the number of
characters that are looked at. -/
def value : Nat → List Char → Option (JsonValue × List Char)
  | 0, _ => none
  | fuel + 1, text =>
    match skipBlanks text with
    | '"' :: rest => do
      let (_, following) ← stringPieces rest
      return (.string, following)
    | '[' :: rest =>
      match skipBlanks rest with
      | ']' :: following => some (.list [], following)
      | _ => do
        let (items, following) ← items fuel rest
        return (.list items, following)
    | '\x7b' :: rest =>
      match skipBlanks rest with
      | '\x7d' :: following => some (.object [], following)
      | _ => do
        let (members, following) ← members fuel rest
        return (.object members, following)
    | 'n' :: rest => (after ['u', 'l', 'l'] rest).map (.null, ·)
    | 't' :: rest => (after ['r', 'u', 'e'] rest).map (.bool true, ·)
    | 'f' :: rest => (after ['a', 'l', 's', 'e'] rest).map (.bool false, ·)
    | other => number other

def items : Nat → List Char → Option (List JsonValue × List Char)
  | 0, _ => none
  | fuel + 1, text => do
    let (first, rest) ← value fuel text
    match skipBlanks rest with
    | ',' :: following =>
      let (others, following) ← items fuel following
      return (first :: others, following)
    | ']' :: following => return ([first], following)
    | _ => none

def members : Nat → List Char → Option (List (Option String × JsonValue) × List Char)
  | 0, _ => none
  | fuel + 1, text =>
    match skipBlanks text with
    | '"' :: rest => do
      let (pieces, rest) ← stringPieces rest
      let rest ← after [':'] (skipBlanks rest)
      let (first, rest) ← value fuel rest
      let member := ((spell pieces).map String.ofList, first)
      match skipBlanks rest with
      | ',' :: following =>
        let (others, following) ← members fuel following
        return (member :: others, following)
      | '\x7d' :: following => return ([member], following)
      | _ => none
    | _ => none

end

def parse (text : String) : Option JsonValue := do
  let chars := text.toList
  let (parsed, rest) ← value (2 * chars.length + 2) chars
  if (skipBlanks rest).isEmpty then some parsed else none

end JsonValue

end Mainframe
