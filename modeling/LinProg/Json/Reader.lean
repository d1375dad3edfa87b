import LinProg.Json.Numeral

/-!
# Reading JSON

Texts are read by the grammar of JSON and nothing beyond it: no comments, no trailing commas, no
leading zeros, no unescaped control characters, and nothing but blanks after the document.
-/

namespace LinProg

namespace Json

/-- The characters that may stand between the parts of a document. -/
def isBlank (c : Char) : Bool := c == ' ' || c == '\n' || c == '\t' || c == '\r'

/-- The text without leading blanks. -/
def skipBlanks (text : List Char) : List Char := text.dropWhile isBlank

/-! ### Strings -/

/-- A part of a string: a character, or one code unit of 16 bits that an escape names. -/
inductive StringPart where
  /-- A character. -/
  | char (c : Char)
  /-- A code unit. -/
  | unit (value : Nat)

/-- The value of a hexadecimal digit. -/
def hexValue? (c : Char) : Option Nat :=
  if '0' ≤ c ∧ c ≤ '9' then some (c.toNat - '0'.toNat)
  else if 'a' ≤ c ∧ c ≤ 'f' then some (c.toNat - 'a'.toNat + 10)
  else if 'A' ≤ c ∧ c ≤ 'F' then some (c.toNat - 'A'.toNat + 10)
  else none

/-- The number that hexadecimal digits write. -/
def hexNumber? (digits : List Char) : Option Nat :=
  (digits.mapM hexValue?).map fun values => values.foldl (fun n value => n * 16 + value) 0

/-- The character that an escape of one letter stands for. -/
def escaped? : Char → Option Char
  | '"' => some '"'
  | '\\' => some '\\'
  | '/' => some '/'
  | 'b' => some '\x08'
  | 'f' => some '\x0c'
  | 'n' => some '\n'
  | 'r' => some '\r'
  | 't' => some '\t'
  | _ => none

/-- The parts of a string up to its closing quotation mark, and the text after it. -/
def stringParts? : List Char → Option (List StringPart × List Char)
  | '"' :: rest => some ([], rest)
  | '\\' :: 'u' :: a :: b :: c :: d :: rest => do
    let value ← hexNumber? [a, b, c, d]
    let (parts, left) ← stringParts? rest
    return (.unit value :: parts, left)
  | '\\' :: letter :: rest => do
    let c ← escaped? letter
    let (parts, left) ← stringParts? rest
    return (.char c :: parts, left)
  | c :: rest =>
    if c < ' ' then none
    else do
      let (parts, left) ← stringParts? rest
      return (.char c :: parts, left)
  | [] => none

/-- The characters of a string, if every half of a surrogate pair has its other half. -/
def joinParts? : List StringPart → Option (List Char)
  | [] => some []
  | .char c :: rest => (c :: ·) <$> joinParts? rest
  | [.unit value] =>
    if 0xD800 ≤ value ∧ value < 0xE000 then none else some [Char.ofNat value]
  | .unit high :: .char c :: rest =>
    if 0xD800 ≤ high ∧ high < 0xE000 then none
    else (Char.ofNat high :: c :: ·) <$> joinParts? rest
  | .unit high :: .unit low :: rest =>
    if 0xD800 ≤ high ∧ high < 0xDC00 then
      if 0xDC00 ≤ low ∧ low < 0xE000 then
        (Char.ofNat (0x10000 + (high - 0xD800) * 0x400 + (low - 0xDC00)) :: ·) <$> joinParts? rest
      else none
    else if 0xDC00 ≤ high ∧ high < 0xE000 then none
    else (Char.ofNat high :: ·) <$> joinParts? (.unit low :: rest)

/-! ### Numerals -/

/-- The digits at the beginning of a text, and the text after them. -/
def leadingDigits (text : List Char) : List Nat × List Char :=
  ((text.takeWhile Char.isDigit).map fun c => c.toNat - '0'.toNat, text.dropWhile Char.isDigit)

/-- The digits after a point, at least one, if there is a point. -/
def fraction? : List Char → Option (List Nat × List Char)
  | '.' :: rest =>
    match leadingDigits rest with
    | ([], _) => none
    | found => some found
  | text => some ([], text)

/-- The digits of an exponent, at least one. -/
def exponentDigits? (negative : Bool) (text : List Char) :
    Option ((Bool × List Nat) × List Char) :=
  match leadingDigits text with
  | ([], _) => none
  | (digits, rest) => some ((negative, digits), rest)

/-- The sign and the digits of an exponent, no digits if there is no exponent. -/
def exponent? : List Char → Option ((Bool × List Nat) × List Char)
  | c :: rest =>
    if c == 'e' || c == 'E' then
      match rest with
      | '+' :: digits => exponentDigits? false digits
      | '-' :: digits => exponentDigits? true digits
      | digits => exponentDigits? false digits
    else some ((false, []), c :: rest)
  | [] => some ((false, []), [])

/-- The numeral at the beginning of a text, after its sign, and the text after it. Of the digits
before the point only a lone one may be zero at the front. -/
def numeral? (negative : Bool) (text : List Char) : Option (Numeral × List Char) := do
  let (whole, afterWhole) := leadingDigits text
  if whole.isEmpty || (whole.head? == some 0 && decide (1 < whole.length)) then none
  else
    let (fraction, afterFraction) ← fraction? afterWhole
    let ((exponentNegative, exponentDigits), rest) ← exponent? afterFraction
    return ({ negative, whole, fraction, exponentNegative, exponentDigits }, rest)

/-! ### Documents -/

/-- The text after a literal. -/
def literal? (word : List Char) (value : Json) (text : List Char) : Option (Json × List Char) :=
  if word.isPrefixOf text then some (value, text.drop word.length) else none

/-- An object, if all its member names are proper strings. -/
def ofMembers (members : List (Option String × Json)) : Json :=
  match members.mapM fun (name, value) => name.map (·, value) with
  | some members => .record members
  | none => .malformed

mutual

/-- The document at the beginning of a text, and the text after it. Each step uses up a character,
so the number of characters bounds the depth of the recursion. -/
def document? (magnitude : Numeral → Float) : Nat → List Char → Option (Json × List Char)
  | 0, _ => none
  | fuel + 1, text =>
    match skipBlanks text with
    | '[' :: rest =>
      match skipBlanks rest with
      | ']' :: left => some (.list [], left)
      | items => (items? magnitude fuel items).map fun (items, left) => (.list items, left)
    | '\x7b' :: rest =>
      match skipBlanks rest with
      | '\x7d' :: left => some (.record [], left)
      | members => (members? magnitude fuel members).map fun (members, left) =>
        (ofMembers members, left)
    | '"' :: rest =>
      (stringParts? rest).map fun (parts, left) =>
        ((joinParts? parts).elim .malformed fun chars => .string (String.ofList chars), left)
    | '-' :: rest => (numeral? true rest).map fun (n, left) => (n.toJson magnitude, left)
    | 'n' :: rest => literal? "ull".toList .null rest
    | 't' :: rest => literal? "rue".toList (.bool true) rest
    | 'f' :: rest => literal? "alse".toList (.bool false) rest
    | rest => (numeral? false rest).map fun (n, left) => (n.toJson magnitude, left)

/-- The items of an array up to its closing bracket. -/
def items? (magnitude : Numeral → Float) : Nat → List Char → Option (List Json × List Char)
  | 0, _ => none
  | fuel + 1, text => do
    let (item, afterItem) ← document? magnitude fuel text
    match skipBlanks afterItem with
    | ',' :: rest =>
      let (items, left) ← items? magnitude fuel rest
      return (item :: items, left)
    | ']' :: left => return ([item], left)
    | _ => none

/-- The members of an object up to its closing brace. -/
def members? (magnitude : Numeral → Float) :
    Nat → List Char → Option (List (Option String × Json) × List Char)
  | 0, _ => none
  | fuel + 1, text =>
    match skipBlanks text with
    | '"' :: afterQuote => do
      let (parts, afterName) ← stringParts? afterQuote
      let name := (joinParts? parts).map String.ofList
      match skipBlanks afterName with
      | ':' :: afterColon =>
        let (value, afterValue) ← document? magnitude fuel afterColon
        match skipBlanks afterValue with
        | ',' :: rest =>
          let (members, left) ← members? magnitude fuel rest
          return ((name, value) :: members, left)
        | '\x7d' :: left => return ([(name, value)], left)
        | _ => none
      | _ => none
    | _ => none

end

/-- The document that a text writes, its numerals read in the given way. -/
def read? (magnitude : Numeral → Float) (text : String) : Option Json :=
  match document? magnitude (2 * text.length + 2) text.toList with
  | some (value, rest) => if (skipBlanks rest).isEmpty then some value else none
  | none => none

end Json

end LinProg
