import LinProg.Decimal.Shortest
import LinProg.Json

/-!
# Printing JSON

Documents are laid out over several lines, with two more blanks of indentation for each level. A
double is written with the fewest digits that read back as it, with a point if it is written without
exponent and with the sign of the exponent if it has one. What has no numeral in JSON is written as
null.
-/

namespace LinProg

namespace Json

/-- The digits of a decimal with a point after the first, if there is more than one. -/
def scientificDigits : List Char → List Char
  | first :: second :: rest => first :: '.' :: second :: rest
  | digits => digits

/-- An exponent of ten with its sign. -/
def exponentText (exponent : Int) : String :=
  (if exponent < 0 then "e-" else "e+") ++ toString exponent.natAbs

/-- A decimal as a numeral. It is written without exponent if its first digit stands at most sixteen
places before the point or at most five places after it. -/
def decimalText (d : Decimal) : String :=
  let point := d.pointPosition
  if -5 < point ∧ point ≤ 16 then
    match d.splitDigits with
    | (whole, []) => String.ofList whole ++ ".0"
    | (whole, fraction) => String.ofList (whole ++ '.' :: fraction)
  else String.ofList (scientificDigits d.digits) ++ exponentText (point - 1)

/-- A double as a numeral. -/
def floatText (value : Float) : String :=
  match Double.parts? value with
  | none => "null"
  | some parts =>
    let text := decimalText (Decimal.shortest parts.significand parts.exponent)
    if parts.negative then "-" ++ text else text

/-- The last two digits of the escape of a control character. -/
def controlDigits (n : Nat) : List Char := [Nat.digitChar (n / 16), Nat.digitChar (n % 16)]

/-- A character inside a string. -/
def escape (c : Char) : List Char :=
  match c with
  | '"' => ['\\', '"']
  | '\\' => ['\\', '\\']
  | '\x08' => ['\\', 'b']
  | '\x0c' => ['\\', 'f']
  | '\n' => ['\\', 'n']
  | '\r' => ['\\', 'r']
  | '\t' => ['\\', 't']
  | c => if c < ' ' then '\\' :: 'u' :: '0' :: '0' :: controlDigits c.toNat else [c]

/-- A string in quotation marks. -/
def stringText (text : String) : String :=
  String.ofList ('"' :: text.toList.flatMap escape ++ ['"'])

/-- The beginning of a line on the given level. -/
def newLine (level : Nat) : String := String.ofList ('\n' :: List.replicate (2 * level) ' ')

mutual

/-- A document that stands on the given level. -/
def render (level : Nat) : Json → String
  | .null | .malformed => "null"
  | .bool value => if value then "true" else "false"
  | .integer value => toString value
  | .number value => floatText value
  | .string value => stringText value
  | .list [] => "[]"
  | .list (item :: items) =>
    "[" ++ newLine (level + 1) ++ item.render (level + 1) ++ renderItems (level + 1) items
      ++ newLine level ++ "]"
  | .record [] => "\x7b\x7d"
  | .record ((name, item) :: members) =>
    "\x7b" ++ newLine (level + 1) ++ stringText name ++ ": " ++ item.render (level + 1)
      ++ renderMembers (level + 1) members ++ newLine level ++ "\x7d"

/-- The further items of an array. -/
def renderItems (level : Nat) : List Json → String
  | [] => ""
  | item :: items => "," ++ newLine level ++ item.render level ++ renderItems level items

/-- The further members of an object. -/
def renderMembers (level : Nat) : List (String × Json) → String
  | [] => ""
  | (name, item) :: members =>
    "," ++ newLine level ++ stringText name ++ ": " ++ item.render level
      ++ renderMembers level members

end

end Json

end LinProg
