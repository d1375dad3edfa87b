/-!
# JSON

JSON documents. Numbers are doubles; counts and positions are written as integers. A part of a text
can have the shape of JSON without having a value: a numeral beyond the doubles, or a string with
half of a surrogate pair. Such a part is kept as `malformed`, so that it does no harm where nobody
asks for its value.
-/

namespace LinProg

/-- A JSON document. -/
inductive Json where
  /-- The literal null. -/
  | null
  /-- A truth value. -/
  | bool (value : Bool)
  /-- A count or a position. -/
  | integer (value : Int)
  /-- A number. -/
  | number (value : Float)
  /-- A string. -/
  | string (value : String)
  /-- An array. -/
  | list (items : List Json)
  /-- An object, with its members in order. -/
  | record (members : List (String × Json))
  /-- A text of the right shape without a value. -/
  | malformed

namespace Json

mutual

/-- The document has a value in all its parts, and arrays and objects are nested less deep than the
given bound. -/
def isSound (depth : Nat) : Json → Bool
  | .malformed => false
  | .list items => depth != 0 && allSound (depth - 1) items
  | .record members => depth != 0 && membersSound (depth - 1) members
  | _ => true

/-- All documents of a list are sound. -/
def allSound (depth : Nat) : List Json → Bool
  | [] => true
  | item :: rest => item.isSound depth && allSound depth rest

/-- All members of an object are sound. -/
def membersSound (depth : Nat) : List (String × Json) → Bool
  | [] => true
  | (_, item) :: rest => item.isSound depth && membersSound depth rest

end

/-! ### Reading values -/

/-- The double that a numeral stands for. -/
def toFloat? : Json → Option Float
  | .integer value => some (Float.ofInt value)
  | .number value => some value
  | _ => none

/-- The truth value. -/
def toBool? : Json → Option Bool
  | .bool value => some value
  | _ => none

/-- The string. -/
def toText? : Json → Option String
  | .string value => some value
  | _ => none

/-- The items of an array, each read by the given function. -/
def toList? {β : Type} (read : Json → Option β) : Json → Option (List β)
  | .list items => items.mapM read
  | _ => none

/-- The member with the given name, if there is one. -/
def find? (members : List (String × Json)) (name : String) : Option Json :=
  (members.find? fun member => member.1 == name).map (·.2)

/-- The values of the named fields of an object, in the order of the names, with nothing for a field
that is missing. An array gives the fields by position and may be shorter, not longer, than the list
of names. A named field that occurs twice is refused; other members are passed over. -/
def fields? (names : List String) : Json → Option (List (Option Json))
  | .record members =>
    if names.any fun name =>
        decide (1 < (members.filter fun member => member.1 == name).length) then
      none
    else some (names.map (find? members))
  | .list items =>
    if names.length < items.length then none
    else some (items.map some ++ List.replicate (names.length - items.length) none)
  | _ => none

end Json

end LinProg
