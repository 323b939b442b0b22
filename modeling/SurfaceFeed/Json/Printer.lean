import SurfaceFeed.Decimal.Layout
import SurfaceFeed.Json.Basic
import SurfaceFeed.Text.Quoted

/-!
# Writing JSON texts

## Two layouts

The compact text has no space between its parts.  The indented text gives each
member of a list or an object a line of its own, two spaces deeper than the line
that opens it.  Fields are written in the order in which they stand.
-/

namespace SurfaceFeed
namespace Json

/-! ## Scalars -/

/-- Only the quote, the backslash and the control characters are marked. -/
def escapedChar (c : Char) : List Char :=
  if c == '"' then ['\\', '"']
  else if c == '\\' then ['\\', '\\']
  else if c.toNat == 0x08 then ['\\', 'b']
  else if c.toNat == 0x09 then ['\\', 't']
  else if c.toNat == 0x0a then ['\\', 'n']
  else if c.toNat == 0x0c then ['\\', 'f']
  else if c.toNat == 0x0d then ['\\', 'r']
  else if c.toNat < 0x20 then ['\\', 'u'] ++ Text.paddedHex 4 c.toNat
  else [c]

def writeString (s : String) : String :=
  String.ofList ('"' :: s.toList.flatMap escapedChar ++ ['"'])

def writeInt (n : Int) : String :=
  if n < 0 then "-" ++ String.ofList (Nat.toDigits 10 n.natAbs)
  else String.ofList (Nat.toDigits 10 n.natAbs)

def writeBool (b : Bool) : String :=
  if b then "true" else "false"

def writeFloat (f : Float) : String :=
  Decimal.documentLayout.write f

/-! ## The compact text -/

mutual

def compact : Json -> String
  | null => "null"
  | bool b => writeBool b
  | int n => writeInt n
  | float f => writeFloat f
  | text s => writeString s
  | array items => "[" ++ ",".intercalate (compactItems items) ++ "]"
  | object fields => "\x7b" ++ ",".intercalate (compactFields fields) ++ "\x7d"

def compactItems : List Json -> List String
  | [] => []
  | item :: items => compact item :: compactItems items

def compactFields : List (String × Json) -> List String
  | [] => []
  | (name, value) :: fields =>
      (writeString name ++ ":" ++ compact value) :: compactFields fields

end

/-! ## The indented text -/

def newLine (depth : Nat) : String :=
  "\n" ++ String.ofList (List.replicate (2 * depth) ' ')

/-- Members between brackets, each on a line of its own at `depth + 1`. -/
def enclose (opening closing : String) (depth : Nat) (members : List String) : String :=
  if members.isEmpty then opening ++ closing
  else
    opening ++ newLine (depth + 1) ++ ("," ++ newLine (depth + 1)).intercalate members ++
      newLine depth ++ closing

mutual

def indented (depth : Nat) : Json -> String
  | null => "null"
  | bool b => writeBool b
  | int n => writeInt n
  | float f => writeFloat f
  | text s => writeString s
  | array items => enclose "[" "]" depth (indentedItems (depth + 1) items)
  | object fields => enclose "\x7b" "\x7d" depth (indentedFields (depth + 1) fields)

def indentedItems (depth : Nat) : List Json -> List String
  | [] => []
  | item :: items => indented depth item :: indentedItems depth items

def indentedFields (depth : Nat) : List (String × Json) -> List String
  | [] => []
  | (name, value) :: fields =>
      (writeString name ++ ": " ++ indented depth value) :: indentedFields depth fields

end

def pretty (value : Json) : String :=
  indented 0 value

end Json
end SurfaceFeed
