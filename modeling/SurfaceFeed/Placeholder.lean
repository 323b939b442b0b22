import SurfaceFeed.Text.Occurrence
import SurfaceFeed.Value.Basic

/-!
# Placeholders

## Filling a text from a list item

A text of a list template names a field of the item as `item.` and a word, the
position of the item as `index` and the item itself as `item`, each between
braces.  Fields are filled first, then the positions, then the items, each in
one pass over the text that the pass before it left.
-/

namespace SurfaceFeed
namespace Placeholder

def fieldOpening : List Char := "\x7bitem.".toList

def index : List Char := "\x7bindex\x7d".toList

def item : List Char := "\x7bitem\x7d".toList

def isWordChar (c : Char) : Bool :=
  c.isAlphanum || c == '_'

/-- A text has a placeholder as soon as one opens, even if it never ends. -/
def occursIn (text : String) : Bool :=
  Text.occursIn fieldOpening text.toList || Text.occursIn index text.toList ||
    Text.occursIn item text.toList

/-! ## Fields -/

/-- The word of a field placeholder that begins here, if it is closed at once. -/
def fieldWord? (text : List Char) : Option (List Char) :=
  match Text.after? fieldOpening text with
  | none => none
  | some after =>
      let word := after.takeWhile isWordChar
      match word, after.dropWhile isWordChar with
      | [], _ => none
      | _, '\x7d' :: _ => some word
      | _, _ => none

/-- The length of the placeholder of a field, braces included. -/
def fieldLength (word : List Char) : Nat :=
  fieldOpening.length + word.length + 1

/-- A missing field is filled with nothing. -/
def fieldText (value : Value) (word : List Char) : List Char :=
  match value.field? (String.ofList word) with
  | some field => field.display.toList
  | none => []

/-- Fills the fields in the text that is left when `skip` more characters are passed over. -/
def fillFieldsFrom (value : Value) : Nat -> List Char -> List Char
  | _, [] => []
  | skip + 1, _ :: text => fillFieldsFrom value skip text
  | 0, c :: text =>
      match fieldWord? (c :: text) with
      | some word => fieldText value word ++ fillFieldsFrom value (fieldLength word - 1) text
      | none => c :: fillFieldsFrom value 0 text

def fillFields (value : Value) (text : List Char) : List Char :=
  fillFieldsFrom value 0 text

/-! ## All placeholders -/

def fillChars (value : Value) (position : Nat) (text : List Char) : List Char :=
  let text := fillFields value text
  let text := Text.replaceAll index (Nat.toDigits 10 position) text
  Text.replaceAll item value.display.toList text

def fill (value : Value) (position : Nat) (text : String) : String :=
  String.ofList (fillChars value position text.toList)

end Placeholder
end SurfaceFeed
