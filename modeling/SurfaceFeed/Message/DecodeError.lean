import SurfaceFeed.Json.Printer
import SurfaceFeed.Pointer
import SurfaceFeed.Text.Quoted

/-!
# Documents that are no messages

One cause for each way in which a document fails to be what is wanted of it, and
its wording.
-/

namespace SurfaceFeed

/-- What a document was wanted to be. -/
inductive Wanted where
  | text
  | list
  | component
  | surface
  | content
  | message
  | kind
  deriving DecidableEq, Repr

namespace Wanted

def phrase : Wanted -> String
  | text => "a string"
  | list => "a sequence"
  | component => "struct Component"
  | surface => "struct Surface"
  | content => "struct ContentExpr"
  | message => "internally tagged enum Message"
  | kind => "variant identifier"

end Wanted

/-- What can be written as a list of its parts, and then lacks one that it needs. -/
inductive Sequence where
  | surface
  | condition
  | content
  | surfaceUpdate
  | deleteSurface
  deriving DecidableEq, Repr

namespace Sequence

def phrase : Sequence -> String
  | surface => "struct Surface with 3 elements"
  | condition => "struct VisibilityCondition with 8 elements"
  | content => "struct ContentExpr with 2 elements"
  | surfaceUpdate => "struct variant Message::SurfaceUpdate with 1 element"
  | deleteSurface => "struct variant Message::DeleteSurface with 1 element"

end Sequence

/--
Where a list of parts stands: in a document of its own, or inside a message,
which is taken apart before its parts are looked at.
-/
inductive Setting where
  | alone
  | inMessage
  deriving DecidableEq, Repr

inductive DecodeError where
  | wrongType (found : Json) (wanted : Wanted)
  | missingField (name : String)
  | unknownKind (name : String)
  | tooFew (count : Nat) (sequence : Sequence)
  | tooMany (count taken : Nat) (setting : Setting)
  | noVisibleIf
  | noItems
  | rootNotObject

namespace DecodeError

/-- What an error message calls a document. -/
def describe : Json -> String
  | .null => "null"
  | .bool b => "boolean `" ++ Json.writeBool b ++ "`"
  | .int n => "integer `" ++ Json.writeInt n ++ "`"
  | .float f => "floating point `" ++ Json.writeFloat f ++ "`"
  | .text s => "string " ++ Text.quoted s
  | .array _ => "sequence"
  | .object _ => "map"

def surplusPhrase (taken : Nat) : Setting -> String
  | .alone => "fewer elements in array"
  | .inMessage =>
      if taken = 1 then "1 element in sequence" else s!"{taken} elements in sequence"

def message : DecodeError -> String
  | wrongType found wanted =>
      "invalid type: " ++ describe found ++ ", expected " ++ wanted.phrase
  | missingField name => "missing field `" ++ name ++ "`"
  | unknownKind name =>
      "unknown variant `" ++ name ++ "`, expected one of `surfaceUpdate`, " ++
        "`dataModelUpdate`, `deleteSurface`, `beginRendering`"
  | tooFew count sequence => s!"invalid length {count}, expected {sequence.phrase}"
  | tooMany count taken setting =>
      s!"invalid length {count}, expected {surplusPhrase taken setting}"
  | noVisibleIf => "data did not match any variant of untagged enum VisibleIf"
  | noItems => "data did not match any variant of untagged enum ItemSource"
  | rootNotObject => PointerError.rootNotObject.message

end DecodeError
end SurfaceFeed
