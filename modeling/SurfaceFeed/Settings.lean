import SurfaceFeed.Json.Basic

/-!
# Settings

## How a feed is finished and how errors are shown

A configuration holds the settings of the assembler.  The count of characters
that an error message quotes must not be zero.
-/

namespace SurfaceFeed

/-- What becomes of a remainder that has no messages: it is passed over, or it is an error. -/
inductive FinishMode where
  | lenient
  | strict
  deriving DecidableEq, Repr, Inhabited

namespace FinishMode

def name : FinishMode -> String
  | lenient => "lenient"
  | strict => "strict"

def ofName? (name : String) : Option FinishMode :=
  match name with
  | "lenient" => some lenient
  | "strict" => some strict
  | _ => none

end FinishMode

structure Settings where
  finishMode : FinishMode
  previewChars : Nat
  deriving DecidableEq, Repr

structure Config where
  assembler : Settings
  deriving DecidableEq, Repr

namespace Settings

def standard : Settings := ⟨.lenient, 100⟩

instance : Inhabited Settings := ⟨standard⟩

def toJson (s : Settings) : Json :=
  .object [("finishMode", .text s.finishMode.name), ("errorPreviewChars", .int s.previewChars)]

end Settings

namespace Config

def standard : Config := ⟨.standard⟩

instance : Inhabited Config := ⟨standard⟩

def toJson (c : Config) : Json :=
  .object [("assembler", c.assembler.toJson)]

end Config
end SurfaceFeed
