import SurfaceFeed.Text.Slashes

/-!
# Pointers

## Paths in a document and their text

A pointer is a list of segments.  Its text puts a slash before each segment and
writes a tilde as `~0` and a slash as `~1`.  The empty text and the lone slash
both stand for the root.
-/

namespace SurfaceFeed

structure Pointer where
  segments : List String
  deriving DecidableEq, Repr, Inhabited

/-- Why a pointer cannot be read or written through. -/
inductive PointerError where
  | noLeadingSlash (text : String)
  | invalidEscape (text segment : String)
  | rootNotObject
  deriving DecidableEq, Repr

namespace PointerError

def code : PointerError -> String
  | noLeadingSlash _ => "A2UI_E_POINTER_SYNTAX"
  | invalidEscape _ _ => "A2UI_E_POINTER_ESCAPE"
  | rootNotObject => "A2UI_E_ROOT_NOT_OBJECT"

def message : PointerError -> String
  | noLeadingSlash text =>
      "invalid pointer '" ++ text ++ "': must be empty or start with '/'"
  | invalidEscape text segment =>
      "invalid escape in pointer '" ++ text ++ "': segment '" ++ segment ++ "'"
  | rootNotObject => "root replacement requires an object value"

end PointerError

namespace Pointer

def root : Pointer := ⟨[]⟩

def isRoot (p : Pointer) : Bool :=
  p.segments.isEmpty

def push (p : Pointer) (segment : String) : Pointer :=
  ⟨p.segments ++ [segment]⟩

/-! ## Segments -/

def escapeChar (c : Char) : List Char :=
  if c == '~' then ['~', '0'] else if c == '/' then ['~', '1'] else [c]

def escapeChars (segment : List Char) : List Char :=
  segment.flatMap escapeChar

/-- A tilde must be followed by one of the digits that give it a meaning. -/
def unescapeChars? : List Char -> Option (List Char)
  | [] => some []
  | '~' :: '0' :: rest => (unescapeChars? rest).map ('~' :: ·)
  | '~' :: '1' :: rest => (unescapeChars? rest).map ('/' :: ·)
  | c :: rest => if c = '~' then none else (unescapeChars? rest).map (c :: ·)

def escapeSegment (segment : String) : String :=
  String.ofList (escapeChars segment.toList)

/-! ## The text of a pointer -/

def unescapeAll (text : String) : List (List Char) -> Except PointerError (List String)
  | [] => .ok []
  | part :: parts =>
      match unescapeChars? part with
      | none => .error (.invalidEscape text (String.ofList part))
      | some segment => do
          let segments ← unescapeAll text parts
          .ok (String.ofList segment :: segments)

def parse (text : String) : Except PointerError Pointer :=
  match text.toList with
  | [] => .ok root
  | ['/'] => .ok root
  | c :: rest =>
      if c = '/' then do
        let segments ← unescapeAll text (Text.splitSlashes rest)
        .ok ⟨segments⟩
      else .error (.noLeadingSlash text)

def segmentsText : List String -> List Char
  | [] => []
  | segment :: segments => '/' :: escapeChars segment.toList ++ segmentsText segments

def toText (p : Pointer) : String :=
  if p.isRoot then "/" else String.ofList (segmentsText p.segments)

end Pointer
end SurfaceFeed
