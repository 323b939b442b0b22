import SurfaceFeed.Json.Reader
import SurfaceFeed.Message.Decode
import SurfaceFeed.Text.Classes
import SurfaceFeed.Text.Occurrence

/-!
# Messages from a complete response

## Candidates

A response is a text that has messages somewhere in it.  They are looked for in
the first fenced block, then in the span from the first opening bracket to the
last closing one, and last in the whole text; the first of these candidates that
is a document decides.  A document that is no list is a list of one message.
-/

namespace SurfaceFeed

/-- Why a response has no messages. -/
inductive ParseError where
  | notJson (e : Json.ReadError)
  | notMessage (index : Nat) (e : DecodeError)

namespace ParseError

def code : ParseError -> String
  | notJson _ => "A2UI_E_PARSE_JSON"
  | notMessage _ _ => "A2UI_E_PARSE_MESSAGE"

/-- The wording of the cause alone. -/
def cause : ParseError -> String
  | notJson e => e.message
  | notMessage _ e => e.message

def message : ParseError -> String
  | notJson e => "could not parse messages: " ++ e.message
  | notMessage index e =>
      s!"could not parse messages: element {index} is not a message: " ++ e.message

end ParseError

namespace Response

/-! ## Fenced blocks -/

def fence : List Char := "```".toList

def isTagChar (c : Char) : Bool :=
  c.isAlphanum || c == '-' || c == '_'

/-- The text of the first fenced block without its tag; an open fence takes the rest. -/
def fenced? (text : List Char) : Option (List Char) :=
  match Text.cut? fence text with
  | none => none
  | some (_, after) =>
      let body := after.dropWhile isTagChar
      let body :=
        match Text.cut? fence body with
        | some (before, _) => before
        | none => body
      let body := Text.trim body
      if body.isEmpty then none else some body

/-! ## Bracketed spans -/

/-- The text from the first occurrence of `c` on. -/
def fromFirst (c : Char) (text : List Char) : List Char :=
  text.dropWhile (· != c)

/-- The text up to the last occurrence of `c`. -/
def uptoLast (c : Char) (text : List Char) : List Char :=
  (text.reverse.dropWhile (· != c)).reverse

/-- The span between the outermost brackets, if an opening brace has a closing one after it. -/
def bracketed? (text : List Char) : Option (List Char) :=
  let span := uptoLast ']' (fromFirst '[' text)
  if (fromFirst '\x7b' span).contains '\x7d' then some span else none

/-! ## Messages -/

def candidates (text : List Char) : List (List Char) :=
  (fenced? text).toList ++ (bracketed? text).toList

def ofItems (index : Nat) : List Json -> Except ParseError (List Message)
  | [] => .ok []
  | item :: items =>
      match Decode.message item with
      | .error e => .error (.notMessage index e)
      | .ok m => do
          let ms ← ofItems (index + 1) items
          .ok (m :: ms)

def ofJson : Json -> Except ParseError (List Message)
  | .array items => ofItems 0 items
  | json => ofItems 0 [json]

def firstDocument? : List (List Char) -> Option Json
  | [] => none
  | candidate :: rest =>
      match Json.ofBytes (Text.encode candidate) with
      | .ok json => some json
      | .error _ => firstDocument? rest

def ofChars (text : List Char) : Except ParseError (List Message) :=
  match firstDocument? (candidates text) with
  | some json => ofJson json
  | none =>
      match Json.ofBytes (Text.encode (Text.trim text)) with
      | .ok json => ofJson json
      | .error e => .error (.notJson e)

/-- The messages of a response, in the order in which they stand. -/
def messages (text : String) : Except ParseError (List Message) :=
  ofChars text.toList

end Response
end SurfaceFeed
