import SurfaceFeed.Message.Encode
import SurfaceFeed.Response
import SurfaceFeed.Scanner
import SurfaceFeed.Settings

/-!
# Assembling messages from a stream

## Events

The assembler takes a response in chunks.  Each object that the scanner finds is
an event: a message, or an error for an object that is none.  The end of the
list completes the stream.

If the list has not ended when the response does, what the scanner still holds
is read as a response of its own, and messages in it that have not been
delivered yet are.
-/

namespace SurfaceFeed

/-- What can be wrong in a stream, with the beginning of the text that it is about. -/
inductive StreamError where
  | malformed (preview : String) (e : Json.ReadError)
  | notMessage (preview : String) (e : DecodeError)
  | recovery (preview : String) (e : ParseError)

namespace StreamError

def code : StreamError -> String
  | malformed _ _ => "A2UI_E_STREAM_OBJECT"
  | notMessage _ _ => "A2UI_E_STREAM_MESSAGE"
  | recovery _ _ => "A2UI_E_STREAM_RECOVERY"

def preview : StreamError -> String
  | malformed preview _ | notMessage preview _ | recovery preview _ => preview

def near (text preview : String) : String :=
  text ++ "; near `" ++ preview ++ "`"

def message : StreamError -> String
  | malformed preview e => near ("malformed object in stream: " ++ e.message) preview
  | notMessage preview e =>
      near ("object in stream is not a message: " ++ e.message) preview
  | recovery preview e => near ("final recovery parse failed: " ++ e.message) preview

end StreamError

inductive Event where
  | message (m : Message)
  | error (e : StreamError)
  | complete (count : Nat)

namespace Event

def message? : Event -> Option Message
  | message m => some m
  | _ => none

/-- The messages among some events. -/
def messages (events : List Event) : List Message :=
  events.filterMap message?

end Event

structure Assembler where
  settings : Settings
  scanner : Scanner
  messages : List Message
  errorCount : Nat
  isComplete : Bool
  isFinished : Bool

namespace Assembler

def start (settings : Settings) : Assembler :=
  ⟨settings, .start, [], 0, false, false⟩

instance : Inhabited Assembler := ⟨start .standard⟩

/-! ## Reading objects -/

/-- The first characters of a text, and dots if there are more. -/
def previewOf (settings : Settings) (text : List Char) : String :=
  if settings.previewChars < text.length then
    String.ofList (text.take settings.previewChars) ++ "..."
  else String.ofList text

/-- The event that an object is. -/
def readObject (settings : Settings) (text : Bytes) : Event :=
  match Json.ofBytes text with
  | .error e => .error (.malformed (previewOf settings (Text.decodeLossy text)) e)
  | .ok json =>
      match Decode.message json with
      | .ok m => .message m
      | .error e => .error (.notMessage (previewOf settings (Text.decodeLossy text)) e)

/-! ## Feeding -/

def record (a : Assembler) : Event -> Assembler
  | .message m => { a with messages := a.messages ++ [m] }
  | .error _ => { a with errorCount := a.errorCount + 1 }
  | .complete _ => { a with isComplete := true }

/-- The event for a signal of the scanner. -/
def eventOf (a : Assembler) : Signal -> Event
  | .object text => readObject a.settings text
  | .closed => .complete a.messages.length

def react (a : Assembler) : List Signal -> Assembler × List Event
  | [] => (a, [])
  | signal :: signals =>
      let event := a.eventOf signal
      let (a, events) := (a.record event).react signals
      (a, event :: events)

/-- No input counts after the end of the list or of the response. -/
def isOver (a : Assembler) : Bool :=
  a.scanner.place.isClosed || a.isFinished

def feed (a : Assembler) (chunk : Bytes) : Assembler × List Event :=
  if a.isOver then (a, [])
  else
    let (scanner, signals) := a.scanner.feed chunk
    { a with scanner := scanner }.react signals

/-- How many messages a chunk completes. -/
def completedBy (a : Assembler) (chunk : Bytes) : Nat :=
  (a.feed chunk).1.messages.length - a.messages.length

/-- How many messages each of some chunks completes. -/
def completedByEach (a : Assembler) : List Bytes -> List Nat
  | [] => []
  | chunk :: chunks => a.completedBy chunk :: (a.feed chunk).1.completedByEach chunks

/-! ## Finishing -/

/-- The messages that equal none of those delivered before them. -/
def undelivered (delivered : List Message) : List Message -> List Message
  | [] => []
  | m :: ms =>
      if delivered.any (· == m) then undelivered delivered ms
      else m :: undelivered (delivered ++ [m]) ms

/-- The events that come of what the scanner still holds. -/
def recovery (a : Assembler) : List Event :=
  let text := Text.trim (Text.decodeLossy a.scanner.place.held)
  if text.isEmpty then []
  else
    match Response.ofChars text with
    | .ok ms => (undelivered a.messages ms).map .message
    | .error e =>
        match a.settings.finishMode with
        | .lenient => []
        | .strict => [.error (.recovery (previewOf a.settings text) e)]

/-- Completes the stream unless it is complete. -/
def complete (a : Assembler) : Assembler × List Event :=
  if a.isComplete then (a, [])
  else
    let event := Event.complete a.messages.length
    (a.record event, [event])

/-- The end of the response. -/
def finish (a : Assembler) : Assembler × List Event :=
  if a.isFinished then (a, [])
  else
    let recovered := if a.scanner.place.isClosed then [] else a.recovery
    let (a, completed) := (recovered.foldl record { a with isFinished := true }).complete
    (a, recovered ++ completed)

/-- Feeds chunks one after the other. -/
def feedAll (a : Assembler) : List Bytes -> Assembler × List Event
  | [] => (a, [])
  | chunk :: chunks =>
      let (a, events) := a.feed chunk
      let (a, more) := a.feedAll chunks
      (a, events ++ more)

end Assembler
end SurfaceFeed
