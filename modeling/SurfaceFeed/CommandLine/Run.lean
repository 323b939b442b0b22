import SurfaceFeed.Assembler
import SurfaceFeed.CommandLine.Arguments
import SurfaceFeed.Config.Reader
import SurfaceFeed.FileTree
import SurfaceFeed.Render.Tree

/-!
# Running a command

## Reports

A command is run on the files that it may read and on the standard input.  Its
report is what it prints and, if it fails, why: the failure first and what
caused it after that.
-/

namespace SurfaceFeed
namespace CommandLine

structure Environment where
  entry : String -> Except PathError Entry
  standardInput : Bytes

structure Report where
  printed : String
  failure : List String
  deriving DecidableEq, Repr

namespace Report

def done (printed : String) : Report := ⟨printed, []⟩

def failed (chain : List String) : Report := ⟨"", chain⟩

end Report

/-! ## Input -/

def directoryMessage : String := "Is a directory (os error 21)"

/-- The text of an input that is read as a whole. -/
def readText (env : Environment) (input : String) : Except (List String) (List Char) :=
  if input = standardInput then
    match Text.decode env.standardInput with
    | .ok text => .ok text
    | .error fault => .error ["reading stdin", fault.message]
  else
    let reading := "reading " ++ input
    match env.entry input with
    | .error e => .error [reading, e.message]
    | .ok .directory => .error [reading, directoryMessage]
    | .ok (.file content) | .ok (.device content) =>
        match Text.decode? content with
        | some text => .ok text
        | none => .error [reading, "stream did not contain valid UTF-8"]

/-- The bytes of an input that is read in chunks. -/
def readBytes (env : Environment) (input : String) : Except (List String) Bytes :=
  if input = standardInput then .ok env.standardInput
  else
    match env.entry input with
    | .error e => .error ["opening " ++ input, e.message]
    | .ok .directory => .error ["reading stream input", directoryMessage]
    | .ok (.file content) | .ok (.device content) => .ok content

/-- A path that leads to no file stands for no configuration. -/
def loadConfig (env : Environment) (path : String) : Except (List String) Config :=
  match Config.load ((env.entry path).toOption.bind Entry.content?) with
  | .ok config => .ok config
  | .error e =>
      let chain := ["loading " ++ path, e.message]
      match e with
      | .noPreview => .error chain
      | .notText | .parse _ _ => .error (chain ++ [e.cause])

def messagesOf (text : List Char) : Except (List String) (List Message) :=
  match Response.ofChars text with
  | .ok messages => .ok messages
  | .error e => .error [e.code, e.message, e.cause]

/-! ## Commands -/

def parse (env : Environment) (input : String) : Except (List String) String := do
  let text ← readText env input
  let messages ← messagesOf text
  .ok ((Json.array (messages.map Encode.message)).pretty ++ "\n")

def render (env : Environment) (input : String) (json : Bool) :
    Except (List String) String := do
  let text ← readText env input
  let messages ← messagesOf text
  match (Session.start.applyAll messages).1.render with
  | none => .error ["response did not define a surface"]
  | some tree => .ok (if json then tree.toJson.pretty ++ "\n" else tree.outline)

/-- The chunks of a text, each of `size` bytes but the last. -/
def chunks (size : Nat) (text : Bytes) : List Bytes :=
  match text with
  | [] => []
  | b :: rest =>
      if size = 0 then [b :: rest]
      else (b :: rest).take size :: chunks size ((b :: rest).drop size)
termination_by text.length
decreasing_by simp; omega

/-- The size of the buffer before the standard input. -/
def bufferSize : Nat := 8192

/-- The most bytes in one reading. -/
def readingLimit : Nat := 2097152

/--
The chunks in which an input is read.  Those of the standard input are cut from one
buffer after the other, unless a chunk is as large as the buffer.
-/
def readings (input : String) (size : Nat) (text : Bytes) : List Bytes :=
  let size := min size readingLimit
  if input = standardInput ∧ size < bufferSize then
    (chunks bufferSize text).flatMap (chunks size)
  else chunks size text

/-! No byte is lost between two readings. -/

theorem flatten_chunks (size : Nat) (text : Bytes) : (chunks size text).flatten = text := by
  fun_induction chunks size text with
  | case1 => rfl
  | case2 => simp
  | case3 b rest h ih =>
      rw [List.flatten_cons, ih]
      exact List.take_append_drop size (b :: rest)

theorem flatten_flatMap_chunks (size : Nat) (blocks : List Bytes) :
    (blocks.flatMap (chunks size)).flatten = blocks.flatten := by
  induction blocks with
  | nil => rfl
  | cons block rest ih => simp [flatten_chunks, ih]

theorem flatten_readings (input : String) (size : Nat) (text : Bytes) :
    (readings input size text).flatten = text := by
  simp only [readings]
  split
  · rw [flatten_flatMap_chunks, flatten_chunks]
  · exact flatten_chunks _ text

/-- Each message on a line of its own. -/
def messageLines (messages : List Message) : String :=
  String.join (messages.map fun m => (Encode.message m).compact ++ "\n")

def stream (env : Environment) (config : Config) (input : String) (chunkSize : Nat)
    (strict render : Bool) : Except (List String) String := do
  if chunkSize = 0 then .error ["--chunk-size must be at least 1"]
  else
    let settings :=
      if strict then { config.assembler with finishMode := .strict } else config.assembler
    let text ← readBytes env input
    let assembler := ((Assembler.start settings).feedAll (readings input chunkSize text)).1
    let messages := assembler.finish.1.messages
    let outline :=
      if render then
        match (Session.start.applyAll messages).1.render with
        | some tree => tree.outline
        | none => ""
      else ""
    .ok (messageLines messages ++ outline)

def runCommand (env : Environment) (config : Config) :
    Command -> Except (List String) String
  | .parse input => parse env input
  | .render input json => render env input json
  | .stream input chunkSize strict withOutline =>
      stream env config input chunkSize strict withOutline

/-- The configuration is loaded first, also for commands that do not need it. -/
def Invocation.run (invocation : Invocation) (env : Environment) : Report :=
  match loadConfig env invocation.config with
  | .error chain => .failed chain
  | .ok config =>
      match runCommand env config invocation.command with
      | .ok printed => .done printed
      | .error chain => .failed chain

end CommandLine
end SurfaceFeed
