/-!
# Arguments of the command line

## Invocations

There are three commands, which take an input and options of their own, and two
options that stand before the command or after it.  An option may stand once on
each side; the one after the command counts.  The input `-` is the standard
input.
-/

namespace SurfaceFeed
namespace CommandLine

inductive Command where
  | parse (input : String)
  | render (input : String) (json : Bool)
  | stream (input : String) (chunkSize : Nat) (strict render : Bool)
  deriving DecidableEq, Repr

structure Invocation where
  config : String
  verbose : Bool
  command : Command
  deriving DecidableEq, Repr

/-- Arguments that are no invocation: a question about the program, or a mistake. -/
inductive Usage where
  | help
  | version
  | mistake
  deriving DecidableEq, Repr

/-! ## Words -/

/-- What an argument looks like. -/
inductive Word where
  | endOfOptions
  | long (name : String) (value : Option String)
  | short (letters : List Char)
  | plain
  deriving DecidableEq, Repr

def Word.ofArgument (argument : String) : Word :=
  match argument.toList with
  | ['-', '-'] => endOfOptions
  | '-' :: '-' :: rest =>
      let name := String.ofList (rest.takeWhile (· != '='))
      match rest.dropWhile (· != '=') with
      | [] => long name none
      | _ :: value => long name (some (String.ofList value))
  | '-' :: letter :: letters => short (letter :: letters)
  | _ => plain

/-- A natural number of 64 bits, with or without a plus sign. -/
def count? (text : String) : Option Nat :=
  let digits :=
    match text.toList with
    | '+' :: rest => rest
    | digits => digits
  if digits.isEmpty || !digits.all Char.isDigit then none
  else
    let n := digits.foldl (fun n c => n * 10 + (c.toNat - '0'.toNat)) 0
    if n < UInt64.size then some n else none

/-! ## Options -/

/-- The part of the arguments before the command, or after the name of a command. -/
inductive Side where
  | before
  | parse
  | render
  | stream
  deriving DecidableEq, Repr

def Side.ofName? (name : String) : Option Side :=
  match name with
  | "parse" => some parse
  | "render" => some render
  | "stream" => some stream
  | _ => none

/--
The options found so far.  A value that is an argument of its own is waiting, with
the name of its option, until the next argument has been looked at.
-/
structure Options where
  waiting : Option (String × String)
  config : Option String
  verbose : Bool
  input : Option String
  json : Bool
  chunkSize : Option Nat
  strict : Bool
  render : Bool
  deriving DecidableEq, Repr

def Options.unset : Options :=
  ⟨none, none, false, none, false, none, false, false⟩

namespace Side

/-- Whether an option of this side takes a value. -/
def takesValue (side : Side) (name : String) : Bool :=
  name == "config" || (side == stream && name == "chunk-size")

def flag (side : Side) (o : Options) (name : String) : Except Usage Options :=
  if name = "help" then .error .help
  else if name = "version" && side == before then .error .version
  else if name = "verbose" && !o.verbose then .ok { o with verbose := true }
  else if name = "json" && side == render && !o.json then .ok { o with json := true }
  else if name = "strict" && side == stream && !o.strict then .ok { o with strict := true }
  else if name = "render" && side == stream && !o.render then .ok { o with render := true }
  else .error .mistake

def flags (side : Side) (o : Options) : List Char -> Except Usage Options
  | [] => .ok o
  | letter :: letters => do
      let name ←
        if letter = 'h' then .ok "help"
        else if letter = 'V' then .ok "version"
        else if letter = 'v' then .ok "verbose"
        else .error .mistake
      let o ← flag side o name
      flags side o letters

/-- Gives an option that takes a value its value. -/
def assign (o : Options) (name value : String) : Except Usage Options :=
  if name = "config" then
    if o.config.isSome || value.isEmpty then .error .mistake
    else .ok { o with config := some value }
  else
    match o.chunkSize, count? value with
    | none, some n => .ok { o with chunkSize := some n }
    | _, _ => .error .mistake

def input (side : Side) (o : Options) (argument : String) : Except Usage Options :=
  if side == before || o.input.isSome then .error .mistake
  else .ok { o with input := some argument }

def inputs (side : Side) (o : Options) : List String -> Except Usage Options
  | [] => .ok o
  | argument :: rest => do
      let o ← input side o argument
      inputs side o rest

/-- Assigns the value that is waiting, if there is one. -/
def settle (o : Options) : Except Usage Options :=
  match o.waiting with
  | some (name, value) => assign { o with waiting := none } name value
  | none => .ok o

/--
The options of one side; the side before the command ends at a word that is no
option, and a value may be waiting there.
-/
def options (side : Side) (o : Options) : List String -> Except Usage (Options × List String)
  | [] => do
      let o ← settle o
      .ok (o, [])
  | argument :: rest =>
      match Word.ofArgument argument with
      | .endOfOptions => do
          let o ← settle o
          let o ← inputs side o rest
          .ok (o, [])
      | .long name (some value) =>
          if takesValue side name then do
            let o ← settle o
            let o ← assign o name value
            options side o rest
          else .error .mistake
      | .long name none =>
          if takesValue side name then
            match rest with
            | [] => .error .mistake
            | value :: rest =>
                if Word.ofArgument value = .plain then do
                  let o ← settle o
                  options side { o with waiting := some (name, value) } rest
                else .error .mistake
          else do
            let o ← settle o
            let o ← flag side o name
            options side o rest
      | .short letters => do
          let o ← settle o
          let o ← flags side o letters
          options side o rest
      | .plain =>
          if side == before then .ok (o, argument :: rest)
          else do
            let o ← settle o
            let o ← input side o argument
            options side o rest

end Side

/-! ## Invocations -/

def standardConfig : String := "a2ui.json"

def standardInput : String := "-"

def standardChunkSize : Nat := 64

def required (input : Option String) : Except Usage String :=
  match input with
  | some input => .ok input
  | none => .error .mistake

def commandOf (side : Side) (o : Options) : Except Usage Command :=
  match side with
  | .before => .error .mistake
  | .parse => (required o.input).map .parse
  | .render => (required o.input).map fun input => .render input o.json
  | .stream =>
      .ok (.stream (o.input.getD standardInput) (o.chunkSize.getD standardChunkSize)
        o.strict o.render)

/-- Whether every word names a command that there is help for. -/
def isHelpTopic (names : List String) : Bool :=
  match names with
  | [] => true
  | ["help"] => true
  | [name] => (Side.ofName? name).isSome
  | _ => false

def Invocation.ofArguments (arguments : List String) : Except Usage Invocation := do
  let (outer, rest) ← Side.options .before .unset arguments
  match rest with
  | [] => .error .mistake
  | name :: rest =>
      match Side.ofName? name with
      | some side => do
          let (inner, _) ← side.options .unset rest
          let outer ← Side.settle outer
          let command ← commandOf side inner
          let config := (inner.config.or outer.config).getD standardConfig
          .ok ⟨config, outer.verbose || inner.verbose, command⟩
      | none =>
          if name = "help" && isHelpTopic rest then .error .help else .error .mistake

end CommandLine
end SurfaceFeed
