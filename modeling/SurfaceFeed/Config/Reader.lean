import SurfaceFeed.Config.Fault
import SurfaceFeed.Json.Skip
import SurfaceFeed.Settings

/-!
# Reading a configuration

A configuration is read straight from its text, so that the first part of the
text that does not fit is the error, and each error has a position.  Fields may
be missing, fields that nothing asks for are passed over, and no field may stand
twice.  Both structures may also be written as the lists of their parts.

The argument `length` is the length of the whole text.
-/

namespace SurfaceFeed
namespace Config
namespace Reader

open Json.Reader (skipSpace)

/-- The error of a part that is plain JSON. -/
def plain {α : Type} (result : Except (Stop Json.Fault) α) : Except (Stop Fault) α :=
  match result with
  | .ok value => .ok value
  | .error stop => .error (stop.mapCause .notJson)

/--
A value that is not what is wanted.  It is named in the error, unless it is no
value at all; a list or an object is not looked into.
-/
def unwanted {α : Type} (length : Nat) (wanted : Wanted) (s : Bytes) :
    Except (Stop Fault) α :=
  match s with
  | [] => .error ⟨.notJson .endInValue, []⟩
  | b :: rest =>
      if b == 0x5b then .error ⟨.wrongType (.array []) wanted, b :: rest⟩
      else if b == 0x7b then .error ⟨.wrongType (.object []) wanted, b :: rest⟩
      else do
        let (found, s) ← plain (Json.Reader.value length 0 (b :: rest))
        .error ⟨.wrongType found wanted, s⟩

/-! ## Counts -/

def count (length : Nat) (s : Bytes) : Except (Stop Fault) (Nat × Bytes) :=
  let s := skipSpace s
  match s with
  | [] => .error ⟨.notJson .endInValue, []⟩
  | b :: _ =>
      if b == 0x2d || Json.Number.isDigit b then do
        let (found, s) ← plain (Json.Reader.value length 0 s)
        match found with
        | .int n => if n < 0 then .error ⟨.negative n, s⟩ else .ok (n.toNat, s)
        | found => .error ⟨.wrongType found .count, s⟩
      else unwanted length .count s

/-! ## Finish modes -/

/-- The name of a mode after its opening quote. -/
def modeName (length : Nat) (s : Bytes) : Except (Stop Fault) (FinishMode × Bytes) := do
  let (name, s) ← plain (Json.Reader.string length s)
  match FinishMode.ofName? name with
  | some mode => .ok (mode, s)
  | none => .error ⟨.unknownMode name, s⟩

/-- Null, which is what a mode that is written as a field has for its value. -/
def nothing (length : Nat) (s : Bytes) : Except (Stop Fault) Bytes :=
  let s := skipSpace s
  match s with
  | [] => .error ⟨.notJson .endInValue, []⟩
  | b :: rest =>
      if b == 0x6e then plain ((Json.Reader.word [0x75, 0x6c, 0x6c] .null rest).map Prod.snd)
      else unwanted length .nothing s

/-- A mode that is written as a field, after the opening brace. -/
def modeField (length : Nat) (s : Bytes) : Except (Stop Fault) (FinishMode × Bytes) := do
  let (mode, s) ←
    match ← plain (Json.Reader.nextField true s) with
    | .closed s => .error ⟨.notJson .expectedValue, s⟩
    | .member s => modeName length s
  let s ← plain (Json.Reader.colon s)
  let s ← nothing length s
  match skipSpace s with
  | [] => .error ⟨.notJson .endInObject, []⟩
  | b :: rest =>
      if b == 0x7d then .ok (mode, rest) else .error ⟨.notJson .expectedValue, b :: rest⟩

def finishMode (length : Nat) (s : Bytes) : Except (Stop Fault) (FinishMode × Bytes) :=
  match skipSpace s with
  | [] => .error ⟨.notJson .endInValue, []⟩
  | b :: s =>
      if b == 0x7b then modeField length s
      else if b == 0x22 then modeName length s
      else .error ⟨.notJson .expectedValue, s⟩

/-! ## Structures -/

/-- What is left when a field turns out to stand twice: space and a closing brace are taken. -/
def afterRepeated (s : Bytes) : Bytes :=
  match skipSpace s with
  | [] => []
  | b :: s => if b == 0x7d then s else b :: s

/-- The end of a list all of whose parts have been taken. -/
def endList (s : Bytes) : Except (Stop Fault) Bytes :=
  match skipSpace s with
  | [] => .error ⟨.notJson .endInList, []⟩
  | b :: s =>
      if b == 0x5d then .ok s
      else if b == 0x2c then
        match skipSpace s with
        | [] => .error ⟨.notJson .trailingCharacters, []⟩
        | c :: s =>
            if c == 0x5d then .error ⟨.notJson .trailingComma, s⟩
            else .error ⟨.notJson .trailingCharacters, s⟩
      else .error ⟨.notJson .trailingCharacters, s⟩

/-- A field that nothing asks for, after its name. -/
def otherField (length : Nat) (s : Bytes) : Except (Stop Fault) Bytes := do
  let s ← plain (Json.Reader.colon s)
  plain (Json.Skip.value length s)

/-- The fields of the settings that have been read so far. -/
structure SettingsFields where
  finishMode : Option FinishMode
  previewChars : Option Nat

def SettingsFields.settings (found : SettingsFields) : Settings :=
  ⟨found.finishMode.getD Settings.standard.finishMode,
    found.previewChars.getD Settings.standard.previewChars⟩

def settingsFields (length : Nat) :
    Nat -> Bool -> SettingsFields -> Bytes -> Except (Stop Fault) (Settings × Bytes)
  | 0, _, _, _ => .error ⟨.notJson .endInObject, []⟩
  | fuel + 1, first, found, s => do
      match ← plain (Json.Reader.nextField first s) with
      | .closed s => .ok (found.settings, s)
      | .member s =>
          let (name, s) ← plain (Json.Reader.string length s)
          if name = "finishMode" then
            if found.finishMode.isSome then .error ⟨.repeated name, afterRepeated s⟩
            else
              let s ← plain (Json.Reader.colon s)
              let (mode, s) ← finishMode length s
              settingsFields length fuel false { found with finishMode := some mode } s
          else if name = "errorPreviewChars" then
            if found.previewChars.isSome then .error ⟨.repeated name, afterRepeated s⟩
            else
              let s ← plain (Json.Reader.colon s)
              let (n, s) ← count length s
              settingsFields length fuel false { found with previewChars := some n } s
          else
            let s ← otherField length s
            settingsFields length fuel false found s

def settingsItems (length : Nat) (s : Bytes) : Except (Stop Fault) (Settings × Bytes) := do
  match ← plain (Json.Reader.nextItem true s) with
  | .closed s => .ok (.standard, s)
  | .member s =>
      let (mode, s) ← finishMode length s
      match ← plain (Json.Reader.nextItem false s) with
      | .closed s => .ok ({ Settings.standard with finishMode := mode }, s)
      | .member s =>
          let (n, s) ← count length s
          let s ← endList s
          .ok (⟨mode, n⟩, s)

def settings (length : Nat) (s : Bytes) : Except (Stop Fault) (Settings × Bytes) :=
  match skipSpace s with
  | [] => .error ⟨.notJson .endInValue, []⟩
  | b :: s =>
      if b == 0x5b then settingsItems length s
      else if b == 0x7b then settingsFields length (length + 1) true ⟨none, none⟩ s
      else unwanted length .settings (b :: s)

def configFields (length : Nat) :
    Nat -> Bool -> Option Settings -> Bytes -> Except (Stop Fault) (Config × Bytes)
  | 0, _, _, _ => .error ⟨.notJson .endInObject, []⟩
  | fuel + 1, first, found, s => do
      match ← plain (Json.Reader.nextField first s) with
      | .closed s => .ok (⟨found.getD .standard⟩, s)
      | .member s =>
          let (name, s) ← plain (Json.Reader.string length s)
          if name = "assembler" then
            if found.isSome then .error ⟨.repeated name, afterRepeated s⟩
            else
              let s ← plain (Json.Reader.colon s)
              let (assembler, s) ← settings length s
              configFields length fuel false (some assembler) s
          else
            let s ← otherField length s
            configFields length fuel false found s

def configItems (length : Nat) (s : Bytes) : Except (Stop Fault) (Config × Bytes) := do
  match ← plain (Json.Reader.nextItem true s) with
  | .closed s => .ok (.standard, s)
  | .member s =>
      let (assembler, s) ← settings length s
      let s ← endList s
      .ok (⟨assembler⟩, s)

def config (length : Nat) (s : Bytes) : Except (Stop Fault) (Config × Bytes) :=
  match skipSpace s with
  | [] => .error ⟨.notJson .endInValue, []⟩
  | b :: s =>
      if b == 0x5b then configItems length s
      else if b == 0x7b then configFields length (length + 1) true none s
      else unwanted length .config (b :: s)

def document (text : Bytes) : Except (Stop Fault) Config := do
  let (value, s) ← config text.length text
  plain (Json.Reader.finish s)
  .ok value

end Reader

/-- A preview of no characters would show nothing of an error. -/
def validate (c : Config) : Except ConfigError Config :=
  if c.assembler.previewChars = 0 then .error .noPreview else .ok c

/-- The configuration that a file of bytes holds. -/
def ofBytes (text : Bytes) : Except ConfigError Config :=
  match Text.decode? text with
  | none => .error .notText
  | some _ =>
      match Reader.document text with
      | .ok c => validate c
      | .error stop => .error (.parse stop.cause (stop.position text))

/-- Without a file, everything is standard. -/
def load (file : Option Bytes) : Except ConfigError Config :=
  match file with
  | none => .ok .standard
  | some text => ofBytes text

end Config
end SurfaceFeed
