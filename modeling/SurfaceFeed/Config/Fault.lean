import SurfaceFeed.Json.Fault
import SurfaceFeed.Message.DecodeError
import SurfaceFeed.Text.Position

/-!
# What can be wrong with a configuration

One cause for each way in which a text fails to be a configuration, and its
wording.
-/

namespace SurfaceFeed
namespace Config

/-- What a part of a configuration was wanted to be. -/
inductive Wanted where
  | config
  | settings
  | count
  | nothing
  deriving DecidableEq, Repr

namespace Wanted

def phrase : Wanted -> String
  | config => "struct A2uiConfig"
  | settings => "struct AssemblerConfig"
  | count => "usize"
  | nothing => "unit"

end Wanted

inductive Fault where
  | notJson (fault : Json.Fault)
  | wrongType (found : Json) (wanted : Wanted)
  | negative (n : Int)
  | unknownMode (name : String)
  | repeated (name : String)

namespace Fault

def message : Fault -> String
  | notJson fault => fault.message
  | wrongType found wanted =>
      "invalid type: " ++ DecodeError.describe found ++ ", expected " ++ wanted.phrase
  | negative n => "invalid value: integer `" ++ Json.writeInt n ++ "`, expected usize"
  | unknownMode name =>
      "unknown variant `" ++ name ++ "`, expected `lenient` or `strict`"
  | repeated name => "duplicate field `" ++ name ++ "`"

end Fault
end Config

/-- Why a configuration cannot be used. -/
inductive ConfigError where
  | notText
  | parse (fault : Config.Fault) (position : Position)
  | noPreview

namespace ConfigError

def code : ConfigError -> String
  | notText => "A2UI_E_CONFIG_IO"
  | parse _ _ => "A2UI_E_CONFIG_PARSE"
  | noPreview => "A2UI_E_CONFIG_INVALID"

def cause : ConfigError -> String
  | notText => "stream did not contain valid UTF-8"
  | parse fault position => s!"{fault.message} at {position.describe}"
  | noPreview => "assembler.errorPreviewChars must be > 0"

def message (e : ConfigError) : String :=
  match e with
  | notText => "failed to read config: " ++ e.cause
  | parse _ _ => "failed to parse config: " ++ e.cause
  | noPreview => "invalid config: " ++ e.cause

end ConfigError
end SurfaceFeed
