/-
FiberEngine.Config.Error — what can go wrong with a tunable, and how it is told.

`message` is the sentence for a user, `debug` the structured form for a
diagnostic. The text of a document error is the document reader's own affair
and no part of either.
-/
import FiberEngine.Text.Quoted

namespace FiberEngine

/-- A rejected configuration request. -/
inductive ConfigError where
  /-- A name that is empty or holds a character names may not hold. -/
  | invalidName (name : String)
  /-- A name that is taken by a tunable of another kind. -/
  | typeMismatch (name : String)
  /-- A text that is no value of the tunable's kind. -/
  | parse (name value : String)
  /-- A text that is no document. -/
  | document
  deriving DecidableEq, Repr

namespace ConfigError

def message : ConfigError → String
  | invalidName name => "invalid config name `" ++ name ++ "`"
  | typeMismatch name => "config `" ++ name ++ "` is already registered with a different type"
  | parse name value => "cannot parse `" ++ value ++ "` for config `" ++ name ++ "`"
  | document => ""

/-- The name of the cause. -/
def variant : ConfigError → String
  | invalidName _ => "InvalidName"
  | typeMismatch _ => "TypeMismatch"
  | parse _ _ => "Parse"
  | document => "Toml"

def debug : ConfigError → String
  | invalidName name => "InvalidName(" ++ Text.quote name ++ ")"
  | typeMismatch name => "TypeMismatch \x7b name: " ++ Text.quote name ++ " \x7d"
  | parse name value =>
    "Parse \x7b name: " ++ Text.quote name ++ ", value: " ++ Text.quote value ++ " \x7d"
  | document => "Toml"

end ConfigError

end FiberEngine
