/-!
Configuration and settings. The command line wins over the configuration, and what neither says has
a default.
-/

namespace ScriptManifest

structure Config where
  output : Option String := none
  pretty : Option Bool := none
deriving DecidableEq, Repr

structure Settings where
  input : String
  output : String
  pretty : Bool
deriving DecidableEq, Repr

def Settings.defaultOutput : String := "functions.json"

def Settings.resolve (input : String) (output : Option String) (pretty : Bool) (config : Config) :
    Settings :=
  { input := input
    output := (output.or config.output).getD defaultOutput
    pretty := pretty || config.pretty.getD false }

def Config.fileName : String := ".cfmeta.toml"

inductive Config.Fault
  | malformed
  | unknownKey (key : String)
  | repeatedKey (key : String)
  | wrongValue (key : String)
deriving DecidableEq, Repr

/-- The message for a text that is no configuration, up to the words of the reader. -/
def Config.Fault.message (_ : Config.Fault) : String :=
  "Failed to parse " ++ Config.fileName ++ ":"

def Config.Fault.reason : Config.Fault → String
  | malformed => "invalid key, value or line"
  | unknownKey key => "unknown field \x60" ++ key ++ "\x60, expected \x60output\x60 or \x60pretty\x60"
  | repeatedKey key => "duplicate key \x60" ++ key ++ "\x60"
  | wrongValue key => "invalid value of \x60" ++ key ++ "\x60"

/-- The words of the reader on a fault, without the line and the column. -/
def Config.Fault.details (f : Config.Fault) : String := " TOML parse error: " ++ f.reason

end ScriptManifest
