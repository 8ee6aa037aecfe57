import ScriptManifest.FileSystem

/-!
What can stop a run.
-/

namespace ScriptManifest

inductive Failure
  | fileSystem (message path : String) (cause : Cause)
  | parse (path message : String)
  | configuration (path message : String)
deriving DecidableEq, Repr

def Failure.text : Failure → String
  | fileSystem message path _ => "File system error: " ++ message ++ ": " ++ path
  | parse path message => "Parse error in " ++ path ++ ": " ++ message
  | configuration path message => "Configuration error in " ++ path ++ ": " ++ message

def Failure.fullText : Failure → String
  | f@(fileSystem _ _ cause) => f.text ++ ": " ++ cause.text
  | f => f.text

end ScriptManifest
