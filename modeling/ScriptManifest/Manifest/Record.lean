import ScriptManifest.Signature.Mapping

/-!
The records of a manifest: one for every custom function, in the order in which they are written.
-/

namespace ScriptManifest.Manifest

structure ParameterRecord where
  name : String
  description : Option String
  mapping : Mapping
deriving DecidableEq, Repr

structure Options where
  sync : Bool := false
  cancelable : Bool := false
  stream : Bool := false
deriving DecidableEq, Repr

def Options.streaming : Options := { cancelable := true, stream := true }

structure FunctionRecord where
  name : String
  id : String
  helpUrl : String
  description : Option String
  parameters : List ParameterRecord
  result : Mapping
  options : Options
deriving DecidableEq, Repr

end ScriptManifest.Manifest

namespace ScriptManifest

structure Manifest where
  functions : List Manifest.FunctionRecord
deriving DecidableEq, Repr

end ScriptManifest
