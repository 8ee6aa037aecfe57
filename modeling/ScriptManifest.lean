import ScriptManifest.Main
import ScriptManifest.Manifest.Reading
import ScriptManifest.Proofs.Accounting
import ScriptManifest.Proofs.AllOrNothing
import ScriptManifest.Proofs.ManifestRoundTrip
import ScriptManifest.Proofs.Lexing
import ScriptManifest.Proofs.TypeReading
import ScriptManifest.Proofs.Lowering
import ScriptManifest.Proofs.SignatureReading
import ScriptManifest.Proofs.DocLayout
import ScriptManifest.Proofs.RecordDoc
import ScriptManifest.Proofs.Printing
import ScriptManifest.Proofs.Locality
import ScriptManifest.Proofs.Identifiers
import ScriptManifest.Proofs.SignatureOrigin
import ScriptManifest.Proofs.WellFormedRecords
import ScriptManifest.Proofs.Utf8Text
import ScriptManifest.Proofs.ArgumentStates
import ScriptManifest.Proofs.CommandLineFlags
import ScriptManifest.Proofs.Presentation
import ScriptManifest.Proofs.PlainSource
import ScriptManifest.Proofs.UntypedFunctions
import ScriptManifest.Proofs.DeclarationSites
import ScriptManifest.Proofs.AnnotationReading
import ScriptManifest.Proofs.TokenLayout
import ScriptManifest.Proofs.TypeLayout
import ScriptManifest.Proofs.SignatureLayout
import ScriptManifest.Proofs.TypeSpelling
import ScriptManifest.Proofs.LayoutInsertion
import ScriptManifest.Proofs.LayoutFreedom
import ScriptManifest.Proofs.TypeLanguage
import ScriptManifest.Proofs.DeclarationAnalysis
import ScriptManifest.Proofs.BlockRoundTrip
import ScriptManifest.Proofs.CommentLines
import ScriptManifest.Proofs.ParamTagForms
import ScriptManifest.Proofs.TagSelection
import ScriptManifest.Proofs.ParamComment
import ScriptManifest.Proofs.ConfigSearch
import ScriptManifest.Proofs.FailedWriting
import ScriptManifest.Proofs.Writability
import ScriptManifest.Proofs.ConsoleLines
import ScriptManifest.Proofs.CommandLineSpellings
import ScriptManifest.Proofs.DocumentReading
import ScriptManifest.Proofs.ManifestReading
import ScriptManifest.Proofs.BalancedBraces
import ScriptManifest.Proofs.AncestorChain
import ScriptManifest.Proofs.LenientDecoding
import ScriptManifest.Proofs.TomlStrings
import ScriptManifest.Proofs.ConfigText
