import Mathlib.Data.List.Nodup
import ScriptManifest.Proofs.Accounting

/-!
Identifiers. A function is registered under the name of its declaration, and every declaration is
analysed on its own: the identifiers of a manifest are the names of the marked declarations, in
order and with all repetitions (`map_id_functions`). Overloads that are documented one by one
therefore share an identifier.
-/

namespace ScriptManifest

open Manifest Source

def markedNames (source path : String) : List (Option String) :=
  ((topLevelDeclarations source path).filter (·.isMarked)).map (·.signature.name)

theorem map_id_functions {ds : List Documented} {fs : List FunctionRecord}
    (h : fs.map some = ds.map (·.outcome.record?)) :
    fs.map (fun f => some f.id) = ds.map (·.signature.name) := by
  induction ds generalizing fs with
  | nil =>
    rw [List.map_nil, List.map_eq_nil_iff] at h
    rw [h]
    rfl
  | cons d ds ih =>
    cases fs with
    | nil => cases h
    | cons f fs =>
      rw [List.map_cons, List.map_cons] at h
      obtain ⟨hf, hfs⟩ := List.cons.inj h
      obtain ⟨name, m, hname, _, _, rfl⟩ :=
        Documented.of_accepted (Outcome.eq_accepted_of_record? hf.symm)
      rw [List.map_cons, List.map_cons, ih hfs, hname]

/-- The identifiers of a manifest are the names of the marked declarations, one for each, so they
are distinct if and only if no two marked declarations share a name. -/
theorem ids_distinct_iff_marked_names_distinct (source path : String) (m : Manifest)
    (h : (extract source path).manifest? = some m) :
    m.functions.map (fun f => some f.id) = markedNames source path ∧
      ((m.functions.map (·.id)).Nodup ↔ (markedNames source path).Nodup) := by
  rw [extract_eq_reportOn] at h
  have hids : m.functions.map (fun f => some f.id) = markedNames source path :=
    map_id_functions ((accounts_reportOn _).manifest_functions m h)
  have hsome : m.functions.map (fun f => some f.id) = (m.functions.map (·.id)).map some := by
    rw [List.map_map]
    rfl
  refine ⟨hids, ?_⟩
  rw [← hids, hsome]
  exact (List.nodup_map_iff fun _ _ => Option.some.inj).symm

def overloadedScript : String :=
  "/** @customfunction */\nfunction f(x: number): number;\n" ++
  "/** @customfunction */\nfunction f(x: string): string;\n" ++
  "function f(x) \x7b return x; \x7d\n"

def overloadedManifest : Manifest where
  functions :=
    [⟨"f", "f", "", none, [⟨"x", none, ⟨.number, .scalar⟩⟩], ⟨.number, .scalar⟩, {}⟩,
      ⟨"f", "f", "", none, [⟨"x", none, ⟨.string, .scalar⟩⟩], ⟨.string, .scalar⟩, {}⟩]

theorem manifest_overloadedScript :
    (extract overloadedScript "functions.ts").manifest? = some overloadedManifest := by
  decide +kernel

theorem ids_distinct_iff_overloaded :
    (extract overloadedScript "functions.ts").manifest? = some overloadedManifest ∧
      ((overloadedManifest.functions.map (·.id)).Nodup ↔
        (markedNames overloadedScript "functions.ts").Nodup) := by
  have h := manifest_overloadedScript
  exact ⟨h, (ids_distinct_iff_marked_names_distinct _ _ _ h).2⟩

/-- Extraction succeeds, and the manifest holds one identifier twice. -/
theorem overloads_share_an_id :
    ∃ m, (extract overloadedScript "functions.ts").manifest? = some m ∧
      m.functions.map (·.id) = ["f", "f"] ∧ ¬ (m.functions.map (·.id)).Nodup := by
  exact ⟨overloadedManifest, manifest_overloadedScript, rfl, by decide⟩

end ScriptManifest
