import VaultSchema.Json.Reading
import VaultSchema.Text.Case
import VaultSchema.Yaml.Reading

set_option autoImplicit false

namespace VaultSchema.SchemaFile

inductive FileFault where
  | unreadable
  | notAMapping
  | yaml (fault : Yaml.YamlFault)
  deriving DecidableEq, Repr

def FileFault.message : FileFault → Option String
  | .unreadable => some "Could not parse schema file"
  | .notAMapping => some "Schema file must contain a mapping at the top level"
  | .yaml _ => none

def readYaml (text : String) : Except FileFault Value :=
  match Yaml.read .definitions text with
  | .ok v => .ok v
  | .error .malformed => .error .unreadable
  | .error f => .error (.yaml f)

def readJson (text : String) : Except FileFault Value :=
  match Json.read? text with
  | some v => .ok v
  | none => .error .unreadable

def parse (text suffix : String) : Except FileFault Entries := do
  match ← if Text.lower suffix == ".json" then readJson text else readYaml text with
  | .scalar .null => return []
  | .mapping entries => return entries
  | _ => .error .notAMapping

end VaultSchema.SchemaFile
