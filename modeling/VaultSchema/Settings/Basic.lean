import VaultSchema.Definition.Lenient
import VaultSchema.Files.Path
import VaultSchema.Text.Case

set_option autoImplicit false

namespace VaultSchema

structure Settings where
  vaultPath : String
  stateDir : Option String
  configFile : Option String
  warnOnUnknown : Bool
  allowNative : Bool
  indexDelay : Binary64
  cacheDelay : Binary64
  batchSize : Nat
  logLevel : String
  deriving DecidableEq, Repr

namespace Settings

def variableStart : String := "noteschema_"

def names : List String :=
  ["vault_path", "state_dir", "config_file", "warn_on_unknown_fields", "allow_native_properties",
    "index_debounce_seconds", "cache_debounce_seconds", "batch_size", "log_level"]

def variableNames : List String :=
  names.map fun n => String.ofList ((variableStart ++ n).toList.map Char.toUpper)

/-- Where the index and the cache are kept. -/
def statePath (s : Settings) : String := s.stateDir.getD (Path.join s.vaultPath ".noteschema")

def schemaPath (s : Settings) : String := s.configFile.getD (Path.join s.statePath "schemas.yaml")

structure Sources where
  given : Entries
  environment : List (String × String)

def Sources.find? (s : Sources) (name : String) : Option Value :=
  match Entries.get? name s.given with
  | some v => some v
  | none =>
    (s.environment.reverse.find? fun e => Text.lower e.1 == variableStart ++ name).map fun e => .text e.2

def setting {α : Type} (s : Sources) (name : String) (default : α) (read : Value → Checked α) : Checked α :=
  match s.find? name with
  | some v => (read v).under (.key name)
  | none => .good default

def path (v : Value) : Checked String :=
  match Lenient.text v with
  | .good s => .good (Path.normalize s)
  | _ => Checked.fail .notPath

def delay (v : Value) : Checked Binary64 :=
  (Lenient.float v).refine fun x => if x.less .zero then Checked.fail .tooSmall else .good x

def positive (v : Value) : Checked Nat :=
  (Lenient.integer v).refine fun i => if i < 1 then Checked.fail .tooSmall else .good i.toNat

def read (folder : String) (s : Sources) : Checked Settings :=
  Settings.mk <$> setting s "vault_path" folder path
    <*> setting s "state_dir" none (Checked.orNull path)
    <*> setting s "config_file" none (Checked.orNull path)
    <*> setting s "warn_on_unknown_fields" true Lenient.truth
    <*> setting s "allow_native_properties" true Lenient.truth
    <*> setting s "index_debounce_seconds" .one delay
    <*> setting s "cache_debounce_seconds" (.ofNat 2) delay
    <*> setting s "batch_size" 50 positive
    <*> setting s "log_level" "INFO" Lenient.text

end Settings
end VaultSchema
