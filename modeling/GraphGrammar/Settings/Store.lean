import GraphGrammar.Files
import GraphGrammar.Settings.Basic

/-!
Where settings are kept. A store holds blobs of bytes under keys. Settings are kept as documents, and a
blob that is missing or empty holds none. A file that is named for a run has to be there, while the
user's own file may be missing.
-/

namespace GraphGrammar

inductive StoreError where
  | notFound
  | inaccessible
  | refused (cause : DocumentError)
  | other (reason : String)
deriving DecidableEq

def StoreError.message? : StoreError → Option String
  | notFound => some "not found"
  | other reason => some ("other: " ++ reason)
  | inaccessible | refused _ => none

/-- Blobs of bytes under keys. -/
structure BlobStore (m : Type → Type) where
  load : String → m (Except StoreError ByteArray)
  save : String → ByteArray → m (Except StoreError Unit)

def StoreError.ofFileError : FileError → StoreError
  | .notFound => notFound
  | .failed => inaccessible

namespace BlobStore

variable {m : Type → Type} [Monad m]

/-- One file, whatever the key. -/
def file (files : FileAccess m) (path : String) : BlobStore m where
  load _ := do return (← files.read path).mapError .ofFileError
  save _ bytes := do return (← files.write path bytes).mapError .ofFileError

def pathOf (directory key : String) : String :=
  if key.startsWith "/" then key ++ ".json" else directory ++ "/" ++ key ++ ".json"

/-- The files of a directory, each named for its key. -/
def directory (files : FileAccess m) (path : String) : BlobStore m where
  load key := (file files (pathOf path key)).load key
  save key bytes := (file files (pathOf path key)).save key bytes

end BlobStore

/-- The settings in a blob. Bytes that encode no text do no harm in the parts that are skipped. -/
def RunSettings.ofBytes (bytes : ByteArray) : Except DocumentError RunSettings :=
  match String.fromUTF8? bytes with
  | some text => ofText text
  | none => Json.readBytes read bytes

namespace BlobStore

variable {m : Type → Type} [Monad m]

def loadSettings (store : BlobStore m) (key : String) :
    m (Except StoreError (Option RunSettings)) := do
  match ← store.load key with
  | .error .notFound => return .ok none
  | .error e => return .error e
  | .ok bytes =>
    if bytes.isEmpty then return .ok none
    else return (some <$> RunSettings.ofBytes bytes).mapError .refused

def saveSettings (store : BlobStore m) (key : String) (settings : RunSettings) :
    m (Except StoreError Unit) :=
  store.save key settings.text.toUTF8

end BlobStore

def settingsKey : String := "warren"

inductive SettingsSource where
  | file (path : String)
  | user (path : String)
deriving DecidableEq

namespace SettingsSource

variable {m : Type → Type} [Monad m]

def store (files : FileAccess m) : SettingsSource → BlobStore m
  | file path => .file files path
  | user path => .directory files path

def load (files : FileAccess m) (source : SettingsSource) : m (Except StoreError RunSettings) := do
  match source, ← (source.store files).loadSettings settingsKey with
  | _, .ok (some settings) => return .ok settings
  | file _, .ok none => return .error .notFound
  | user _, .ok none => return .ok {}
  | _, .error e => return .error e

/-- The settings to start from when they are about to be saved, which may be missing. -/
def loadForUpdate (files : FileAccess m) (source : SettingsSource) :
    m (Except StoreError RunSettings) := do
  match ← source.load files with
  | .error .notFound => return .ok {}
  | result => return result

def save (files : FileAccess m) (source : SettingsSource) (settings : RunSettings) :
    m (Except StoreError Unit) :=
  (source.store files).saveSettings settingsKey settings

end SettingsSource

end GraphGrammar
