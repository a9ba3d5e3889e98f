import LSystems.Settings.File
import LSystems.Settings.Layers

/-!
# Stores of settings

A store holds settings that are valid, always. Other settings take their place only once
they have been found valid themselves; up to then, and for good if they are not, the
store keeps what it holds.
-/

namespace LSystems

inductive SettingsSource
  /-- A text in TOML. -/
  | text (text : String)
  /-- The text of a file, or none if the file is missing. -/
  | file (text? : Option String)
  /-- The text of a file, or none, with variables laid over it. -/
  | layers (format : FileFormat) (text? : Option String)
      (environment : List (String × String))
  /-- A change of the settings held so far. -/
  | edit (change : Settings → Settings)

def SettingsSource.candidate (current : Settings) : SettingsSource → Except Error Settings
  | text content => Settings.ofText content
  | file none => .error (.configuration .notRead)
  | file (some content) => Settings.ofText content
  | layers format text? environment => Settings.ofLayers format text? environment
  | edit change => .ok (change current)

structure SettingsStore where
  settings : Settings
  valid : settings.validate = .ok ()

namespace SettingsStore

def ofSettings (settings : Settings) : Except Error SettingsStore :=
  match valid : settings.validate with
  | .ok () => .ok ⟨settings, valid⟩
  | .error error => .error error

theorem settings_of_ofSettings {settings : Settings} {store : SettingsStore}
    (equal : ofSettings settings = .ok store) : store.settings = settings := by
  unfold ofSettings at equal
  split at equal
  · cases equal
    rfl
  · cases equal

def default : SettingsStore :=
  ⟨.default, by rfl⟩

/-- Puts the settings of a source in the place of those held. If that fails they stay. -/
def take (store : SettingsStore) (source : SettingsSource) :
    Except Error Unit × SettingsStore :=
  match source.candidate store.settings with
  | .error error => (.error error, store)
  | .ok candidate =>
    match ofSettings candidate with
    | .error error => (.error error, store)
    | .ok next => (.ok (), next)

theorem take_of_error {store : SettingsStore} {source : SettingsSource} {error : Error}
    (failed : (store.take source).1 = .error error) : (store.take source).2 = store := by
  unfold take at failed ⊢
  split
  · rfl
  · split
    · rfl
    · simp_all

end SettingsStore

end LSystems
