import EndpointDsl.Client.Layout
import EndpointDsl.Config.Settings
import EndpointDsl.Text.Percent

/-!
The files of a generated package, and writing them.
-/

namespace EndpointDsl
namespace Client

/-- A module ready to be written. -/
structure SourceFile where
  filename : String
  text : String
  deriving DecidableEq, Repr, Inhabited

namespace SourceFile

def ofModule (m : Module) : SourceFile := ⟨m.filename, Layout.moduleText m⟩

def initName : String := "__init__.py"

/-- The module of the package itself. -/
def init (modules : List Module) : SourceFile :=
  ⟨initName, Layout.packageText (modules.map (·.name))⟩

/-- The files of a package in the order in which they are shown and written. -/
def package (settings : Settings) (modules : List SourceFile) (init : Option SourceFile) :
    List SourceFile :=
  modules ++ if settings.writeInit then init.toList else []

def ofModules (settings : Settings) (modules : List Module) : List SourceFile :=
  package settings (modules.map ofModule) (some (init modules))

def place (settings : Settings) (f : SourceFile) : DiskPath :=
  (DiskPath.ofText settings.outputDir).join f.filename

end SourceFile

variable {m : Type → Type} [Monad m] [FileStore m]

/-- Writes files to the output directory and returns where they are. -/
def writePackage (report : Event → m Unit) (settings : Settings) (files : List SourceFile) :
    m (Except OsError (List DiskPath)) := do
  match ← FileStore.writeAll (files.map fun f => (f.place settings, Text.utf8 f.text)) with
  | .error e => return .error e
  | .ok () =>
    report (.written files.length (DiskPath.ofText settings.outputDir).text)
    return .ok (files.map (·.place settings))

end Client
end EndpointDsl
