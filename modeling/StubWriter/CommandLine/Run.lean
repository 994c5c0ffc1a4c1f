import StubWriter.CommandLine.Arguments
import StubWriter.Generation
import StubWriter.Settings

/-!
# Running a command line

A command line writes the stub of one type below the working directory, or packs it into an archive
in a directory of its own. What was reported goes to the error output, in front of the reason why
nothing was made. Sources are read and written in UTF-8.
-/

namespace StubWriter.CommandLine

def usageText : String :=
  "usage: stubforge [-h] [-jar TYPE_NAME ARCHIVE_PATH] [-sp SOURCE_PATH] [-v]\n" ++
  "                 [type_name]\n"

def helpText : String :=
  usageText ++
  "\n" ++
  "Generate a default-valued <Name>Impl stub for a Java interface or abstract\n" ++
  "class\n" ++
  "\n" ++
  "positional arguments:\n" ++
  "  type_name             Fully qualified name of the type to implement\n" ++
  "\n" ++
  "options:\n" ++
  "  -h, --help            show this help message and exit\n" ++
  "  -jar TYPE_NAME ARCHIVE_PATH\n" ++
  "                        Generate, compile and pack <Name>Impl.jar into\n" ++
  "                        ARCHIVE_PATH\n" ++
  "  -sp SOURCE_PATH, --source-path SOURCE_PATH\n" ++
  "                        Source roots separated by ':' (directories or\n" ++
  "                        .jar/.zip archives)\n" ++
  "  -v, --verbose         Debug logging\n"

/-- What a run leaves behind. -/
structure Outcome where
  status : Nat
  output : String
  errors : String
  workshop : Workshop
  /-- The failure that broke the run off. -/
  broken : Option Failure

/-- The log lines of the events that are shown. -/
def logText (rank : Nat) (log : List Event) : String :=
  String.join ((log.filter fun e => rank ≤ e.level.rank).map fun e => e.line ++ "\n")

/-- The roots that a command line or the settings give. -/
def rootsOf (r : Request) (settings : Settings) : List Path :=
  match r.sourcePath with
  | some list => if list.isEmpty then settings.sourcePath else Settings.pathsOf list
  | none => settings.sourcePath

/-- Packs the stub of a type. An archive that is given in place of a directory is searched for types
as well, and the stub goes beside it. -/
def packJob (roots : List Path) (compiler : Compiler) (typeName place : String) : Job Path := do
  let path := Path.ofString place
  if ← Job.onDisk .system (Library.isArchive path) then
    let g : Generator := ⟨roots ++ [path], [], compiler⟩
    let stub ← g.implementJar typeName path.parent
    return stub.archivePath.getD path
  else
    let g : Generator := ⟨roots, [], compiler⟩
    let stub ← g.implementJar typeName path
    return stub.archivePath.getD path

def writeJob (roots : List Path) (compiler : Compiler) (typeName : String) : Job Path := do
  let g : Generator := ⟨roots, [], compiler⟩
  return (← g.implement typeName (Path.ofString ".") []).sourcePath

/-- The job that a request asks for, if it names a type. -/
def jobOf? (r : Request) (settings : Settings) (compiler : Compiler) : Option (Job Path) :=
  let roots := rootsOf r settings
  match r.jar with
  | some (typeName, place) => some (packJob roots compiler typeName place)
  | none =>
    (r.typeName.filter fun name => !name.isEmpty).map (writeJob roots compiler)

/-- Runs a command line on a tree of files. -/
def run (words : List String) (settings : Settings) (compiler : Compiler) (tree : FileTree) :
    Outcome :=
  let workshop : Workshop := ⟨tree, [], []⟩
  match Request.ofWords words with
  | .error e => ⟨2, "", usageText ++ "stubforge: error: " ++ e.message ++ "\n", workshop, none⟩
  | .ok r =>
    if r.help then ⟨0, helpText, "", workshop, none⟩
    else
      match jobOf? r settings compiler with
      | none => ⟨1, "", usageText ++ "Error: Invalid call format\n", workshop, none⟩
      | some job =>
        let rank := if r.verbose then LogLevel.debug.rank else settings.logRank
        match job workshop with
        | .ok path w => ⟨0, s!"Wrote {path}\n", logText rank w.log, w, none⟩
        | .error f w =>
          let log := logText rank w.log
          if f.isExpected then ⟨1, "", log ++ s!"Error: {f.message}\n", w, none⟩
          else ⟨1, "", log ++ s!"{f.message}\n", w, some f⟩

end StubWriter.CommandLine
