import StubWriter.CommandLine.Run

/-!
# The program

Takes the tree of files below the working directory, runs the command line on it, and writes back
what is new or changed. Archives among the files are not opened and count as unreadable. No compiler
program can be run from here, so that packing ends with the failure to find one. Sources are in
UTF-8, whatever encoding the environment asks for.
-/

namespace StubWriter.Main

/-- Only sources can matter to a run; of other files it is enough to know that they are there. -/
def isSourceName (name : String) : Bool :=
  name.endsWith ".java"

/-- What a directory's listing shows and what lies below it, down to a depth. -/
def entriesBelow (location : Location) (listing : Array IO.FS.DirEntry) :
    Nat → IO (List (Location × Entry))
  | 0 => return []
  | depth + 1 => do
    let mut found := []
    for e in listing do
      let l := location ++ [e.fileName]
      if ← e.path.isDir then
        found := found ++ [(l, Entry.dir)] ++ (← entriesBelow l (← e.path.readDir) depth)
      else if isSourceName e.fileName then
        found := found ++ [(l, Entry.file (.plain (← IO.FS.readBinFile e.path)))]
      else found := found ++ [(l, Entry.file (.plain ByteArray.empty))]
    return found

def addEntry (tree : FileTree) (l : Location) (e : Entry) : FileTree :=
  let p : Path := ⟨0, l⟩
  let x :=
    match e with
    | .dir => Disk.makeDirs p
    | .file content => Disk.write p content
  match x tree with
  | .ok _ tree => tree
  | .error _ tree => tree

/-- How deep below the working directory files are looked for. -/
def searchDepth : Nat := 40

def currentTree : IO FileTree := do
  let listing ← (← IO.currentDir).readDir
  let entries ← entriesBelow [] listing searchDepth
  return entries.foldl (fun tree x => addEntry tree x.1 x.2) .empty

/-- Writes what is new or changed, in the order in which it was made. -/
def writeBack (before after : FileTree) : IO Unit := do
  for (l, e) in after.entries do
    if before.get? l != some e then
      let path := "/".intercalate l
      match e with
      | .dir => IO.FS.createDirAll path
      | .file content => IO.FS.writeBinFile path content.bytes

/-- The variables that may change a setting, as far as they are set. -/
def environment : IO Environment := do
  let mut env := []
  for name in ["STUBFORGE_ENCODING", "STUBFORGE_SOURCE_PATH", "STUBFORGE_JAVAC",
      "STUBFORGE_JAVAC_TIMEOUT", "STUBFORGE_LOG_LEVEL"] do
    match ← IO.getEnv name with
    | some value => env := env ++ [(name, value)]
    | none => pure ()
  return env

/-- Stands for a compiler program that is not there. -/
def missingCompiler (settings : Settings) : Compiler := fun call =>
  let program : CompilerProgram := ⟨settings.compiler, settings.timeout, call.classpath⟩
  program.run call .notFound call.tree

end StubWriter.Main

open StubWriter in
def main (words : List String) : IO UInt32 := do
  let (preferences, log) := Settings.ofEnvironment (← Main.environment)
  for e in log do
    IO.eprintln e.text
  let settings := preferences.toSettings
  let before ← Main.currentTree
  let o := CommandLine.run words settings (Main.missingCompiler settings) before
  Main.writeBack before o.workshop.tree
  IO.print o.output
  IO.eprint o.errors
  return o.status.toUInt32
