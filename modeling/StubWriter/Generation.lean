import StubWriter.Library.Inspection
import StubWriter.StubSource
import StubWriter.Jar
import StubWriter.Compiler

/-!
# Making stubs

A generator has source roots and units of its own. Every stub is made with a fresh library, so no
stub depends on those made before.

* `Generator.render`: the text of a stub.
* `Generator.implement`: writes the stub below a root.
* `Generator.implementJar`: writes, compiles and packs it.
-/

namespace StubWriter

/-- The files, what was reported, and the calls of the compiler so far. -/
structure Workshop where
  tree : FileTree
  log : List Event
  calls : List CompilerCall

abbrev Job := EStateM Failure Workshop

structure Generator where
  roots : List Path
  files : List (String × String)
  compiler : Compiler

/-- A stub that was made, and where. -/
structure Stub where
  resolution : Resolution
  sourcePath : Path
  archivePath : Option Path

namespace Job

def report (e : Event) : Job Unit :=
  modify fun w => { w with log := w.log ++ [e] }

def onTree {α : Type} (x : EStateM Failure FileTree α) : Job α := fun w =>
  match x w.tree with
  | .ok a tree => .ok a { w with tree }
  | .error f tree => .error f { w with tree }

/-- Runs an operation on files, whose refusal is a failure of the job. -/
def onDisk {α : Type} (failure : OsError → Failure) (x : Disk α) : Job α :=
  onTree fun tree =>
    match x tree with
    | .ok a tree => .ok a tree
    | .error e tree => .error (failure e) tree

end Job

namespace Generator

/-- Runs an inspection of a fresh library over the roots, some further ones and the given units.
Units that cannot be read are left out. -/
def inspect {α : Type} (g : Generator) (extraRoots : List Path) (x : Inspection α) :
    Job α := fun w =>
  let units := (Library.readUnits g.files).1
  let library := Library.ofUnits (g.roots ++ extraRoots) w.tree units
  match (Inspection.lookup (Library.registerUnits units) *> x) (Inspection.start library) with
  | .ok a walk => .ok a { w with log := w.log ++ walk.types.log }
  | .error f walk => .error f { w with log := w.log ++ walk.types.log }

def resolve (g : Generator) (typeName : String) (extraRoots : List Path) : Job Resolution :=
  g.inspect extraRoots (Inspection.resolve typeName)

def textOf (r : Resolution) : String :=
  StubSource.text r.target r.constructors (r.members.map Prod.snd)

/-- The stub of a type and its text. -/
def render (g : Generator) (typeName : String) : Job (Resolution × String) := do
  let r ← g.resolve typeName []
  return (r, textOf r)

/-- The levels of a type, and the graph of all types that they brought in. -/
def hierarchy (g : Generator) (typeName : String) : Job (List Level × TypeGraph) :=
  g.inspect [] do
    let found ← Inspection.levels (← Inspection.load typeName)
    return (found, (← get).types.graph)

/-- Writes a stub to its place below a root, in UTF-8. -/
def writeSource (root : Path) (t : TypeInfo) (constructors : List Constructor)
    (methods : List Method) : Job Path := do
  let path := StubSource.path t root
  Job.onDisk (.ofWriting path) do
    Disk.makeDirs path.parent
    Disk.write path (.plain (StubSource.text t constructors methods).toUTF8)
  Job.report (.wroteSource path)
  return path

/-- Makes the stub of a type and writes it below a root. -/
def implement (g : Generator) (typeName : String) (root : Path) (extraRoots : List Path) :
    Job Stub := do
  let r ← g.resolve typeName extraRoots
  let path ← writeSource root r.target r.constructors (r.members.map Prod.snd)
  return ⟨r, path, none⟩

def compile (g : Generator) (classpath : List String) (source : Path) : Job Unit := fun w =>
  let call : CompilerCall := ⟨classpath, [source], w.tree⟩
  let compiled := g.compiler call
  let w' : Workshop := ⟨compiled.tree, w.log ++ compiled.log, w.calls ++ [call]⟩
  match compiled.status with
  | .error f => .error f w'
  | .ok status => if status == 0 then .ok () w' else .error (.compileStatus source status) w'

/-- Packs a stub: the directory of the first part of its package, or its class files if it has no
package. -/
def packStub (t : TypeInfo) (directory archive : Path) : Job Unit := do
  if t.package.isEmpty then
    let units := Jar.isCompiledUnitOf (StubSource.className t)
    Job.onTree (Jar.pack (some directory) (.files units) directory archive)
  else
    let top := (splitText '.' t.package).headD ""
    Job.onTree (Jar.pack none .all (directory / top) archive)
  Job.report (.wroteArchive archive)

/-- Makes the stub of a type below a directory, compiles it and packs it there. The directory is
searched for types as well if it exists. -/
def implementJar (g : Generator) (typeName : String) (directory : Path) : Job Stub := do
  let extraRoots := if ← Job.onDisk .system (Disk.exists? directory) then [directory] else []
  let stub ← g.implement typeName directory extraRoots
  g.compile ((g.roots ++ [directory]).map toString) stub.sourcePath
  let t := stub.resolution.target
  let archive := directory / (StubSource.className t ++ ".jar")
  packStub t directory archive
  return { stub with archivePath := some archive }

end Generator

end StubWriter
