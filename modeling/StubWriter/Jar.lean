import StubWriter.Failure
import StubWriter.Event

/-!
# Packing archives

An archive holds a manifest, then an entry for each directory and each file of a tree, named
relative to a base. It is written beside its place and moved there once it is complete, so a failure
leaves what was there before.

* `Jar.members`: the entries below a root, a directory before what it holds.
* `Jar.pack`: the whole packing.
-/

namespace StubWriter.Jar

def manifestName : String := "META-INF/MANIFEST.MF"

def manifestText : String := "Manifest-Version: 1.0\r\n\r\n"

/-- What an archive is called until it is complete. -/
def unfinishedName (name : String) : String :=
  name ++ ".part"

/-- What to pack: everything below a root, or the files directly in it that pass a test. -/
inductive Selection where
  | all
  | files (accepts : Path → Bool)

/-- The path of a location below that of `root`. -/
def pathBelow (root : Path) (rootLocation l : Location) : Path :=
  { root with segments := root.segments ++ l.drop rootLocation.length }

/-- Asks a tree of files. -/
def ask {α : Type} (tree : FileTree) (x : Disk α) : Except PackFault α :=
  match x tree with
  | .ok a _ => .ok a
  | .error e _ => .error (.system e)

/-- The paths to pack, in the order of their entries. -/
def selected (tree : FileTree) (root : Path) : Selection → Except PackFault (List Path)
  | .all =>
    match tree.locate root with
    | .ok l =>
      if tree.get? l == some .dir then
        .ok (root :: (tree.below l).map fun x => pathBelow root l x.1)
      else .ok [root]
    | .error _ => .ok [root]
  | .files accepts => do
    let found ← ask tree (Disk.list root)
    let paths := found.map fun x => root.join ⟨0, [x.1.getLast?.getD ""]⟩
    paths.filterM fun p => return (← ask tree (Disk.isFile p)) && accepts p

/-- The entry of a path: a directory is empty and its name ends in a slash. -/
def member (tree : FileTree) (base p : Path) : Except PackFault (String × ByteArray) :=
  match p.relativeTo? base with
  | none => .error (.outside p base)
  | some relative => do
    if ← ask tree (Disk.isDir p) then return (relative.toString ++ "/", ByteArray.empty)
    else return (relative.toString, (← ask tree (Disk.read p)).bytes)

/-- The entries of an archive behind its manifest. -/
def members (tree : FileTree) (base root : Path) (selection : Selection) :
    Except PackFault (List (String × ByteArray)) := do
  (← selected tree root selection).mapM (member tree base)

/-- Steps of a packing, which may fail in more ways than those on files. -/
abbrev Packing := EStateM PackFault FileTree

def onDisk {α : Type} (x : Disk α) : Packing α := fun tree =>
  match x tree with
  | .ok a tree => .ok a tree
  | .error e tree => .error (.system e) tree

/-- Writes the archive under its unfinished name, then moves it to its place. -/
def write (base root out : Path) (selection : Selection) : Packing Unit := do
  let unfinished := out.withName (unfinishedName out.name)
  onDisk (Disk.makeDirs out.parent)
  onDisk (Disk.write unfinished (.archive .deflated []))
  match members (← get) base root selection with
  | .error fault => throw fault
  | .ok found =>
    let complete := (manifestName, manifestText.toUTF8) :: found
    onDisk (Disk.write unfinished (.archive .deflated complete))
    onDisk (Disk.move unfinished out)

/-- Removes a file if it is there. -/
def discard (p : Path) : Disk Unit := do
  if ← Disk.exists? p then Disk.remove p

/-- Packs what lies below a root, relative to a base, which is the directory of the root unless it
is given. What is left of an archive that cannot be finished is removed. -/
def pack (base? : Option Path) (selection : Selection) (root out : Path) :
    EStateM Failure FileTree Unit := fun tree =>
  if out.name.isEmpty then .error (.namelessArchive out) tree
  else
    match write (base?.getD root.parent) root out selection tree with
    | .ok _ tree => .ok () tree
    | .error fault tree =>
      match discard (out.withName (unfinishedName out.name)) tree with
      | .ok _ tree => .error (.cannotPack out fault) tree
      | .error e tree => .error (.system e) tree

/-- The compiled files of a class: its own and those of the classes in it. -/
def isCompiledUnitOf (className : String) (p : Path) : Bool :=
  p.suffix == ".class" && (p.stem == className || p.stem.startsWith (className ++ "$"))

end StubWriter.Jar
