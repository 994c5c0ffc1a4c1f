import StubWriter.Path
import StubWriter.Keyed

/-!
# File trees

A tree of directories and files around a working directory, as a value. A location is the list of
names that leads to an entry from the working directory, with a `..` in front for each directory to
go up, or from the root, with a `/` in front. The working directory itself is the empty list; it,
the directories above it and the root are always there. How they lie to each other is not known:
going down leads from none of them to another one.

* `get?_put`, `get?_erase`: what writing and removing do to the view `get?`.
* `rooted` in the type: whatever is in the tree lies in a directory that is in the tree, or in one
  that is always there.

`Disk` holds the operations that may fail, in the order in which they change the tree: a failing
operation leaves what was done before it failed.
-/

namespace StubWriter

abbrev Location := List String

-- Two byte arrays are compared byte by byte, by the same test wherever this library is used.
instance decidableEqBytes : DecidableEq ByteArray := ByteArray.instDecidableEq

/-- How an archive keeps its members. Archives that keep the same members differently are different
files. -/
inductive Compression where
  | stored
  | deflated
  deriving DecidableEq, Repr

/-- What a file holds: bytes, or the members of an archive in their order. -/
inductive Content where
  | plain (bytes : ByteArray)
  | archive (compression : Compression) (members : List (String × ByteArray))
  deriving DecidableEq

namespace Content

/-- An archive without members is its end record alone: a mark, then zeros for all that it counts. -/
def emptyArchiveBytes : ByteArray :=
  ⟨(([0x50, 0x4B, 0x05, 0x06] : List UInt8) ++ List.replicate 18 0).toArray⟩

/-- The bytes of a file. An archive with members counts as a mark and the bytes of its members. -/
def bytes : Content → ByteArray
  | plain bytes => bytes
  | archive _ [] => emptyArchiveBytes
  | archive _ members => members.foldl (fun acc m => acc ++ m.2) "PK".toUTF8

/-- The members of a file that is an archive. -/
def members? : Content → Option (List (String × ByteArray))
  | archive _ members => some members
  | plain bytes => if bytes = emptyArchiveBytes then some [] else none

end Content

inductive Entry where
  | dir
  | file (content : Content)
  deriving DecidableEq

/-- The number of bytes in a file; a directory has none. -/
def Entry.size : Entry → Nat
  | .dir => 0
  | .file content => content.bytes.size

/-- Whether a location is a directory that is always there: the root, the working directory or one
above it. -/
def Location.isGiven (l : Location) : Bool :=
  l == ["/"] || l.all (· == "..")

/-- The entries in the order of their creation, each location once. -/
structure FileTree where
  entries : List (Location × Entry)
  distinct : (Keyed.keys entries).Nodup
  rooted : ∀ x ∈ entries, ¬ Location.isGiven x.1 ∧
    (Location.isGiven x.1.dropLast ∨ (x.1.dropLast, Entry.dir) ∈ entries)

namespace FileTree

/-- The empty working directory. -/
def empty : FileTree := ⟨[], by simp [Keyed.keys], by simp⟩

instance : Inhabited FileTree := ⟨empty⟩

def get? (t : FileTree) (l : Location) : Option Entry :=
  if l.isGiven then some .dir else Keyed.get? l t.entries

theorem mem_of_get? {t : FileTree} {l : Location} {e : Entry} (hl : ¬ l.isGiven)
    (h : t.get? l = some e) : (l, e) ∈ t.entries := by
  rw [get?, if_neg hl] at h
  exact Keyed.mem_of_get? h

theorem get?_of_mem {t : FileTree} {l : Location} {e : Entry} (h : (l, e) ∈ t.entries) :
    t.get? l = some e := by
  rw [get?, if_neg (t.rooted _ h).1]
  exact Keyed.get?_of_mem t.distinct h

/-- Puts an entry into a directory, in the place of a file that is there already. -/
def put (t : FileTree) (l : Location) (e : Entry) (hl : ¬ l.isGiven)
    (hp : t.get? l.dropLast = some .dir) (hd : t.get? l ≠ some .dir) : FileTree where
  entries := Keyed.set l e t.entries
  distinct := Keyed.nodup_keys_alter t.distinct
  rooted := by
    intro x hx
    rcases Keyed.mem_of_mem_set hx with rfl | hx
    · refine ⟨hl, ?_⟩
      by_cases hr : Location.isGiven l.dropLast
      · exact .inl hr
      · refine .inr (Keyed.mem_set_of_ne (mem_of_get? hr hp) ?_)
        intro h
        have hlength : l.length - 1 = l.length := by
          rw [← List.length_dropLast, show l.dropLast = l from h]
        have hpos : 0 < l.length :=
          List.length_pos_iff.mpr fun hn => hl (by simp [hn, Location.isGiven])
        omega
    · refine ⟨(t.rooted x hx).1, (t.rooted x hx).2.imp_right fun h => Keyed.mem_set_of_ne h ?_⟩
      intro hxl
      exact hd (hxl ▸ get?_of_mem h)

theorem get?_put {t : FileTree} {l : Location} {e : Entry} {hl hp hd} (m : Location) :
    (t.put l e hl hp hd).get? m = if m = l then some e else t.get? m := by
  by_cases hm : m.isGiven
  · have hml : m ≠ l := fun h => hl (h ▸ hm)
    simp [get?, hm, hml]
  · simp [get?, put, hm, Keyed.get?_set]

/-- Removes a file. -/
def erase (t : FileTree) (l : Location) (hd : t.get? l ≠ some .dir) : FileTree where
  entries := t.entries.filter fun x => x.1 ≠ l
  distinct := (List.filter_sublist.map Prod.fst).nodup t.distinct
  rooted := by
    intro x hx
    rw [List.mem_filter] at hx
    refine ⟨(t.rooted x hx.1).1, (t.rooted x hx.1).2.imp_right fun h => ?_⟩
    rw [List.mem_filter]
    refine ⟨h, ?_⟩
    simp only [decide_eq_true_eq]
    intro hxl
    exact hd (hxl ▸ get?_of_mem h)

theorem get?_erase {t : FileTree} {l : Location} {hd} (m : Location) :
    (t.erase l hd).get? m = if m = l then none else t.get? m := by
  by_cases hm : m.isGiven
  · have hml : m ≠ l := by
      rintro rfl
      simp [get?, hm] at hd
    simp [get?, hm, hml]
  · rw [get?, get?, if_neg hm, if_neg hm, erase, Keyed.get?_filter_ne]

/-- Whether a location is reached from `l` by going down. -/
def isBelow (l m : Location) : Bool :=
  l.isPrefixOf m && m != l && !Location.isGiven (m.take (l.length + 1))

/-- Puts an entry in front of the first one that does not come before it. -/
def insertEntry (x : Location × Entry) : List (Location × Entry) → List (Location × Entry)
  | [] => [x]
  | y :: ys => if y.1 < x.1 then y :: insertEntry x ys else x :: y :: ys

/-- The entries below a location that is a directory of the tree, in the order of their names:
a directory stands before what it holds. -/
def below (t : FileTree) (l : Location) : List (Location × Entry) :=
  (t.entries.filter fun x => isBelow l x.1).foldr insertEntry []

/-- The entries of a directory, in the order of their names. -/
def children (t : FileTree) (l : Location) : List (Location × Entry) :=
  (t.below l).filter fun x => x.1.length == l.length + 1

/-- The number of bytes in all files. -/
def size (t : FileTree) : Nat :=
  t.entries.foldl (fun n x => n + x.2.size) 0

end FileTree

/-! ## Failing operations -/

/-- Why an operation is refused. A path with a NUL is refused before the system sees it. -/
inductive Errno where
  | noEntry
  | busy
  | exists
  | notDirectory
  | isDirectory
  | nameTooLong
  | nulInPath
  deriving DecidableEq, Repr

def Errno.message : Errno → String
  | .noEntry => "[Errno 2] No such file or directory"
  | .busy => "[Errno 16] Device or resource busy"
  | .exists => "[Errno 17] File exists"
  | .notDirectory => "[Errno 20] Not a directory"
  | .isDirectory => "[Errno 21] Is a directory"
  | .nameTooLong => "[Errno 36] File name too long"
  | .nulInPath => "embedded null byte"

/-- A refused operation on a path; a refused move names both paths. -/
structure OsError where
  errno : Errno
  path : Path
  destination : Option Path := none
  deriving DecidableEq, Repr

/-- The account of a refusal: the reason and the paths. A path with a NUL is not shown. -/
def OsError.message (e : OsError) : String :=
  if e.errno == .nulInPath then e.errno.message
  else
    let source := s!"{e.errno.message}: {Text.quoted e.path.toString}"
    match e.destination with
    | none => source
    | some d => source ++ s!" -> {Text.quoted d.toString}"

namespace FileTree

/-- The most bytes that the name of an entry may have. -/
def maxNameBytes : Nat := 255

/-- The most bytes that a path may have. -/
def maxPathBytes : Nat := 4095

/-- The directory of a location. The root is its own. -/
def outer (l : Location) : Location :=
  if l == ["/"] then l else if l.isGiven then l ++ [".."] else l.dropLast

/-- Follows segments from a location; every segment but the last has to lead to a directory. The
length of a name counts once its directory is reached. -/
def follow (t : FileTree) (l : Location) : List String → Except Errno Location
  | [] => .ok l
  | seg :: rest =>
    match t.get? l with
    | none => .error .noEntry
    | some (.file _) => .error .notDirectory
    | some .dir =>
      if maxNameBytes < seg.utf8ByteSize then .error .nameTooLong
      else if seg == ".." then follow t (outer l) rest
      else follow t (l ++ [seg]) rest

/-- The location a path leads to, whether or not something is there. -/
def locate (t : FileTree) (p : Path) : Except Errno Location :=
  if p.segments.any fun seg => seg.toList.contains '\x00' then .error .nulInPath
  else if maxPathBytes < p.toString.utf8ByteSize then .error .nameTooLong
  else t.follow (if p.isAbsolute then ["/"] else []) p.segments

end FileTree

/-- Operations on a file tree that may fail. -/
abbrev Disk := EStateM OsError FileTree

namespace Disk

def refuse {α : Type} (errno : Errno) (p : Path) : Disk α :=
  throw { errno, path := p }

def locate (p : Path) : Disk Location := do
  match (← get).locate p with
  | .ok l => return l
  | .error errno => refuse errno p

/-- What a path leads to, if anything. Of too long a name this cannot be told. -/
def find? (p : Path) : Disk (Option Entry) := do
  let t ← get
  match t.locate p with
  | .ok l => return t.get? l
  | .error errno => if errno == .nameTooLong then refuse errno p else return none

def exists? (p : Path) : Disk Bool :=
  return (← find? p).isSome

def isDir (p : Path) : Disk Bool :=
  return (← find? p) == some .dir

def isFile (p : Path) : Disk Bool := do
  match ← find? p with
  | some (.file _) => return true
  | _ => return false

/-- What the file at a path holds. -/
def read (p : Path) : Disk Content := do
  let l ← locate p
  match (← get).get? l with
  | some (.file content) => return content
  | some .dir => refuse .isDirectory p
  | none => refuse .noEntry p

/-- The names in a directory and what they lead to. -/
def list (p : Path) : Disk (List (Location × Entry)) := do
  let l ← locate p
  match (← get).get? l with
  | some .dir => return (← get).children l
  | some (.file _) => refuse .notDirectory p
  | none => refuse .noEntry p

/-- Writes a file into an existing directory, over a file that is there. -/
def write (p : Path) (content : Content) : Disk Unit := do
  let l ← locate p
  let t ← get
  if hd : t.get? l = some .dir then refuse .isDirectory p
  else if h : ¬ l.isGiven ∧ t.get? l.dropLast = some .dir then
    set (t.put l (.file content) h.1 h.2 hd)
  else refuse .noEntry p

/-- Makes one directory. -/
def makeDir (p : Path) : Disk Unit := do
  let l ← locate p
  let t ← get
  if (t.get? l).isSome then refuse .exists p
  else if h : ¬ l.isGiven ∧ t.get? l.dropLast = some .dir ∧ t.get? l ≠ some .dir then
    set (t.put l .dir h.1 h.2.1 h.2.2)
  else refuse .noEntry p

/-- Makes one directory unless it is there. -/
def ensureDir (p : Path) : Disk Unit := do
  try makeDir p
  catch e =>
    if ← isDir p then return else throw e

/-- Makes the directory whose last segment comes first in `revSegments`, and the directories
above it that are missing. -/
def ensureDirs (slashes : Nat) : List String → Disk Unit
  | [] => ensureDir ⟨slashes, []⟩
  | seg :: above => do
    let p : Path := ⟨slashes, (seg :: above).reverse⟩
    try ensureDir p
    catch e =>
      if e.errno == .noEntry then
        ensureDirs slashes above
        ensureDir p
      else throw e

/-- Makes a directory and those above it, where they are missing. -/
def makeDirs (p : Path) : Disk Unit :=
  ensureDirs p.slashes p.segments.reverse

/-- Removes a file. -/
def remove (p : Path) : Disk Unit := do
  let l ← locate p
  let t ← get
  if hd : t.get? l = some .dir then refuse .isDirectory p
  else if (t.get? l).isSome then set (t.erase l hd)
  else refuse .noEntry p

/-- Moves a file to a path, over a file that is there. A path that ends in `..` is no place to move
a file to. -/
def move (source destination : Path) : Disk Unit := do
  let refuseMove (errno : Errno) : Disk Unit :=
    throw { errno, path := source, destination := some destination }
  let content ← read source
  let l ← locate destination
  if destination.name == ".." then refuseMove .busy
  if (← get).get? l == some .dir then refuseMove .isDirectory
  if (← locate source) != l then
    remove source
    write destination content

end Disk

end StubWriter
