/-!
Files. A program reaches them through a `FileAccess`, in any monad. A `FileTree` holds files in memory,
so that what a program does to its files can be run and reasoned about.
-/

namespace GraphGrammar

inductive FileError where
  /-- There is nothing at the path. -/
  | notFound
  | failed
deriving DecidableEq

structure FileAccess (m : Type → Type) where
  read : String → m (Except FileError ByteArray)
  /-- Writes a file, and creates the directories that it lacks. -/
  write : String → ByteArray → m (Except FileError Unit)

inductive FileEntry where
  | file (bytes : ByteArray)
  | directory

/-- Files and directories by the names on the way to them from the topmost directory. -/
structure FileTree where
  entries : List (List String × FileEntry)
  /-- The directory that paths without a leading slash start from. -/
  workingDirectory : List String

namespace FileTree

def empty (workingDirectory : List String) : FileTree := ⟨[], workingDirectory⟩

instance : Inhabited FileTree := ⟨empty []⟩

/-- What is at a place. The working directory and those above it are always there. -/
def get? (t : FileTree) (place : List String) : Option FileEntry :=
  if place.isPrefixOf t.workingDirectory then some .directory else t.entries.lookup place

def put (t : FileTree) (place : List String) (entry : FileEntry) : FileTree :=
  { t with entries := (place, entry) :: t.entries.filter fun e => e.1 != place }

/-! ## Paths -/

def names (path : String) : List String := path.splitOn "/"

def start (t : FileTree) (path : String) : List String :=
  if path.startsWith "/" then [] else t.workingDirectory

def greatestName : Nat := 255

def isName (name : String) : Bool := name.utf8ByteSize ≤ greatestName

def greatestPath : Nat := 4095

def isPath (path : String) : Bool :=
  path.utf8ByteSize ≤ greatestPath && path.toList.all (· != '\x00')

/-- The place that names lead to. All places on the way have to be directories. -/
def follow (t : FileTree) (place : List String) : List String → Except FileError (List String)
  | [] => .ok place
  | name :: rest =>
    match t.get? place with
    | none => .error .notFound
    | some (.file _) => .error .failed
    | some .directory =>
      if name = "" ∨ name = "." then follow t place rest
      else if name = ".." then follow t place.dropLast rest
      else if isName name then follow t (place ++ [name]) rest
      else .error .failed

def locate (t : FileTree) (path : String) : Except FileError (List String) :=
  if path.isEmpty then .error .notFound
  else if isPath path then t.follow (t.start path) (names path)
  else .error .failed

/-- The names in front of the last one that is neither empty nor a single point. -/
def parentNames (path : String) : List String :=
  (((names path).reverse.dropWhile fun name => name == "" || name == ".").drop 1).reverse

/-- The path of the directory that a path leads into, empty for the working directory. -/
def parentPath (path : String) : String :=
  (if path.startsWith "/" then "/" else "") ++ String.intercalate "/" (parentNames path)

/-! ## Reading and writing -/

def read (t : FileTree) (path : String) : Except FileError ByteArray := do
  match t.get? (← t.locate path) with
  | some (.file bytes) => return bytes
  | some .directory => throw .failed
  | none => throw .notFound

/-- Creates the directories that names lead through, up to the first that cannot be one. -/
def createDirectories (t : FileTree) (place : List String) :
    List String → Except FileError Unit × FileTree
  | [] => (.ok (), t)
  | name :: rest =>
    if name = "" ∨ name = "." then createDirectories t place rest
    else if name = ".." then createDirectories t place.dropLast rest
    else if isName name then
      match t.get? (place ++ [name]) with
      | some (.file _) => (.error .failed, t)
      | some .directory => createDirectories t (place ++ [name]) rest
      | none => createDirectories (t.put (place ++ [name]) .directory) (place ++ [name]) rest
    else (.error .failed, t)

def createParents (t : FileTree) (path : String) : Except FileError Unit × FileTree :=
  if isPath (parentPath path) then t.createDirectories (t.start path) (parentNames path)
  else (.error .failed, t)

/-- Writes a file. Directories that were created stay, also if the file cannot be written. -/
def write (t : FileTree) (path : String) (bytes : ByteArray) : Except FileError Unit × FileTree :=
  match t.createParents path with
  | (.error e, t) => (.error e, t)
  | (.ok (), t) =>
    match t.locate path with
    | .error _ => (.error .failed, t)
    | .ok place =>
      match t.get? place with
      | some .directory => (.error .failed, t)
      | _ => (.ok (), t.put place (.file bytes))

/-- The way to the files of a tree that is held as a state. -/
def access : FileAccess (StateM FileTree) where
  read path := do return (← get).read path
  write path bytes := modifyGet fun t => t.write path bytes

end FileTree

end GraphGrammar
