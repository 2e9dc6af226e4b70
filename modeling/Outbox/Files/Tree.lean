/-!
# File trees

* `FileTree` — the directories and files of a system, by the names on the way from the root;
* `FileTree.find` — what a path leads to, name by name;
* `FileTree.read`, `FileTree.readText` — the contents of a file, as bytes and as text;
* `FileError` — why a file cannot be read, with the words of the system for it.
-/

namespace Outbox

/-- Why a file cannot be read. -/
inductive FileError where
  /-- The path contains a character that no path may contain. -/
  | nulInPath
  /-- Nothing has the path. -/
  | notFound
  /-- The path goes on after a file. -/
  | notADirectory
  /-- The path leads to a directory. -/
  | isADirectory
  /-- The path, or a name on it, is too long. -/
  | nameTooLong
  /-- The contents of the file are no text. -/
  | notText
deriving DecidableEq, Repr

namespace FileError

/-- The words of the system. -/
def message : FileError → String
  | nulInPath => "file name contained an unexpected NUL byte"
  | notFound => "No such file or directory (os error 2)"
  | notADirectory => "Not a directory (os error 20)"
  | isADirectory => "Is a directory (os error 21)"
  | nameTooLong => "File name too long (os error 36)"
  | notText => "stream did not contain valid UTF-8"

end FileError

/-- The directories and files of a system. Each is named by the names on the way from the root. -/
structure FileTree where
  /-- The directories, apart from the root. -/
  directories : List (List String) := []
  /-- The files with their contents. -/
  files : List (List String × ByteArray) := []
  /-- The directory in which a relative path begins. -/
  workplace : List String := []

namespace FileTree

/-- The usual directories and a few small files, with an empty workplace. -/
def usual : FileTree where
  directories :=
    ["bin", "boot", "dev", "etc", "home", "lib", "media", "mnt", "opt", "proc", "root", "run",
      "sbin", "srv", "sys", "tmp", "usr", "var", "workplace"].map (fun name => [name])
    ++ ["bin", "include", "lib", "local", "sbin", "share"].map (fun name => ["usr", name])
    ++ ["cache", "lib", "log", "tmp"].map (fun name => ["var", name])
  files := [(["dev", "null"], ⟨#[]⟩), (["etc", "hosts"], ⟨#[]⟩), (["etc", "passwd"], ⟨#[]⟩)]
  workplace := ["workplace"]

/-- What a path leads to. -/
inductive Entry where
  /-- A directory. -/
  | directory
  /-- A file. -/
  | file (contents : ByteArray)

/-- The longest name in bytes. -/
def maxName : Nat := 255

/-- The longest path in bytes. -/
def maxPath : Nat := 4095

/-- What names lead to from a directory. An empty name and a single dot stay there; two dots go
one directory up, and at the root they stay. -/
def find (tree : FileTree) : List String → List String → Except FileError Entry
  | _, [] => .ok .directory
  | here, name :: rest =>
    if name = "" ∨ name = "." then tree.find here rest
    else if name = ".." then tree.find here.dropLast rest
    else if maxName < name.utf8ByteSize then .error .nameTooLong
    else if tree.directories.contains (here ++ [name]) then tree.find (here ++ [name]) rest
    else
      match tree.files.lookup (here ++ [name]) with
      | some contents => if rest.isEmpty then .ok (.file contents) else .error .notADirectory
      | none => .error .notFound

/-- The directory in which a path begins: the root, or for a relative path the workplace. -/
def startOf (tree : FileTree) (path : String) : List String :=
  if path.toList.head? = some '/' then [] else tree.workplace

/-- The contents of the file at a path. -/
def read (tree : FileTree) (path : String) : Except FileError ByteArray :=
  if path.toList.contains (Char.ofNat 0) then .error .nulInPath
  else if path = "" then .error .notFound
  else if maxPath < path.utf8ByteSize then .error .nameTooLong
  else
    match tree.find (tree.startOf path) (path.splitOn "/") with
    | .ok (.file contents) => .ok contents
    | .ok .directory => .error .isADirectory
    | .error e => .error e

/-- The text in the file at a path. -/
def readText (tree : FileTree) (path : String) : Except FileError String :=
  match tree.read path with
  | .ok contents =>
    match String.fromUTF8? contents with
    | some text => .ok text
    | none => .error .notText
  | .error e => .error e

end FileTree

end Outbox
