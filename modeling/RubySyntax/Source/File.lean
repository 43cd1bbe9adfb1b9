/-
  RubySyntax.Source.File
  ──────────────────────
  **FILES.**

  A file system answers for each path with the bytes of a file or with the reason why there are
  none.  The bare file system has no files, only the directories that every system has.
-/
import RubySyntax.Version

namespace RubySyntax.Source

/-- Why a path gives no bytes. -/
inductive FileFault where
  /-- Nothing has this path. -/
  | notFound
  /-- A directory has this path. -/
  | isDirectory
deriving DecidableEq, Repr

/-- The report of the system. -/
def FileFault.message : FileFault → String
  | .notFound => "No such file or directory (os error 2)"
  | .isDirectory => "Is a directory (os error 21)"

/-- The answers to paths. -/
abbrev FileSystem := (path : String) → Except FileFault (List UInt8)

namespace FileSystem

/-- The names between the slashes of a path. -/
def components : List Char → List (List Char)
  | [] => [[]]
  | c :: rest =>
    if c == '/' then [] :: components rest
    else match components rest with
      | [] => [[c]]
      | name :: names => (c :: name) :: names

/-- The directories of a system below its root, each by the names that lead to it. -/
def standardDirectories : List (List String) :=
  [["bin"], ["boot"], ["dev"], ["dev", "pts"], ["dev", "shm"], ["etc"], ["etc", "default"],
    ["etc", "init.d"], ["etc", "profile.d"], ["etc", "skel"], ["etc", "ssl"], ["home"], ["lib"],
    ["lib64"], ["media"], ["mnt"], ["opt"], ["proc"], ["proc", "self"], ["proc", "sys"], ["root"],
    ["run"], ["run", "lock"], ["sbin"], ["srv"], ["sys"], ["sys", "class"], ["sys", "dev"],
    ["sys", "fs"], ["sys", "kernel"], ["tmp"], ["usr"], ["usr", "bin"], ["usr", "games"],
    ["usr", "include"], ["usr", "lib"], ["usr", "local"], ["usr", "local", "bin"],
    ["usr", "local", "etc"], ["usr", "local", "lib"], ["usr", "local", "sbin"],
    ["usr", "local", "share"], ["usr", "sbin"], ["usr", "share"], ["usr", "share", "doc"],
    ["usr", "share", "man"], ["usr", "src"], ["var"], ["var", "cache"], ["var", "lib"],
    ["var", "local"], ["var", "lock"], ["var", "log"], ["var", "mail"], ["var", "opt"],
    ["var", "run"], ["var", "spool"], ["var", "tmp"]]

/-- Where a step leads from a directory below the root: an empty name or one point stays, two
points go up, and a name goes down to a standard directory. -/
def step? (place : List String) (name : String) : Option (List String) :=
  if name.isEmpty || name == "." then some place
  else if name == ".." then some place.dropLast
  else
    let next := place ++ [name]
    if standardDirectories.contains next then some next else none

/-- Whether a name leads from a directory to itself or to the one that holds it. -/
def isSelfOrParent (name : String) : Bool := name.isEmpty || name == "." || name == ".."

/-- Whether every system has a directory of a path.  Of the directory where a relative path begins
nothing is known but that other directories hold it. -/
def isBareDirectory (path : List Char) : Bool :=
  let names := (components path).map String.ofList
  match path with
  | [] => false
  | '/' :: _ => (names.foldlM step? []).isSome
  | _ => names.all isSelfOrParent

/-- The file system without files. -/
def bare : FileSystem := fun path =>
  .error (if isBareDirectory path.toList then .isDirectory else .notFound)

end FileSystem

end RubySyntax.Source
