import FuncIR.Text.Utf8

/-!
# Files in memory

A `Store` holds files and directories by their path from the root, and the directory in which a program
works. `stat`, `read` and `write` take a path as its bytes, follow it from directory to directory, and fail as an
operating system does: a name is judged only when the directory is reached in which it is looked for. A write
replaces a file as a whole, or changes nothing.
-/

namespace FuncIR.Cli

open Text (Bytes)
open Text.Utf8 (encode)

/-- The names from the root down. -/
abbrev Path := List Bytes

inductive FileError where
  | notFound
  | notADirectory
  | isADirectory
  /-- A path or one of its names is longer than the limit. -/
  | nameTooLong
  /-- A path has a NUL in it. -/
  | nulInPath
  | notUtf8
  deriving DecidableEq, Repr

namespace FileError

def message : FileError → String
  | notFound => "No such file or directory (os error 2)"
  | notADirectory => "Not a directory (os error 20)"
  | isADirectory => "Is a directory (os error 21)"
  | nameTooLong => "File name too long (os error 36)"
  | nulInPath => "file name contained an unexpected NUL byte"
  | notUtf8 => "stream did not contain valid UTF-8"

/-- The error with this number. -/
def ofNumber? : Nat → Option FileError
  | 2 => some notFound
  | 20 => some notADirectory
  | 21 => some isADirectory
  | 36 => some nameTooLong
  | _ => none

end FileError

/-- The longest name, in bytes. -/
def maxNameSize : Nat := 255

/-- The longest path, in bytes. -/
def maxPathSize : Nat := 4095

-- The core library's own instance, also where another one is imported.
local instance decidableEqByteArray : DecidableEq ByteArray := ByteArray.decEq

inductive Entry where
  | directory
  | file (bytes : ByteArray)
  /-- A device that is always empty, whatever is written to it. -/
  | null
  /-- A device that prints what is written to it. -/
  | printer
  deriving DecidableEq

structure Store where
  entries : List (Path × Entry)
  /-- Where relative paths start. -/
  workingDirectory : Path

namespace Store

/-- The byte between two names of a path. -/
def slash : UInt8 := 0x2f

/-- The names in what follows the bytes `read` of a name. -/
def namesFrom (read : Bytes) : Bytes → Path
  | [] => if read.isEmpty then [] else [read]
  | byte :: bytes =>
    if byte = slash then (if read.isEmpty then [] else [read]) ++ namesFrom [] bytes
    else namesFrom (read ++ [byte]) bytes

/-- The names in a path. -/
def names (path : Bytes) : Path :=
  namesFrom [] path

/-- A path that ends in a slash wants a directory. -/
def wantsDirectory (path : Bytes) : Bool :=
  path.getLast? == some slash

/-- One name further: a dot stays, two dots go up. -/
def descend (path : Path) (name : Bytes) : Path :=
  if name = encode "." then path else if name = encode ".." then path.dropLast else path ++ [name]

/-- The devices. The standard input is empty, and what goes to the standard error is forgotten. -/
def devices : List (Path × Entry) :=
  [("null", .null), ("stdin", .null), ("stderr", .null), ("stdout", .printer)].map fun (name, device) =>
    ([encode "dev", encode name], device)

/-- A working directory with these files and directories in it, and the devices. -/
def ofList (entries : List (Bytes × Entry)) : Store :=
  let directory := [encode "tmp", encode "work"]
  { entries := devices ++ (directory, .directory) ::
      entries.map fun (name, entry) => ((names name).foldl descend directory, entry)
    workingDirectory := directory }

/-- The entry with exactly this path. The root is a directory, and so is whatever has an entry in it. -/
def entryAt (store : Store) (path : Path) : Except FileError Entry :=
  if path.getLast?.any (maxNameSize < ·.length) then .error .nameTooLong
  else
    match store.entries.lookup path with
    | some entry => .ok entry
    | none =>
      if path = [] ∨ store.entries.any fun (other, _) => path.isPrefixOf other then .ok .directory
      else .error .notFound

/-- Follows names from a directory. All that they lead to but the last must be directories. -/
def follow (store : Store) (path : Path) : Path → Except FileError Path
  | [] => .ok path
  | name :: names =>
    match store.entryAt path with
    | .ok .directory => follow store (descend path name) names
    | .ok _ => .error .notADirectory
    | .error error => .error error

/-- Where a path leads, whether or not something is there. -/
def resolve (store : Store) (path : Bytes) : Except FileError Path :=
  if 0 ∈ path then .error .nulInPath
  else if maxPathSize < path.length then .error .nameTooLong
  else if path.isEmpty then .error .notFound
  else store.follow (if path.head? = some slash then [] else store.workingDirectory) (names path)

/-- The entry at a path. -/
def find (store : Store) (path : Bytes) : Except FileError Entry := do
  match ← store.entryAt (← store.resolve path) with
  | .directory => return .directory
  | entry => if wantsDirectory path then .error .notADirectory else return entry

/-- The size of a file; nothing else has one. -/
def stat (store : Store) (path : Bytes) : Except FileError Nat := do
  match ← store.find path with
  | .file bytes => return bytes.size
  | _ => return 0

/-- The contents of a file, which must be UTF-8. -/
def read (store : Store) (path : Bytes) : Except FileError String := do
  match ← store.find path with
  | .directory => .error .isADirectory
  | .null | .printer => return ""
  | .file bytes =>
    match String.fromUTF8? bytes with
    | some contents => .ok contents
    | none => .error .notUtf8

/-- Gives a path a new entry in place of the one that it has, or at the end. -/
def replace (path : Path) (entry : Entry) : List (Path × Entry) → List (Path × Entry)
  | [] => [(path, entry)]
  | (other, old) :: entries =>
    if other = path then (path, entry) :: entries else (other, old) :: replace path entry entries

/-- The store with the given contents in the file at a path, which is made if there is none. -/
def write (store : Store) (path : Bytes) (contents : String) : Except FileError Store := do
  let place ← store.resolve path
  if wantsDirectory path then .error .isADirectory
  else
    match store.entryAt place with
    | .ok .directory => .error .isADirectory
    | .ok .null | .ok .printer => return store
    | .ok (.file _) | .error .notFound =>
      return { store with entries := replace place (.file contents.toUTF8) store.entries }
    | .error error => .error error

/-- The files in the working directory, by name. -/
def files (store : Store) : List (Bytes × ByteArray) :=
  store.entries.filterMap fun (path, entry) =>
    match entry, path.getLast? with
    | .file bytes, some name => if path.dropLast = store.workingDirectory then some (name, bytes) else none
    | _, _ => none

/-- The files in the working directory that another store does not have with the same contents. -/
def changedFrom (store before : Store) : List (Bytes × ByteArray) :=
  store.files.filter fun (name, bytes) => before.files.lookup name != some bytes

end Store

end FuncIR.Cli
