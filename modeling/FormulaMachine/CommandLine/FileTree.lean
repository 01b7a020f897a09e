import FormulaMachine.Text.Blank

namespace FormulaMachine.CommandLine

inductive FileError where
  | missing
  | notDirectory
  | isDirectory
  | nameTooLong
  | nulCharacter
  | other (message : String)
  deriving DecidableEq, Repr

def FileError.message : FileError → String
  | .missing => "No such file or directory (os error 2)"
  | .notDirectory => "Not a directory (os error 20)"
  | .isDirectory => "Is a directory (os error 21)"
  | .nameTooLong => "File name too long (os error 36)"
  | .nulCharacter => "file name contained an unexpected NUL byte"
  | .other message => message

abbrev Place := List String

structure FileTree where
  workingDirectory : Place
  files : List (Place × String)
  deriving DecidableEq, Repr

namespace FileTree

def names (path : String) : List String :=
  let between := (Text.pieces '/' path.toList).map (String.ofList ·.1)
  let wanted := if path.endsWith "/" then between ++ ["."] else between
  wanted.filter (· ≠ "")

def ofWorkingDirectory (files : List (String × String)) : FileTree :=
  let directory := ["tmp", "work"]
  ⟨directory, (["dev", "null"], "") :: files.map fun (path, text) =>
    (directory ++ (names path).filter (· ≠ "."), text)⟩

def isDirectory (t : FileTree) (p : Place) : Bool :=
  p.isPrefixOf t.workingDirectory ||
    t.files.any fun (q, _) => p.isPrefixOf q && p.length < q.length

def nameLimit : Nat := 255

def pathLimit : Nat := 4095

def enter (t : FileTree) (p : Place) (name : String) : Except FileError Place :=
  if name = "." then .ok p
  else if name = ".." then .ok p.dropLast
  else if nameLimit < name.utf8ByteSize then .error .nameTooLong
  else if t.isDirectory (p ++ [name]) || (t.files.lookup (p ++ [name])).isSome then
    .ok (p ++ [name])
  else .error .missing

def follow (t : FileTree) (p : Place) : List String → Except FileError Place
  | [] => .ok p
  | name :: rest =>
      if t.isDirectory p then
        match t.enter p name with
        | .error e => .error e
        | .ok q => t.follow q rest
      else .error .notDirectory

def locate (t : FileTree) (path : String) : Except FileError Place :=
  if path.toList.contains '\x00' then .error .nulCharacter
  else if pathLimit < path.utf8ByteSize then .error .nameTooLong
  else if path = "" then .error .missing
  else t.follow (if path.startsWith "/" then [] else t.workingDirectory) (names path)

def read (t : FileTree) (path : String) : Except FileError String :=
  match t.locate path with
  | .error e => .error e
  | .ok p =>
      match t.files.lookup p with
      | some text => .ok text
      | none => .error .isDirectory

end FileTree

end FormulaMachine.CommandLine
