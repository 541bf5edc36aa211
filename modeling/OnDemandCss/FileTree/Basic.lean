import OnDemandCss.Text.Blank

/-!
# File trees

A finite tree of folders and files, somewhere in a larger system, with a path to its root. Paths are
texts with slashes; one that starts with a slash is read from the root of the system, any other from
the root of the tree.
Of the system around the tree only this is known: it has a root, and folders from there down to the
tree.
-/
namespace OnDemandCss

inductive FileTree where
  | file (content : ByteArray)
  | folder (entries : List (String × FileTree))

inductive FileError where
  | missing
  | notDirectory
  | isDirectory
  | nameTooLong
  | zeroCharacter
  | invalidText
deriving DecidableEq, Repr

def FileError.message : FileError → String
  | missing => "No such file or directory (os error 2)"
  | notDirectory => "Not a directory (os error 20)"
  | isDirectory => "Is a directory (os error 21)"
  | nameTooLong => "File name too long (os error 36)"
  | zeroCharacter => "file name contained an unexpected NUL byte"
  | invalidText => "stream did not contain valid UTF-8"

namespace FileTree

def empty : FileTree := folder []

/-- The components of a path. Two slashes in a row have an empty component between them. -/
def components (path : String) : List String :=
  (Text.split (· = '/') path.toList).map String.ofList

def joined (path name : String) : String :=
  if path = "" || path.endsWith "/" then path ++ name else path ++ "/" ++ name

/-! ### Writing -/

/-- The place that a component leads to. A place is the names down to it, the last one first. -/
def stepFrom (place : List String) (name : String) : List String :=
  if name = "" || name = "." then place else if name = ".." then place.tail else name :: place

/-- The places that components pass on their way from a place, without the one that they lead to. -/
def passed : (place : List String) → (names : List String) → List (List String)
  | _, [] => []
  | place, name :: rest => place :: passed (stepFrom place name) rest

def destination (path : String) : List String := (components path).foldl stepFrom []

def put (make : Option FileTree → FileTree) : List String → Option FileTree → FileTree
  | [], old => make old
  | name :: rest, old =>
    let entries := match old with
      | some (folder entries) => entries
      | _ => []
    folder ((name, put make rest (entries.lookup name)) :: entries.filter (·.1 ≠ name))

def folderAt (t : FileTree) (place : List String) : FileTree :=
  put (fun
    | some (folder entries) => folder entries
    | _ => empty) place.reverse t

/-- Makes the folders that a path passes. It also passes those that it leaves again by `..`. -/
def makePassed (t : FileTree) (path : String) : FileTree :=
  (passed [] (components path)).foldl folderAt t

def writeFile (t : FileTree) (path : String) (content : ByteArray) : FileTree :=
  put (fun _ => file content) (destination path).reverse (t.makePassed path)

def makeFolder (t : FileTree) (path : String) : FileTree :=
  (t.makePassed path).folderAt (destination path)

/-! ### Reading -/

def outside : FileTree := empty

def longestPath : Nat := 4095

def located (root path : String) : String :=
  if path.startsWith "/" then path else joined root path

def tooLong (root path : String) : Bool := longestPath < (located root path).utf8ByteSize

/-- Follows a path downwards and back; `above` holds the folders around the tree, innermost first.
-/
def follow : (above : List FileTree) → FileTree → (path : List String) → Except FileError FileTree
  | _, t, [] => .ok t
  | _, file _, _ :: _ => .error .notDirectory
  | above, folder entries, name :: rest =>
    if name = "" || name = "." then follow above (folder entries) rest
    else if name = ".." then
      match above with
      | [] => follow [] outside rest
      | t :: above => follow above t rest
    else if 255 < name.utf8ByteSize then .error .nameTooLong
    else
      match entries.lookup name with
      | none => .error .missing
      | some t => follow (folder entries :: above) t rest

def find (t : FileTree) (root path : String) : Except FileError FileTree :=
  if path.toList.contains '\x00' then .error .zeroCharacter
  else if tooLong root path then .error .nameTooLong
  else follow [] (if path.startsWith "/" then outside else t) (components path)

def readFile (t : FileTree) (root path : String) : Except FileError String := do
  match ← t.find root path with
  | folder _ => .error .isDirectory
  | file content =>
    match String.fromUTF8? content with
    | some text => .ok text
    | none => .error .invalidText

def readFolder (t : FileTree) (root path : String) :
    Except FileError (List (String × FileTree)) := do
  match ← t.find root path with
  | folder entries => .ok entries
  | file _ => .error .notDirectory

end FileTree

end OnDemandCss
