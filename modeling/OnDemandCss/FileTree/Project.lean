import OnDemandCss.Config.Document
import OnDemandCss.Engine.Error
import OnDemandCss.FileTree.Basic

/-!
# Projects

A project is a file tree with sources and perhaps a configuration file. Its sources are the files
below the scan directories whose identifiers, the paths from the root, name a known kind.
-/
namespace OnDemandCss

namespace FileTree

mutual

def weight : FileTree → Nat
  | file _ => 1
  | folder entries => 1 + totalWeight entries

def totalWeight : List (String × FileTree) → Nat
  | [] => 0
  | (_, t) :: rest => t.weight + totalWeight rest

end

theorem totalWeight_append (ts us : List (String × FileTree)) :
    totalWeight (ts ++ us) = totalWeight ts + totalWeight us := by
  induction ts with
  | nil => simp [totalWeight]
  | cons e ts ih => simp [totalWeight, ih, Nat.add_assoc]

theorem totalWeight_map_filter_le (f : String → String) (keep : String × FileTree → Bool)
    (ts : List (String × FileTree)) :
    totalWeight ((ts.map fun e => (f e.1, e.2)).filter keep) ≤ totalWeight ts := by
  induction ts with
  | nil => simp [totalWeight]
  | cons e ts ih =>
    simp only [List.map_cons, List.filter_cons]
    split <;> simp only [totalWeight] <;> omega

end FileTree

structure Project where
  root : String
  tree : FileTree

namespace Project

/-- A path without the slashes and the components `.` in front. -/
def withoutLead : List Char → List Char
  | '/' :: path => withoutLead path
  | '.' :: '/' :: path => withoutLead path
  | path => path

def idOf (path : String) : String := SourceId.slashed (.ofList (withoutLead path.toList))

def openFolder (scan : ScanConfig) (path : String) (entries : List (String × FileTree)) :
    List (String × FileTree) :=
  (entries.map fun e => (FileTree.joined path e.1, e.2)).filter fun e =>
    !scan.excludesId (idOf e.1)

/-- The sources in the pending files and folders. Excluded folders are not entered. -/
def walk (p : Project) (scan : ScanConfig) :
    (pending : List (String × FileTree)) → Except SourceError (List String)
  | [] => .ok []
  | (path, .file _) :: rest =>
    let id := idOf path
    (walk p scan rest).map fun ids => if (scan.kindOf id).isSome then id :: ids else ids
  | (path, .folder entries) :: rest =>
    if FileTree.tooLong p.root path then
      .error (.unreadable (FileTree.located p.root path) FileError.nameTooLong.message)
    else walk p scan (openFolder scan path entries ++ rest)
termination_by pending => FileTree.totalWeight pending
decreasing_by
  all_goals simp only [FileTree.totalWeight, FileTree.weight, FileTree.totalWeight_append]
  · omega
  · have := FileTree.totalWeight_map_filter_le (FileTree.joined path)
      (fun e => !scan.excludesId (idOf e.1)) entries
    simp only [openFolder]
    omega

/-- The sources below a scan directory; one that does not exist has none. -/
def sourcesBelow (p : Project) (scan : ScanConfig) (dir : String) :
    Except SourceError (List String) :=
  match p.tree.readFolder p.root dir with
  | .ok entries => p.walk scan [(dir, .folder entries)]
  | .error .missing => .ok []
  | .error e => .error (.unreadable (FileTree.located p.root dir) e.message)

/-- All sources in order. The last scan directory is read first. -/
def discover (p : Project) (scan : ScanConfig) : Except SourceError (List String) := do
  let found ← scan.dirs.reverse.mapM (p.sourcesBelow scan)
  return (TokenSet.ofList found.flatten).toList

def read (p : Project) (id : String) : Except SourceError String :=
  match p.tree.readFile p.root id with
  | .ok text => .ok text
  | .error .missing => .error (.unknown id)
  | .error e => .error (.unreadable id e.message)

def configFile : String := "strata.toml"

/-- The configuration of a project; without a file it is the default. -/
def config (p : Project) : Except ConfigError Config :=
  match p.tree.readFile p.root configFile with
  | .ok text => Config.ofText text
  | .error .missing => .ok .default
  | .error e => .error (.unreadable (FileTree.located p.root configFile) e.message)

end Project

end OnDemandCss
