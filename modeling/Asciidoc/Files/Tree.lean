import Asciidoc.Files.Path
import Asciidoc.Text.Quoted
import Asciidoc.Text.Utf8

/-!
# Files in memory

A tree of files below a root, seen from one of its directories. A path leads through the tree
name by name: every name but the last has to be that of a directory, and two dots lead up, also
out of the tree. Above the root there are directories and nothing else.

Of a path that leads nowhere it is mostly known that nothing is there. Nobody can tell if the path
or a name on the way has too many bytes, or if a directory on the way lets nobody through
(`PathContent.hidden`); a file that nobody may open is there all the same.

Opening a file to append to goes by the spelling of its path alone: two dots take back the name
before them, whatever it stands for. What is appended is found by whoever reads the file next.
-/

namespace Asciidoc

open Text

/-- Why nobody can tell what there is at a path. -/
inductive LookFault where
  /-- A directory on the way lets nobody through. -/
  | noPermission
  /-- The path or a name on the way is too long. -/
  | nameTooLong
deriving DecidableEq, Repr

/-- The wording of a fault, with the number systems give it. -/
def LookFault.message : LookFault → String
  | .noPermission => "[Errno 13] Permission denied"
  | .nameTooLong => "[Errno 36] File name too long"

/-- What there is at a path. -/
inductive PathContent where
  | missing
  | directory
  | file (bytes : ByteArray)
  /-- A file that nobody may open. -/
  | sealed
  /-- Nobody can tell. -/
  | hidden (fault : LookFault)

/-- Whether there is a file, whoever may open it. -/
def PathContent.isFile : PathContent → Bool
  | .file _ | .sealed => true
  | _ => false

/-- What a name in a tree stands for. -/
inductive FileTree.Item where
  | file (bytes : ByteArray)
  /-- A file that nobody may open. -/
  | sealed
  | directory
  /-- A directory that lets nobody through. -/
  | closed

/-- What is found of an item. -/
def FileTree.Item.content : Item → PathContent
  | .file bytes => .file bytes
  | .sealed => .sealed
  | .directory | .closed => .directory

/-- Files and directories by the names that lead to them from the root. -/
structure FileTree where
  /-- What absolute paths into the tree hang on. -/
  root : Text
  /-- The names of the directory that relative paths start from. -/
  directory : List Text
  /-- The files and directories. -/
  nodes : List (List Text × FileTree.Item)

namespace FileTree

/-- A place in the tree, or a number of levels above its root. -/
inductive Place where
  | inside (names : List Text)
  | above (levels : Nat)
deriving DecidableEq, Repr

/-- What stands at names from the root; the directories on the way to a node are there too. -/
def lookup? (tree : FileTree) (names : List Text) : Option Item :=
  match tree.nodes.find? fun node => node.1 == names with
  | some (_, item) => some item
  | none =>
    if names.isEmpty || tree.nodes.any fun node => names.isPrefixOf node.1 then some .directory
    else none

/-- What stands at a place. -/
def atPlace? (tree : FileTree) : Place → Option Item
  | .inside names => tree.lookup? names
  | .above _ => some .directory

/-! ## Paths -/

/-- The number of bytes from which on a path is too long. -/
def longestPath : Nat := 4096

/-- The greatest number of bytes of a name. -/
def longestName : Nat := 255

/-- Why a file cannot be opened. -/
inductive OpenFault where
  | noSuchDirectory
  | notDirectory
  | isDirectory
  /-- Nobody may, or nobody can tell. -/
  | refused (fault : LookFault)
deriving DecidableEq, Repr

/-- The wording of a fault, with the number systems give it. -/
def OpenFault.message : OpenFault → String
  | .noSuchDirectory => "[Errno 2] No such file or directory"
  | .notDirectory => "[Errno 20] Not a directory"
  | .isDirectory => "[Errno 21] Is a directory"
  | .refused fault => fault.message

/-- What is found where a path leads nowhere. -/
def OpenFault.content : OpenFault → PathContent
  | .refused fault => .hidden fault
  | _ => .missing

/-- Why a name cannot be looked for in what should be a directory, if so. -/
def passFault? (item : Option Item) (name : Text) : Option OpenFault :=
  match item with
  | some .directory => if longestName < Utf8.size name then some (.refused .nameTooLong) else none
  | some .closed => some (.refused .noPermission)
  | some (.file _) | some .sealed => some .notDirectory
  | none => some .noSuchDirectory

/-- The place that a name leads to, if it starts from a directory. -/
def step (tree : FileTree) (place : Place) (name : Text) : Except OpenFault Place :=
  match passFault? (tree.atPlace? place) name with
  | some fault => .error fault
  | none =>
    if name = ['.', '.'] then
      .ok (match place with
        | .inside [] => .above 1
        | .inside names => .inside names.dropLast
        | .above levels => .above (levels + 1))
    else
      match place with
      | .inside names => .ok (.inside (names ++ [name]))
      | .above _ => .error .noSuchDirectory

/-- The place a path starts from. Absolute paths that do not hang on the root start above it. -/
def start (tree : FileTree) (p : Path) : Place :=
  if p.anchor.isEmpty then .inside tree.directory
  else if p.anchor = tree.root then .inside []
  else .above 1

/-- Whether a path is too long, whatever is at its names. -/
def isTooLong (p : Path) : Bool := longestPath ≤ Utf8.size p.shown

/-- What there is at a path. -/
def entry (tree : FileTree) (p : Path) : PathContent :=
  if isTooLong p then .hidden .nameTooLong
  else
    match p.parts.foldlM tree.step (tree.start p) with
    | .error fault => fault.content
    | .ok place =>
      match tree.atPlace? place with
      | some item => item.content
      | none => .missing

/-- A name is refused only if it is too long or if a directory lets nobody through. -/
theorem step_refused {tree : FileTree} {place : Place} {name : Text} {fault : LookFault}
    (h : tree.step place name = .error (.refused fault)) :
    longestName < Utf8.size name ∨ ∃ names, tree.lookup? names = some .closed := by
  rw [step.eq_def] at h
  split at h
  next found hfound =>
    obtain rfl := Except.error.inj h
    match hitem : tree.atPlace? place with
    | some .directory =>
      by_cases hlong : longestName < Utf8.size name
      · exact .inl hlong
      · simp [hitem, passFault?, hlong] at hfound
    | some .closed =>
      match place with
      | .inside names => exact .inr ⟨names, hitem⟩
      | .above _ => cases hitem
    | some (.file _) | some .sealed | none => simp [hitem, passFault?] at hfound
  next =>
    split at h
    · cases h
    · split at h <;> cases h

/-- What there is at a path is hidden only if the path or a name of it is too long or if a directory
lets nobody through. -/
theorem entry_eq_hidden {tree : FileTree} {p : Path} {fault : LookFault}
    (h : tree.entry p = .hidden fault) :
    isTooLong p = true ∨ (∃ name ∈ p.parts, longestName < Utf8.size name) ∨
      ∃ names, tree.lookup? names = some .closed := by
  have hwalk (parts : List Text) (place : Place)
      (h : parts.foldlM tree.step place = .error (.refused fault)) :
      (∃ name ∈ parts, longestName < Utf8.size name) ∨
        ∃ names, tree.lookup? names = some .closed := by
    induction parts generalizing place with
    | nil => cases h
    | cons name rest ih =>
      rw [List.foldlM_cons] at h
      cases hstep : tree.step place name with
      | error found =>
        rw [hstep] at h
        obtain rfl := Except.error.inj h
        exact (step_refused hstep).imp_left fun hlong => ⟨name, List.mem_cons_self, hlong⟩
      | ok next =>
        rw [hstep] at h
        exact (ih next h).imp_left fun ⟨name, hname, hlong⟩ =>
          ⟨name, List.mem_cons_of_mem _ hname, hlong⟩
  rw [entry] at h
  split at h
  next hlong => exact .inl hlong
  next =>
    split at h
    next found hfound =>
      cases found with
      | refused found =>
        obtain rfl := PathContent.hidden.inj h
        exact .inr (hwalk _ _ hfound)
      | _ => cases h
    next place _ =>
      split at h
      next item _ => cases item <;> cases h
      next => cases h

/-- The directory that relative paths start from. -/
def here (tree : FileTree) : Path := ⟨tree.root, tree.directory⟩

/-! ## Files to append to -/

/-- The names that a path's names spell out behind others. -/
def spelledOut (names parts : List Text) : List Text :=
  parts.foldl (fun names part => if part = ['.', '.'] then names.dropLast else names ++ [part])
    names

/-- A file that cannot be opened. -/
structure OpenFailure where
  /-- The reason. -/
  fault : OpenFault
  /-- The path spelled out. -/
  path : Path
deriving DecidableEq, Repr

/-- The wording of a failure. -/
def OpenFailure.message (f : OpenFailure) : Text :=
  f.fault.message.toList ++ [':', ' '] ++ Quoted.encode f.path.shown

/-- Why what stands at the end of a path cannot be opened, if so. What is not there is made. -/
def endFault? : Option Item → Option OpenFault
  | some .directory | some .closed => some .isDirectory
  | some .sealed => some (.refused .noPermission)
  | some (.file _) | none => none

/-- Why a file at names from the root cannot be opened, if so: each name is looked for in what the
names before it lead to. -/
def openFault? (tree : FileTree) (names : List Text) : Option OpenFault :=
  let onTheWay := names.zipIdx.findSome? fun (name, n) =>
    passFault? (tree.lookup? (names.take n)) name
  onTheWay.or (endFault? (tree.lookup? names))

/-- The names from the root of the file that a path opens to append to. No file above the root
opens. -/
def opened (tree : FileTree) (p : Path) : Except OpenFailure (List Text) :=
  match tree.start p with
  | .inside names =>
    let path : Path := ⟨tree.root, spelledOut names p.parts⟩
    if isTooLong path then .error ⟨.refused .nameTooLong, path⟩
    else
      match tree.openFault? path.parts with
      | none => .ok path.parts
      | some fault => .error ⟨fault, path⟩
  | .above _ =>
    let path : Path := ⟨p.anchor, spelledOut [] p.parts⟩
    if isTooLong path then .error ⟨.refused .nameTooLong, path⟩
    else
      match path.parts with
      | [] => .error ⟨.isDirectory, path⟩
      | name :: _ => .error ⟨(passFault? (some .directory) name).getD .noSuchDirectory, path⟩

/-- The tree with bytes added to the end of a file, which is made if it is not there. -/
def append (tree : FileTree) (names : List Text) (bytes : ByteArray) : FileTree :=
  let others := tree.nodes.filter fun node => node.1 ≠ names
  match tree.lookup? names with
  | some (.file known) => { tree with nodes := others ++ [(names, .file (known ++ bytes))] }
  | _ => { tree with nodes := others ++ [(names, .file bytes)] }

/-- The files that have got longer since an earlier tree, or were made, with the bytes added. -/
def added (tree earlier : FileTree) : List (List Text × ByteArray) :=
  tree.nodes.filterMap fun (names, item) =>
    match earlier.lookup? names, item with
    | none, .file bytes => some (names, bytes)
    | some (.file known), .file bytes =>
      if known.size < bytes.size then some (names, bytes.extract known.size bytes.size) else none
    | _, _ => none

end FileTree

end Asciidoc
