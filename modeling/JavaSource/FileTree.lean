import JavaSource.Table
import JavaSource.Text.Split

/-!
# File trees

What a machine has in its file system, by paths from the root. A relative path starts from the working
directory. Writing a file makes the directories that its path names, those too that the path leaves again;
reading goes through directories that are there. A path has no zero character and is not too long, as a whole
and in each of its parts. The main statement is that a file can be read as it was written.
-/

namespace JavaSource

inductive FileNode where
  | file (content : String)
  | directory
  /-- A directory in which nothing can be made. -/
  | closed
  /-- Another place by its parts from the root. -/
  | link (target : List String)
  /-- Neither a file to write nor a directory, with what can be read from it, if anything can. -/
  | device (content : Option String)

def FileNode.isDirectory : FileNode → Bool
  | .directory | .closed => true
  | .file _ | .link _ | .device _ => false

structure FileTree where
  /-- What there is by path, the parts of a path joined by slashes. -/
  nodes : Table FileNode := {}

namespace FileTree

def pathOf (place : List String) : String := "/".intercalate place

def node? (t : FileTree) (place : List String) : Option FileNode :=
  if place = [] then some .directory else t.nodes.get? (pathOf place)

def put (t : FileTree) (place : List String) (n : FileNode) : FileTree :=
  ⟨t.nodes.insert (pathOf place) n⟩

def isDirectory (t : FileTree) (place : List String) : Bool := (t.node? place).any (·.isDirectory)

def isClosed (t : FileTree) (place : List String) : Bool :=
  match t.node? place with
  | some .closed => true
  | _ => false

/-- The working directory. -/
def home : List String := ["tmp", "java-source"]

/-- What every system has. There is nothing to read on the standard input. -/
def system : List (List String × FileNode) :=
  [(["bin"], .directory), (["bin", "sh"], .device none), (["dev"], .directory),
    (["dev", "fd"], .closed), (["dev", "fd", "0"], .device (some "")), (["dev", "full"], .device none),
    (["dev", "null"], .device (some "")), (["dev", "random"], .device none),
    (["dev", "stderr"], .device none), (["dev", "stdin"], .device (some "")),
    (["dev", "stdout"], .device none), (["dev", "tty"], .device none),
    (["dev", "urandom"], .device none), (["dev", "zero"], .device none), (["etc"], .directory),
    (["etc", "hosts"], .device none), (["etc", "passwd"], .device none), (["home"], .directory),
    (["proc"], .closed), (["proc", "self"], .closed), (["proc", "self", "cwd"], .link home),
    (["proc", "self", "fd"], .closed), (["proc", "self", "fd", "0"], .device (some "")),
    (["root"], .directory), (["sys"], .closed), (["tmp"], .directory), (["usr"], .directory),
    (["var"], .directory), (home, .directory)]

/-- A system with an empty working directory. -/
def initial : FileTree := system.foldl (fun t e ↦ t.put e.1 e.2) {}

/-- The paths of the files below the working directory and their contents. -/
def files (t : FileTree) : List (String × String) :=
  t.nodes.entries.filterMap fun (path, n) ↦
    match n with
    | .file content =>
      ((pathOf home ++ "/").toList.isPrefixOf? path.toList).map fun r ↦ (String.ofList r, content)
    | _ => none

def parts (path : String) : List String := Text.splitString '/' path

/-- Where the parts of a path are followed from. -/
def start (path : String) : List String := if path.toList.head? = some '/' then [] else home

/-- How many bytes a part of a path has at most. -/
def maxPart : Nat := 255

/-- How many bytes a path has at most. -/
def maxPath : Nat := 4095

def isPath (path : String) : Bool :=
  !path.toList.contains '\x00' && decide (path.utf8ByteSize ≤ maxPath) &&
    (parts path).all fun part ↦ decide (part.utf8ByteSize ≤ maxPart)

/-- Where one part of a path leads from a directory. The root is above itself. -/
def step (t : FileTree) (dir : List String) (part : String) : List String :=
  if part = "" ∨ part = "." then dir
  else if part = ".." then dir.dropLast
  else
    match t.node? (dir ++ [part]) with
    | some (.link target) => target
    | _ => dir ++ [part]

/-- Follows the parts of a path through directories that are there. -/
def follow (t : FileTree) (place : List String) : List String → Option (List String)
  | [] => some place
  | part :: rest => if t.isDirectory place then t.follow (t.step place part) rest else none

def place? (t : FileTree) (path : String) : Option (List String) :=
  if isPath path then t.follow (start path) (parts path) else none

/-- The text at a path. -/
def read (t : FileTree) (path : String) : Option String :=
  match (t.place? path).bind t.node? with
  | some (.file content) => some content
  | some (.device content) => content
  | _ => none

/-- Follows the parts of a path from a directory and makes the directories that are not there. -/
def makeDirectories (t : FileTree) (dir : List String) : List String → Option FileTree
  | [] => some t
  | part :: rest =>
    let next := t.step dir part
    match t.node? next with
    | some n => if n.isDirectory then t.makeDirectories next rest else none
    | none => if t.isClosed dir then none else (t.put next .directory).makeDirectories next rest

/-- Whether a file can be written at a place. -/
def takesFile (t : FileTree) (place : List String) : Bool :=
  match t.node? place with
  | some (.file _) => true
  | some _ => false
  | none => !t.isClosed place.dropLast

/-- Writes a file and makes the directories above it. -/
def write (t : FileTree) (path content : String) : Option FileTree :=
  (t.makeDirectories (start path) (parts path).dropLast).bind fun t ↦
    (t.place? path).bind fun place ↦
      if t.takesFile place then some (t.put place (.file content)) else none

theorem node?_put {t : FileTree} {place q : List String} {n : FileNode} :
    (t.put place n).node? q = if q ≠ [] ∧ pathOf place = pathOf q then some n else t.node? q := by
  by_cases hq : q = [] <;> by_cases he : pathOf place = pathOf q <;> simp [node?, put, hq, he]

theorem ne_nil_of_takesFile {t : FileTree} {place : List String} (h : t.takesFile place) : place ≠ [] := by
  rintro rfl
  simp [takesFile, node?] at h

theorem not_isDirectory_of_takesFile {t : FileTree} {place : List String} (h : t.takesFile place) :
    t.isDirectory place = false := by
  simp only [takesFile] at h
  simp only [isDirectory]
  split at h
  · rename_i hn
    simp [hn, FileNode.isDirectory]
  · cases h
  · rename_i hn
    simp [hn]

theorem node?_eq_of_pathOf_eq {t : FileTree} {p q : List String} (hp : p ≠ []) (hq : q ≠ [])
    (h : pathOf p = pathOf q) : t.node? p = t.node? q := by
  simp [node?, hp, hq, h]

/-- A new file stands in the place of no directory. -/
theorem isDirectory_put {t : FileTree} {place q : List String} {content : String} (h : t.takesFile place) :
    (t.put place (.file content)).isDirectory q = t.isDirectory q := by
  by_cases hq : q ≠ [] ∧ pathOf place = pathOf q
  · have hn := node?_eq_of_pathOf_eq (t := t) (ne_nil_of_takesFile h) hq.1 hq.2
    have hd := not_isDirectory_of_takesFile h
    simp only [isDirectory, hn] at hd
    simp only [isDirectory, node?_put, if_pos hq, hd]
    rfl
  · simp only [isDirectory, node?_put, if_neg hq]

/-- A new file stands in the place of no link. -/
theorem step_put {t : FileTree} {place dir : List String} {part content : String} (h : t.takesFile place) :
    (t.put place (.file content)).step dir part = t.step dir part := by
  by_cases hq : dir ++ [part] ≠ [] ∧ pathOf place = pathOf (dir ++ [part])
  · have hn := node?_eq_of_pathOf_eq (t := t) (ne_nil_of_takesFile h) hq.1 hq.2
    simp only [step, node?_put, if_pos hq, ← hn]
    simp only [takesFile] at h
    split at h
    · rename_i hf
      simp [hf]
    · cases h
    · rename_i hf
      simp [hf]
  · simp only [step, node?_put, if_neg hq]

/-- A new file bars no way. -/
theorem follow_put {t : FileTree} {place q rest : List String} {content : String} (h : t.takesFile place) :
    (t.put place (.file content)).follow q rest = t.follow q rest := by
  induction rest generalizing q with
  | nil => rfl
  | cons part rest ih => simp only [follow, isDirectory_put h, step_put h, ih]

/-- What was written can be read. -/
theorem read_of_write {t u : FileTree} {path content : String} (h : t.write path content = some u) :
    u.read path = some content := by
  obtain ⟨v, -, h⟩ := Option.bind_eq_some_iff.1 h
  obtain ⟨place, hp, h⟩ := Option.bind_eq_some_iff.1 h
  split at h
  · rename_i ht
    cases h
    have hu : (v.put place (.file content)).place? path = some place := by
      simpa only [place?, follow_put ht] using hp
    simp [read, hu, node?_put, ne_nil_of_takesFile ht]
  · cases h

end FileTree
end JavaSource
