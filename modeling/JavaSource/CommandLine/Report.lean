import JavaSource.CommandLine.Command
import JavaSource.Declaration.Decode
import JavaSource.Declaration.Units
import JavaSource.FileTree

/-!
# Carrying out commands

A command reads one declaration file. Rendering writes a file for each top-level type or shows what it would
write; checking names every type that could not be resolved. Nothing is said of files before all of them are
written.
-/

namespace JavaSource.CommandLine

/-- The files that commands work on. -/
structure Disk (m : Type → Type) where
  /-- The content of the file at a path, if it can be read. -/
  read : String → m (Option String)
  /-- Writes a file and the directories above it. The answer is whether that worked. -/
  write : String → String → m Bool

def Disk.ofTree : Disk (StateM FileTree) where
  read path := do return (← get).read path
  write path content := do
    match (← get).write path content with
    | some t =>
      set t
      return true
    | none => return false

/-- The exit status of a command and what it prints. -/
structure Report where
  status : UInt32
  out : String := ""
  err : String := ""

namespace Report

def success (out : String) : Report := ⟨0, out, ""⟩

def failure (err : String) : Report := ⟨1, "", err⟩

/-- The command line makes no sense. -/
def usage : Report := ⟨2, "", "usage: jmodel [-v] render FILE [-o DIR] [--dry-run] [--indent N] [--crlf] " ++
  "[--allow-errors]\n       jmodel [-v] check FILE\n       jmodel --version\n"⟩

/-- A text with a bar in front of every line but the first, so that no line of it is taken for a line of
another sort. -/
def barred (text : String) : String := "\n  │ ".intercalate (Text.splitString '\n' text)

def ofError (e : DeclarationError) : Report :=
  let cause := match e.cause? with
    | some c => s!"  {barred c.message}\n"
    | none => ""
  let help := match e.help? with
    | some h => s!"  help: {barred h}\n"
    | none => ""
  failure (s!"{e.code}: {barred e.message}\n" ++ cause ++ help)

def version : Report := success "jmodel 0.5.0\n"

end Report

def plural (n : Nat) : String := if n = 1 then "" else "s"

/-- Shows source files as they would be written. -/
def preview (files : List SourceFile) : String :=
  let shown := files.map fun f ↦ s!"── {f.path} ──\n{f.content}\n"
  String.join shown ++ s!"── Summary ──\n{files.length} files would be generated\n"

def written (output : String) (files : List SourceFile) : String :=
  let paths := files.map fun f ↦ s!"  + {joinPath output f.path}\n"
  s!"Rendered {files.length} file{plural files.length} into {output}\n" ++ String.join paths

def unresolvedLines (types : List Declarations.Surveyed) : List String :=
  types.flatMap fun t ↦
    t.unresolved.map fun name ↦ s!"error: unresolved type '{name}'\n  --> {t.name}\n"

def validity (file : String) (d : Declarations) (types : List Declarations.Surveyed) : String :=
  let lines := types.map fun t ↦ s!"    {t.kind.keyword} {t.name}\n"
  s!"✓ {file} is valid\n\n  {types.length} top-level type{plural types.length} " ++
    s!"({d.typeCount} declared in total):\n" ++ String.join lines

/-- The layout of a file after the options of a command. -/
def RenderOptions.layout (o : RenderOptions) (settings : RenderSettings) : Layout where
  indent := o.indent.getD settings.layout.indent
  separator := if o.forcesCrlf then .crlf else settings.layout.separator

def RenderOptions.policy (o : RenderOptions) (settings : RenderSettings) : UnresolvedPolicy :=
  if o.keepsUnresolved then .keep else settings.unresolved

def RenderOptions.sourceFiles (o : RenderOptions) (d : Declarations) :
    Except DeclarationError (List SourceFile) :=
  d.sourceFiles (o.policy d.settings) (o.layout d.settings)

namespace Command

variable {m : Type → Type} [Monad m]

/-- Writes files below a directory up to the first that cannot be written. The answer is its path. -/
def writeAll (disk : Disk m) (output : String) : List SourceFile → m (Option String)
  | [] => return none
  | f :: fs => do
    let path := joinPath output f.path
    if ← disk.write path f.content then writeAll disk output fs else return some path

def withDeclarations (disk : Disk m) (file : String) (act : Declarations → m Report) : m Report := do
  match ← disk.read file with
  | none => return .failure s!"jmodel::io: failed to read '{Report.barred file}'\n"
  | some text =>
    match Declarations.parse text with
    | .error e => return .ofError e
    | .ok d => act d

def runRender (disk : Disk m) (o : RenderOptions) (d : Declarations) : m Report := do
  match o.sourceFiles d with
  | .error e => return .ofError e
  | .ok files =>
    if o.isDryRun then return .success (preview files)
    else
      match ← writeAll disk o.output files with
      | some path => return .failure s!"failed to write '{Report.barred path}'\n"
      | none => return .success (written o.output files)

def runCheck (file : String) (d : Declarations) : Report :=
  match d.survey with
  | .error e => .ofError e
  | .ok types =>
    match unresolvedLines types with
    | [] => .success (validity file d types)
    | lines => .failure (String.join lines)

def run (disk : Disk m) : Command → m Report
  | .render file o => withDeclarations disk file (runRender disk o)
  | .check file => withDeclarations disk file fun d ↦ return runCheck file d
  | .version => return .version

end Command

/-- Carries out the command of a command line. -/
def run {m : Type → Type} [Monad m] (disk : Disk m) (words : List String) : m Report :=
  match Command.ofWords? words with
  | some c => c.run disk
  | none => return .usage

end JavaSource.CommandLine
