import JavaSource.CommandLine.Report

/-!
# The program
-/

namespace JavaSource.CommandLine

/-- The files of the machine. -/
def disk : Disk IO where
  read path := do
    try return some (← IO.FS.readFile path) catch _ => return none
  write path content := do
    try
      match (Text.splitLast '/' path).1 with
      | some dir => IO.FS.createDirAll (if dir = "" then "/" else dir)
      | none => pure ()
      IO.FS.writeFile path content
      return true
    catch _ => return false

end JavaSource.CommandLine

def main (words : List String) : IO UInt32 := do
  let report ← JavaSource.CommandLine.run JavaSource.CommandLine.disk words
  IO.print report.out
  IO.eprint report.err
  return report.status
