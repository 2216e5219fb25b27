import LibraryHeaders.Disk
import LibraryHeaders.Program

/-!
# The command line

Looks at the disk where a run will ask about it, and leaves everything else to the run.
-/

open LibraryHeaders in
def main (arguments : List String) : IO UInt32 := do
  let current := Disk.position (← IO.currentDir).toString
  let texts ← (Program.inputs arguments).mapM fun p => return (p, ← Disk.read p)
  let (deep, flat) := Program.places (Disk.fileSystem current .empty texts) arguments
  let tree ← Disk.survey current deep flat
  let exit := Program.run (Disk.fileSystem current tree texts) arguments
  IO.print exit.stdout
  IO.eprint exit.stderr
  return exit.code
