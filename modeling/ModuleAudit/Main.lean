import ModuleAudit.CommandLine.Run

/-
The program: reads the project from the file system, runs the command line on it and prints what
it has to say.
-/

namespace ModuleAudit
namespace CommandLine

/-- Adds what is at a place of the file system to a disk, under the given path.  Places that cannot
be read are left out. -/
partial def readInto (disk : Disk) (path : String) : IO Disk := do
  let place := (← IO.currentDir) / path
  if ← place.isDir then
    let entries ← (place.readDir : IO _).toBaseIO
    let mut disk := disk.makeFolder path
    for entry in entries.toOption.getD #[] do
      disk ← readInto disk ((Path.ofString path).child entry.fileName).toString
    return disk
  else
    match ← (IO.FS.readBinFile place).toBaseIO with
    | .ok bytes => return disk.write path bytes.toList
    | .error _ => return disk

/-- The disk with the project that the arguments name. -/
def projectDisk (args : List String) : IO Disk := do
  let cwd := Path.ofString (← IO.currentDir).toString
  let disk : Disk := { root := .folder [], cwd }
  let disk := disk.makeFolder "."
  match Arguments.parse args with
  | .ok a => readInto disk (cwd.absolute (Path.ofString a.directory)).toString
  | .error _ => return disk

end CommandLine
end ModuleAudit

open ModuleAudit in
def main (args : List String) : IO UInt32 := do
  let disk ← CommandLine.projectDisk args
  let outcome := CommandLine.run disk .standard false args
  IO.print outcome.output
  IO.eprint outcome.errors
  return outcome.exitCode.toUInt32
