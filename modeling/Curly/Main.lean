import Curly.CommandLine.Program

/-!
# The command line

Reads the files that a command line and its configuration name, does the work on them, and writes
what it leaves behind.
-/

open Curly

/-- The disk with the file or the directory at a path, the directory without what is in it. A file
that cannot be read is barred. -/
def addEntry (d : Disk) (text : String) : IO Disk := do
  let path := (← IO.currentDir) / text
  let place := d.place (FilePath.ofText text)
  if ← path.isDir then return { d with folders := place :: d.folders }
  else if ← path.pathExists then
    try return d.write place (← IO.FS.readBinFile path)
    catch _ => return { d.write place .empty with barred := place :: d.barred }
  else return d

/-- The disk with all that is below a path. -/
partial def addTree (d : Disk) (text : String) : IO Disk := do
  let path := (← IO.currentDir) / text
  let mut d ← addEntry d text
  if ← path.isDir then
    for entry in ← path.readDir do
      d ← addTree d (text ++ "/" ++ entry.fileName)
  return d

/-- The disk with what a command line with these options reads. -/
def readDisk (o : CommandLine.Options) : IO Disk := do
  let here := FilePath.segmentsOf (← IO.currentDir).toString
  let mut d : Disk := { here, files := [], folders := [] }
  for value in o.config :: o.data.toList do
    if let .text text := value then
      d ← addEntry d text
  match CommandLine.configuration d o with
  | .ok c => addTree d c.directory.toText
  | .error _ => return d

def main (arguments : List String) : IO UInt32 := do
  let outcome ← match CommandLine.read arguments with
    | .error stop => pure (CommandLine.Outcome.stopped stop)
    | .ok request => do pure (CommandLine.perform (← readDisk request.options) request)
  match outcome with
  | .finished code output errors => do
    IO.print output
    IO.eprint errors
    return code.toUInt32
  | .brokeOff failure => do
    IO.eprintln failure.message
    return 1
  | .stopped .help => do
    IO.print CommandLine.usage
    return 0
  | .stopped .version => do
    IO.println CommandLine.programVersion
    return 0
  | .stopped .misuse => do
    IO.eprint CommandLine.usage
    return 2
