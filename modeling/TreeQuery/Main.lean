import TreeQuery.CommandLine.Run
import TreeQuery.File.Standard

/-!
# The program

Takes a picture of the working directory, runs the command line on it, prints what comes out and
brings the directory to the state that the run left.
-/

namespace TreeQuery.Main

partial def filesBelow (names : List String) : IO (List (File.Path × File.Contents)) := do
  let here ← IO.currentDir
  let entries ← (names.foldl (· / ·) here).readDir
  let found ← entries.toList.mapM fun entry => do
    let below := names ++ [entry.fileName]
    if ← entry.path.isDir then filesBelow below
    else
      let bytes ← IO.FS.readBinFile entry.path
      let contents := match String.fromUTF8? bytes with
        | some text => File.Contents.text text.toList
        | none => File.Contents.binary bytes.toList
      return [(⟨Text.join ['/'] (below.map String.toList)⟩, contents)]
  return found.flatten

def variableNames : List (List Char) :=
  Settings.pathVariable :: Settings.Key.all.map fun key =>
    Settings.variablePrefix ++ key.name.toList.map Char.toUpper

def environment : IO Settings.Environment := do
  let values ← variableNames.mapM fun name => do
    return (← IO.getEnv (String.ofList name)).map fun value => (name, value.toList)
  return values.filterMap id

def store (before after : List (File.Path × File.Contents)) : IO Unit := do
  for (path, contents) in after do
    if before.lookup path != some contents then
      match contents with
      | .text cs => IO.FS.writeFile (String.ofList path.text) (String.ofList cs)
      | .binary bytes => IO.FS.writeBinFile (String.ofList path.text) ⟨bytes.toArray⟩
  for (path, _) in before do
    if (after.lookup path).isNone then IO.FS.removeFile (String.ofList path.text)

end TreeQuery.Main

open TreeQuery in
def main (args : List String) : IO UInt32 := do
  let files := File.Standard.system.withFiles (← Main.filesBelow [])
  let outcome := CommandLine.run
    ⟨"fathom".toList :: args.map String.toList, ← Main.environment, files, true⟩
  Main.store files.files outcome.files.files
  IO.print (String.ofList outcome.stdout)
  for entry in outcome.log do
    IO.eprint (String.ofList (CommandLine.logLine entry outcome.logFormat))
  IO.eprint (String.ofList outcome.stderr)
  return outcome.code.toUInt32
