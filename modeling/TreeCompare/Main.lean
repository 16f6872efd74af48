import TreeCompare.FileTree.Recording
import TreeCompare.Program
/-!
# Command line

Runs the program on the file tree that standard input records.
-/

namespace TreeCompare

/-- All text of a stream, after `text`. -/
partial def readAll (input : IO.FS.Stream) (text : String) : IO String := do
  let line ← input.getLine
  if line.isEmpty then return text else readAll input (text ++ line)

/-- A path from the environment. -/
def pathVariable (name : String) : IO (Option Path) := do
  return (← IO.getEnv name).map Path.ofString

/-- What the process knows about where it runs. -/
def environment : IO Environment := do
  return {
    program := none
    configHome := ← pathVariable "XDG_CONFIG_HOME"
    home := ← pathVariable "HOME"
    accountHome := none }

/-- The locales that the environment chooses from. -/
def localeService : IO LocaleService := do
  return {
    environment := {
      lcAll := ← IO.getEnv "LC_ALL"
      lcCollate := ← IO.getEnv "LC_COLLATE"
      lang := ← IO.getEnv "LANG" } }

end TreeCompare

open TreeCompare in
/-- Runs the program with the given arguments. -/
def main (arguments : List String) : IO UInt32 := do
  let recording ← readAll (← IO.getStdin) ""
  match FileTree.ofRecording? recording.toList with
  | none =>
    IO.eprintln "standard input records no file tree"
    return UInt32.ofNat Status.trouble.exitCode
  | some tree =>
    let arguments := arguments.map fun argument => Utf8.encode argument.toList
    let outcome := Program.run tree (← environment) (← localeService) .shallow arguments
    for line in outcome.output do
      IO.println line
    return UInt32.ofNat outcome.status.exitCode
