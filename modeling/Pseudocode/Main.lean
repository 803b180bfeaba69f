import Pseudocode.CommandLine.Command

/-! The command line program. It reads the one file that the options name, if any, and prints what
the command gives. The exit code is zero for success, one for a failed program and two for a command
that could not be carried out. Time goes by steps: no clock can be read in the middle of a run. -/

open Pseudocode CommandLine

/-- The text of the file at a path, if it can be read. -/
def readText? (path : String) : IO (Option String) := do
  try return some (← IO.FS.readFile path)
  catch _ => return none

/-- Runs the command line program. -/
def main (words : List String) : IO UInt32 := do
  let text? ← match (Options.read? words).bind Options.path? with
    | some path => readText? path
    | none => pure none
  match command words (fun _ => text?) fun _ => .steady with
  | .error refusal =>
    IO.eprintln refusal.message
    return 2
  | .ok report =>
    IO.print report.output
    IO.eprint report.errors
    return if report.success then 0 else 1
