import LabelPlacement.CommandLine
/-!
The program: reads the settings files, runs the command line on their contents, and prints what it
gives.
-/

open LabelPlacement.CommandLine

def contentOf (file : String) : IO (Option String) := do
  try
    return some (← IO.FS.readFile file)
  catch _ =>
    return none

def filesFor (arguments : List String) : IO Files := do
  let chosen :=
    match Invocation.ofArguments arguments with
    | .ok invocation => invocation.configFile
    | .error _ => none
  let content ← match chosen with
    | some file => contentOf file
    | none => pure none
  let named ← match ← IO.getEnv "MAPLABEL_CONFIG" with
    | some file => some <$> contentOf file
    | none => pure none
  let standard ← contentOf standardFile
  return { content := fun _ => content, named, standard }

def main (arguments : List String) : IO UInt32 := do
  let ending := run arguments (← filesFor arguments)
  for line in ending.output do
    IO.println line
  for line in ending.errors do
    IO.eprintln line
  return ending.exitCode.toUInt32
