import LabelPlacement.Demo
import LabelPlacement.Report
/-!
The command line: labels the demonstration map and reports on it.

`--config` names a settings file, `--summary-only` leaves out the lines on single requests.
-/

namespace LabelPlacement.CommandLine

structure Invocation where
  configFile : Option String := none
  summaryOnly : Bool := false
  deriving BEq, DecidableEq

inductive ArgumentError
  | missingConfigFile
  | unknown (argument : String)
  deriving BEq, DecidableEq

def ArgumentError.message : ArgumentError → String
  | .missingConfigFile => "\x60--config\x60 需要提供配置文件路径"
  | .unknown argument => "未知参数：" ++ argument

/-- Reads further arguments; a later settings file replaces an earlier one. -/
def readFrom (invocation : Invocation) : List String → Except ArgumentError Invocation
  | [] => .ok invocation
  | "--summary-only" :: rest => readFrom { invocation with summaryOnly := true } rest
  | ["--config"] => .error .missingConfigFile
  | "--config" :: file :: rest => readFrom { invocation with configFile := some file } rest
  | argument :: _ => .error (.unknown argument)

def Invocation.ofArguments (arguments : List String) : Except ArgumentError Invocation :=
  readFrom {} arguments

/-- The contents of the files that settings may come from, as far as they can be read: files by
name, the file named by the environment if it names one, and the standard file. -/
structure Files where
  content : String → Option String
  named : Option (Option String)
  standard : Option String

def standardFile : String := "config/default.toml"

/-- The settings that an invocation works with; where they cannot be read, the standard ones. -/
def settings (invocation : Invocation) (files : Files) : Settings :=
  let found :=
    match invocation.configFile with
    | some file => Settings.ofFile (files.content file)
    | none => Settings.discover files.named files.standard
  match found with
  | .ok settings => settings
  | .error _ => {}

structure Ending where
  exitCode : Nat
  output : List String
  errors : List String
  deriving BEq, DecidableEq

def report (settings : Settings) (summaryOnly : Bool) : Ending :=
  match Demo.map settings with
  | .error _ => { exitCode := 1, output := [], errors := [] }
  | .ok map =>
    let (summary, labelled) := map.label
    { exitCode := if 0 < summary.errors then 2 else 0
      output := Report.summaryLines summary ++
        if summaryOnly then [] else Report.detailLines labelled
      errors := [] }

def run (arguments : List String) (files : Files) : Ending :=
  match Invocation.ofArguments arguments with
  | .error error => { exitCode := 1, output := [], errors := [error.message] }
  | .ok invocation => report (settings invocation files) invocation.summaryOnly

end LabelPlacement.CommandLine
