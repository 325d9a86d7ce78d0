import MiniLisp.CommandLine.Settings
import MiniLisp.Eval

/-!
What the command writes and how it ends. Left out are the tracing to standard error that a variable
of the environment can turn on, and the reason for which the value of an option is refused.
-/

namespace MiniLisp.CommandLine

structure Outcome where
  exitCode : Nat
  stdout : String
  stderr : String
  deriving DecidableEq

def usage : String :=
  "Usage: lisper [OPTIONS] <CONTENTS>"

def help : String :=
  "lisper evaluates a single Lisp-style expression built from integer, comparison, boolean and " ++
  "string primitives\n\n" ++
  usage ++ "\n\n" ++
  "Arguments:\n" ++
  "  <CONTENTS>  \n\n" ++
  "Options:\n" ++
  "  -f, --file                   Tells lisper to read the expression from a file instead\n" ++
  "  -p, --parse-only             Prints the parsed expression without evaluating it\n" ++
  "      --max-depth <MAX_DEPTH>  Maximum nesting of lists and quotes accepted by the parser " ++
  "[default: 256]\n" ++
  "  -h, --help                   Print help\n" ++
  "  -V, --version                Print version\n"

def UsageError.message : UsageError → String
  | unexpected argument => s!"unexpected argument '{argument}' found"
  | repeated option => s!"the argument '{option}' cannot be used multiple times"
  | needsNoValue option value =>
      s!"unexpected value '{value}' for '{option}' found; no more were expected"
  | missingValue option => s!"a value is required for '{option}' but none was supplied"
  | invalidValue option value => s!"invalid value '{value}' for '{option}'"
  | missingContents => "the following required arguments were not provided:\n  <CONTENTS>"

def Stop.outcome : Stop → Outcome
  | version => ⟨0, "lisper 0.1.0\n", ""⟩
  | help => ⟨0, CommandLine.help, ""⟩
  | usage e =>
      ⟨2, "", s!"error: {e.message}\n\n{CommandLine.usage}\n\n" ++
        "For more information, try '--help'.\n"⟩

namespace Job

/-- The value of a source text: what is read, or what that evaluates to. -/
def result (job : Job) (source : String) : Except EvalError Value :=
  match parse job.limit source with
  | .error e => .error (.parseFailure e)
  | .ok v => if job.parseOnly then .ok v else eval v

def outcome (job : Job) (source : String) : Outcome :=
  match job.result source with
  | .ok v => ⟨0, v.text ++ "\n", ""⟩
  | .error e => ⟨1, "", e.message ++ "\n"⟩

/-- The outcome when the file cannot be read or is not UTF-8. -/
def unreadable (job : Job) : Outcome :=
  ⟨1, "", s!"Failed to read the input file '{job.contents}'. Perhaps this file does not exist?\n"⟩

end Job

/-- Runs the command. Files are read by `readFile`, in whatever way the surroundings allow. -/
def execute {m : Type → Type} [Monad m] (readFile : String → m (Option ByteArray))
    (arguments : List String) : m Outcome :=
  match Job.ofArguments arguments with
  | .error stop => pure stop.outcome
  | .ok job =>
      if job.fromFile then do
        match (← readFile job.contents).bind String.fromUTF8? with
        | some source => return job.outcome source
        | none => return job.unreadable
      else pure (job.outcome job.contents)

end MiniLisp.CommandLine
