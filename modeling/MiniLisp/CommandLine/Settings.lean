import MiniLisp.Decimal
import MiniLisp.Reader.Source

/-!
The arguments of the command, read from the left. The first argument that is at fault, or that asks
for the version or for help, decides.
-/

namespace MiniLisp.CommandLine

inductive Argument where
  /-- Two dashes alone: all arguments after them are plain. -/
  | separator
  | long (name : String) (value : Option String)
  | short (letters : List Char)
  /-- Anything else, a dash alone included. -/
  | plain (text : String)
  deriving DecidableEq

def Argument.ofString (text : String) : Argument :=
  match text.toList with
  | ['-', '-'] => separator
  | '-' :: '-' :: option =>
      let name := String.ofList (option.takeWhile (· != '='))
      match option.dropWhile (· != '=') with
      | [] => long name none
      | _ :: value => long name (some (String.ofList value))
  | '-' :: letter :: letters => short (letter :: letters)
  | _ => plain text

inductive UsageError where
  | unexpected (argument : String)
  | repeated (option : String)
  | needsNoValue (option value : String)
  | missingValue (option : String)
  | invalidValue (option value : String)
  | missingContents
  deriving DecidableEq

inductive Stop where
  | version
  | help
  | usage (e : UsageError)
  deriving DecidableEq

structure Settings where
  fromFile : Bool
  parseOnly : Bool
  limit : Option Nat
  contents : Option String
  deriving DecidableEq

/-- What the command is asked to do: the expression, or the name of the file that holds it, and how
to treat it. -/
structure Job where
  fromFile : Bool
  parseOnly : Bool
  limit : Nat
  contents : String
  deriving DecidableEq

/-- The number that an argument spells, if it fits in 64 bits: ASCII digits after an optional plus
sign. -/
def limit? (text : String) : Option Nat :=
  let digits := match text.toList with
    | '+' :: rest => rest
    | cs => cs
  if digits ≠ [] ∧ digits.all Char.isDigit ∧ Decimal.value digits < UInt64.size then
    some (Decimal.value digits)
  else none

namespace Settings

def initial : Settings :=
  ⟨false, false, none, none⟩

def setFromFile (s : Settings) : Except Stop Settings :=
  if s.fromFile then .error (.usage (.repeated "--file")) else .ok { s with fromFile := true }

def setParseOnly (s : Settings) : Except Stop Settings :=
  if s.parseOnly then .error (.usage (.repeated "--parse-only"))
  else .ok { s with parseOnly := true }

def setLimit (s : Settings) (value : String) : Except Stop Settings :=
  match limit? value, s.limit with
  | none, _ => .error (.usage (.invalidValue "--max-depth <MAX_DEPTH>" value))
  | some _, some _ => .error (.usage (.repeated "--max-depth <MAX_DEPTH>"))
  | some limit, none => .ok { s with limit := some limit }

def setContents (s : Settings) (text : String) : Except Stop Settings :=
  match s.contents with
  | some _ => .error (.usage (.unexpected text))
  | none => .ok { s with contents := some text }

def setLetter (s : Settings) (letter : Char) : Except Stop Settings :=
  match letter with
  | 'f' => s.setFromFile
  | 'p' => s.setParseOnly
  | 'V' => .error .version
  | 'h' => .error .help
  | _ => .error (.usage (.unexpected ("-" ++ String.singleton letter)))

def setLong (s : Settings) (name : String) (value : Option String) : Except Stop Settings :=
  match name, value with
  | "max-depth", some value => s.setLimit value
  | "file", none => s.setFromFile
  | "parse-only", none => s.setParseOnly
  | "version", none => .error .version
  | "help", none => .error .help
  | name, some value =>
      if name ∈ ["file", "parse-only", "version", "help"] then
        .error (.usage (.needsNoValue ("--" ++ name) value))
      else .error (.usage (.unexpected ("--" ++ name ++ "=" ++ value)))
  | name, none => .error (.usage (.unexpected ("--" ++ name)))

/-- Reads the arguments. An option that lacks its value takes the next argument if that is plain. -/
def read (s : Settings) : List String → Except Stop Settings
  | [] => .ok s
  | argument :: rest =>
      match Argument.ofString argument with
      | .separator => rest.foldlM setContents s
      | .plain text => do (← s.setContents text).read rest
      | .short letters => do (← letters.foldlM setLetter s).read rest
      | .long "max-depth" none =>
          match rest with
          | [] => .error (.usage (.missingValue "--max-depth <MAX_DEPTH>"))
          | value :: rest =>
              match Argument.ofString value with
              | .plain text => do (← s.setLimit text).read rest
              | _ => .error (.usage (.missingValue "--max-depth <MAX_DEPTH>"))
      | .long name value => do (← s.setLong name value).read rest

end Settings

def Job.ofArguments (arguments : List String) : Except Stop Job := do
  let s ← Settings.initial.read arguments
  match s.contents with
  | none => .error (.usage .missingContents)
  | some contents => return ⟨s.fromFile, s.parseOnly, s.limit.getD defaultLimit, contents⟩

end MiniLisp.CommandLine
