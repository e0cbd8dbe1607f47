/-! # Options of the command line
Arguments are read from left to right (`Options.read`), and the first that cannot be read is the
error (`UsageError`). An argument that is a lone dash, or does not begin with one, is the pattern;
after a double dash every argument is. A lone dash, or no pattern, stands for the standard input. -/

namespace RegexTree

/-- The form in which a tree is printed. -/
inductive Format where
  /-- An S-expression in one line. -/
  | sexp
  /-- A JSON value. -/
  | json
  /-- An outline. -/
  | outline
  deriving DecidableEq, Repr

/-- Where the pattern comes from. -/
inductive Source where
  /-- From the arguments. -/
  | argument (pattern : String)
  /-- From the standard input. -/
  | stdin
  deriving DecidableEq, Repr

/-- What the arguments ask for. -/
structure Options where
  /-- The form of the output. -/
  format : Format
  /-- Report what makes no sense, and fail if anything does not. -/
  check : Bool
  /-- Show how the program is used. -/
  help : Bool
  /-- Where the pattern comes from. -/
  source : Source
  deriving DecidableEq, Repr

/-- Why arguments cannot be read. -/
inductive UsageError where
  /-- There is no such form of output. -/
  | unknownFormat (name : String)
  /-- An option lacks the value that should follow it. -/
  | missingValue (option : String)
  /-- There is no such option. -/
  | unknownOption (option : String)
  /-- There is a pattern already. -/
  | extraArgument (argument : String)
  deriving DecidableEq, Repr

/-- The wording of an error in the arguments. -/
def UsageError.message : UsageError → String
  | unknownFormat name => "unknown output format `" ++ name ++ "`, expected sexp, json or tree"
  | missingValue option => "`" ++ option ++ "` needs a value"
  | unknownOption option => "unknown option `" ++ option ++ "`"
  | extraArgument argument =>
    "unexpected argument `" ++ argument ++ "`, only one pattern is accepted"

/-! ## Values of options -/

/-- The name of a form of output. -/
def Format.name : Format → String
  | sexp => "sexp"
  | json => "json"
  | outline => "tree"

/-- The form of output whose `Format.name` is given. -/
def Format.ofName (name : String) : Except UsageError Format :=
  if name = "sexp" then .ok .sexp
  else if name = "json" then .ok .json
  else if name = "tree" then .ok .outline
  else .error (.unknownFormat name)

/-- The source that a pattern argument stands for. -/
def Source.ofPattern : Option String → Source
  | none => .stdin
  | some pattern => if pattern = "-" then .stdin else .argument pattern

/-! ## Reading arguments -/

namespace Options

/-- What no arguments ask for. -/
def default : Options := ⟨.sexp, false, false, .stdin⟩

/-- The argument can only be a pattern: it is a lone dash or does not begin with one. -/
def isPositional (argument : String) : Bool :=
  argument == "-" || argument.toList.head? != some '-'

/-- The text after the equals sign of a format option. -/
def formatValue? (argument : String) : Option String :=
  ("--format=".toList.isPrefixOf? argument.toList).map String.ofList

/-- Read arguments, given whether all of them are patterns now, the pattern so far and the options
so far. -/
def read (onlyPatterns : Bool) (pattern : Option String) (options : Options) :
    List String → Except UsageError Options
  | [] => .ok { options with source := .ofPattern pattern }
  | argument :: rest =>
    if onlyPatterns || isPositional argument then
      if pattern.isSome then .error (.extraArgument argument)
      else read onlyPatterns (some argument) options rest
    else if argument = "--" then read true pattern options rest
    else if argument = "--check" then read onlyPatterns pattern { options with check := true } rest
    else if argument = "-h" || argument = "--help" then
      read onlyPatterns pattern { options with help := true } rest
    else if argument = "--format" then
      match rest with
      | [] => .error (.missingValue "--format")
      | name :: rest =>
        match Format.ofName name with
        | .error e => .error e
        | .ok format => read onlyPatterns pattern { options with format } rest
    else
      -- the value may also follow an equals sign
      match formatValue? argument with
      | none => .error (.unknownOption argument)
      | some name =>
        match Format.ofName name with
        | .error e => .error e
        | .ok format => read onlyPatterns pattern { options with format } rest

/-- The options that the arguments after the program's name ask for, by `read` from the
`default`. -/
def ofArgs (arguments : List String) : Except UsageError Options :=
  read false none default arguments

end Options

/-- The `name` of a form of output leads back to it. -/
theorem Format.ofName_name (format : Format) : ofName format.name = .ok format := by
  cases format <;> simp [ofName, name]

end RegexTree
