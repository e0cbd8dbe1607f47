import RegexTree.CommandLine.Options
import RegexTree.Node.Json
import RegexTree.Outline

/-! # Runs of the command line
What the program prints and how it exits, as a function of its arguments and its standard input
(`CommandLine.run`). -/

namespace RegexTree

/-- What a run leaves behind. -/
structure Outcome where
  /-- What is printed on the standard output. -/
  stdout : String
  /-- What is printed on the standard error. -/
  stderr : String
  /-- The exit code. -/
  code : Nat
  deriving DecidableEq, Repr

namespace CommandLine

/-- How the program is used. -/
def usage : String :=
  "Usage: regex-cst [--format sexp|json|tree] [--check] [PATTERN | -]\n" ++
  "\n" ++
  "Parses a regular expression body and prints its syntax tree.\n" ++
  "Without PATTERN, or with `-`, the pattern is read from stdin.\n" ++
  "\n" ++
  "  --format FORMAT   sexp (default), json or tree\n" ++
  "  --check           print invalid constructs to stderr and exit 1 if any\n" ++
  "  -h, --help        show this message\n"

/-- A text without the single line ending that a pipe leaves behind. -/
def withoutLineEnding (text : String) : String :=
  match text.toList.reverse with
  | '\n' :: '\r' :: rest => String.ofList rest.reverse
  | '\n' :: rest => String.ofList rest.reverse
  | _ => text

/-- A run that fails with an error, and with the causes of the error below it. -/
def failure (message : String) (causes : List String) : Outcome :=
  let below := if causes = [] then "" else "\n\nCaused by:" ++ causes.foldl (· ++ "\n    " ++ ·) ""
  ⟨"", "Error: " ++ message ++ below ++ "\n", 1⟩

/-- The pattern from the standard input, `withoutLineEnding`, if that is a text. -/
def stdinPattern? (stdin : ByteArray) : Option String :=
  (String.fromUTF8? stdin).map withoutLineEnding

/-- What is printed of a tree in a `Format`. -/
def render (format : Format) (tree : Tree) : String :=
  match format with
  | .sexp => tree.root.sexp ++ "\n"
  | .json => tree.root.toJson.pretty ++ "\n"
  | .outline => tree.outline

/-- A run on a pattern: the tree by `render`, and what a check reports. -/
def runOn (options : Options) (pattern : String) : Outcome :=
  let tree := Tree.parse pattern
  let stdout := render options.format tree
  if options.check then
    let diagnostics := tree.diagnostics
    ⟨stdout, diagnostics.foldl (fun out d => out ++ d.message ++ "\n") "",
      if diagnostics.isEmpty then 0 else 1⟩
  else ⟨stdout, "", 0⟩

/-- A run with the given options, by `runOn` on the pattern from their source. -/
def runWith (options : Options) (stdin : ByteArray) : Outcome :=
  if options.help then ⟨usage, "", 0⟩
  else
    match options.source with
    | .argument pattern => runOn options pattern
    | .stdin =>
      match stdinPattern? stdin with
      | some pattern => runOn options pattern
      | none =>
        failure "failed to read pattern from stdin" ["stream did not contain valid UTF-8"]

/-- A run with the given arguments after the program's name, read by `Options.ofArgs`, and the given
standard input. -/
def run (arguments : List String) (stdin : ByteArray) : Outcome :=
  match Options.ofArgs arguments with
  | .error e => failure e.message []
  | .ok options => runWith options stdin

end CommandLine

end RegexTree
