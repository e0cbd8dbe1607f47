import RegexTree.Main
import RegexTree.Proofs.Alternation
import RegexTree.Proofs.ClassEscapes
import RegexTree.Proofs.ClassRanges
import RegexTree.Proofs.CommandLine.Runs
import RegexTree.Proofs.Concatenation.Pattern
import RegexTree.Proofs.Counts
import RegexTree.Proofs.Findings
import RegexTree.Proofs.Grammar.Completeness
import RegexTree.Proofs.GroupNames
import RegexTree.Proofs.InvalidTexts
import RegexTree.Proofs.Isolation
import RegexTree.Proofs.Json.Trees
import RegexTree.Proofs.MalformedNames
import RegexTree.Proofs.Measures
import RegexTree.Proofs.MisplacedQuantifiers
import RegexTree.Proofs.MissingClosers
import RegexTree.Proofs.Outlines
import RegexTree.Proofs.Positions
import RegexTree.Proofs.Prefix.Pattern
import RegexTree.Proofs.QuantifierAttachment
import RegexTree.Proofs.Queries
import RegexTree.Proofs.Schema.Derivation
import RegexTree.Proofs.Skeletons
import RegexTree.Proofs.Spelling.Pattern
import RegexTree.Proofs.Totality
import RegexTree.Proofs.Traversals
import RegexTree.Proofs.Values
import RegexTree.Proofs.Wrapping
