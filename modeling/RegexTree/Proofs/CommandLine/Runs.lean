import RegexTree.CommandLine.Run
import RegexTree.Proofs.CommandLine.Arguments
import RegexTree.Proofs.Findings
import RegexTree.Proofs.Outlines

/-! # What runs leave behind
A run is on the pattern that the options take, from the arguments or from the standard input without
its line ending. The main statements are that a report is all that the option for it adds, and that
a pattern from the standard input is treated like the same pattern behind a double dash. -/

namespace RegexTree

/-- The check fails exactly if there are diagnostics, which it then gives. -/
theorem Regex.check_eq_error_iff {pattern : String} {invalids : List Invalid} :
    Regex.check pattern = .error invalids ↔
      invalids = (Tree.parse pattern).diagnostics ∧ (Tree.parse pattern).diagnostics ≠ [] := by
  have hcheck : check pattern = if (Tree.parse pattern).diagnostics.isEmpty then
      .ok (Regex.parse pattern) else .error (Tree.parse pattern).diagnostics := rfl
  cases hdiagnostics : (Tree.parse pattern).diagnostics with
  | nil => simp [hcheck, hdiagnostics]
  | cons i is =>
    rw [hcheck, hdiagnostics, List.isEmpty_cons, if_neg Bool.false_ne_true, Except.error.injEq]
    exact ⟨fun h => ⟨h.symm, List.cons_ne_nil i is⟩, fun h => h.1.symm⟩

/-- The wording of an invalid span has no line end. -/
theorem Invalid.newline_not_mem_message (i : Invalid) : '\n' ∉ i.message.toList := by
  have hreason : '\n' ∉ i.reason.message.toList := by cases i.reason <;> decide
  have hspan : '\n' ∉ i.span.display.toList := i.span.not_mem_display rfl (by decide)
  have htag : '\n' ∉ i.reason.tag.toList := not_mem_of_isWordChar i.reason.tag_isWord rfl
  simp [message, hreason, hspan, htag]

namespace CommandLine

/-! ## The pattern of a run -/

/-- The pattern that options take, given the text on the standard input. -/
def patternOf (options : Options) (text : String) : String :=
  match options.source with
  | .argument pattern => pattern
  | .stdin => withoutLineEnding text

/-- A text on the standard input is read as the text. -/
theorem stdinPattern?_toUTF8 (text : String) :
    stdinPattern? text.toUTF8 = some (withoutLineEnding text) := by
  have hread : String.fromUTF8? text.toUTF8 = some text := dif_pos text.isValidUTF8
  rw [stdinPattern?, hread, Option.map_some]

/-- A run that does not show the usage is one on the pattern that the options take
(`patternOf`). -/
theorem run_eq_runOn {arguments : List String} {options : Options}
    (h : Options.ofArgs arguments = .ok options) (hhelp : options.help = false) (text : String) :
    run arguments text.toUTF8 = runOn options (patternOf options text) := by
  have hshown : ¬options.help = true := ne_true_of_eq_false hhelp
  rw [run, h]
  show runWith options text.toUTF8 = _
  rw [runWith, if_neg hshown, patternOf, stdinPattern?_toUTF8]
  cases options.source <;> rfl

/-- Arguments that cannot be read are the only thing that a run tells of. -/
theorem run_of_error {arguments : List String} {e : UsageError}
    (h : Options.ofArgs arguments = .error e) (stdin : ByteArray) :
    run arguments stdin = ⟨"", "Error: " ++ e.message ++ "\n", 1⟩ := by
  rw [run, h]
  show failure e.message [] = _
  rw [failure, if_pos rfl, String.append_empty]

/-! ## Reports -/

/-- The lines of a report are the wordings of the diagnostics, by `Invalid.message`. -/
theorem splitOn_report (invalids : List Invalid) :
    (invalids.foldl (fun out d => out ++ d.message ++ "\n") "").toList.splitOn '\n' =
      (invalids.map fun i => i.message.toList) ++ [[]] := by
  simp only [String.append_assoc]
  rw [Text.toList_foldl_append, String.toList_empty, List.nil_append]
  simp only [String.toList_append]
  exact Text.splitOn_lines (fun i : Invalid => i.message.toList) fun i _ =>
    i.newline_not_mem_message

/-- A run leaves behind a report on a pattern. -/
structure Reports (pattern : String) (outcome : Outcome) : Prop where
  /-- There is one line for each diagnostic, with its wording, its place and its tag. -/
  lines : outcome.stderr.toList.splitOn '\n' =
    ((Tree.parse pattern).diagnostics.map fun i =>
      (i.reason.message ++ " at " ++ (toString i.span.start ++ ".." ++ toString i.span.stop) ++
        " (" ++ i.reason.tag ++ ")").toList) ++ [[]]
  /-- The lines are in the order in which the diagnostics stand in the pattern. -/
  ordered : (Tree.parse pattern).diagnostics.Pairwise fun i j => i.span.stop ≤ j.span.start
  /-- The run fails exactly if the pattern does not pass the check. -/
  rejected : outcome.code = 1 ↔ ∃ invalids, Regex.check pattern = .error invalids
  /-- The run succeeds exactly if the pattern passes the check. -/
  accepted : outcome.code = 0 ↔ ∃ regex, Regex.check pattern = .ok regex

/-- The tree is printed, with or without a report. -/
theorem stdout_runOn (options : Options) (pattern : String) :
    (runOn options pattern).stdout = render options.format (Tree.parse pattern) := by
  rw [runOn]
  cases options.check <;> rfl

/-- A run with a report leaves one behind (`Reports`). -/
theorem reports_runOn {options : Options} (h : options.check = true) (pattern : String) :
    Reports pattern (runOn options pattern) := by
  have hrun : runOn options pattern = ⟨render options.format (Tree.parse pattern),
      (Tree.parse pattern).diagnostics.foldl (fun out d => out ++ d.message ++ "\n") "",
      if (Tree.parse pattern).diagnostics.isEmpty then 0 else 1⟩ := by
    rw [runOn, h]
    rfl
  rw [hrun]
  refine ⟨?_, Tree.pairwise_diagnostics pattern, ?_, ?_⟩
  · exact splitOn_report (Tree.parse pattern).diagnostics
  · simp only [Regex.check_eq_error_iff, exists_eq_left]
    cases (Tree.parse pattern).diagnostics <;> simp
  · simp only [Regex.check_eq_ok_iff, exists_eq_left]
    cases (Tree.parse pattern).diagnostics <;> simp

/-- A report is all that the option for it adds. Where arguments can be read and do not ask for the
usage, the same arguments with that option in front ask for the same otherwise. With any text on
the standard input, the runs on both print the tree of the pattern, and the latter leaves behind a
report on it. Without the option there is nothing on the standard error, and the run succeeds.
Arguments that cannot be read print no tree, whatever is on the standard input, but the error. -/
theorem check_only_adds :
    (∀ (arguments : List String) (options : Options) (text : String),
      Options.ofArgs arguments = .ok options → options.help = false →
        let plain := run arguments text.toUTF8
        let checked := run ("--check" :: arguments) text.toUTF8
        Options.ofArgs ("--check" :: arguments) = .ok { options with check := true } ∧
          plain.stdout = render options.format (Tree.parse (patternOf options text)) ∧
          checked.stdout = plain.stdout ∧
          (options.check = false → plain.stderr = "" ∧ plain.code = 0) ∧
          (options.check = true → plain = checked) ∧
          Reports (patternOf options text) checked) ∧
      ∀ (arguments : List String) (e : UsageError) (stdin : ByteArray),
        Options.ofArgs arguments = .error e →
          run arguments stdin = ⟨"", "Error: " ++ e.message ++ "\n", 1⟩ := by
  refine ⟨?_, fun arguments e stdin h => run_of_error h stdin⟩
  intro arguments options text h hhelp plain checked
  have hcheck := Options.ofArgs_check_cons h
  have hplain : plain = runOn options (patternOf options text) := run_eq_runOn h hhelp text
  have hchecked : checked = runOn { options with check := true } (patternOf options text) :=
    run_eq_runOn hcheck hhelp text
  rw [hplain, hchecked]
  refine ⟨hcheck, stdout_runOn _ _, ?_, fun hcheck => ?_, fun hcheck => ?_, reports_runOn rfl _⟩
  · rw [stdout_runOn, stdout_runOn]
  · rw [runOn, hcheck]
    exact ⟨rfl, rfl⟩
  · obtain ⟨format, check, help, source⟩ := options
    obtain rfl : check = true := hcheck
    rfl

/-- The report on a bad escape in a group that is not closed has two lines. The tree is printed all
the same, as JSON here. -/
theorem check_only_adds_escape :
    let text := "(\\q\n"
    let plain := run ["--format=json", "-"] text.toUTF8
    let checked := run ["--check", "--format=json", "-"] text.toUTF8
    checked.stdout = plain.stdout ∧ plain.stderr = "" ∧ plain.code = 0 ∧ checked.code = 1 ∧
      checked.stderr.toList.splitOn '\n' =
        ["invalid escape sequence at 1..3 (bad-escape)".toList,
          "group is missing its closing `)` at 3..3 (unterminated-group)".toList, []] ∧
      run ["a", "--chek"] text.toUTF8 = ⟨"", "Error: unknown option `--chek`\n", 1⟩ := by
  intro text plain checked
  obtain ⟨hreads, hfails⟩ := check_only_adds
  obtain ⟨-, -, hstdout, hplain, -, hreport⟩ :=
    hreads ["--format=json", "-"] ⟨.json, false, false, .stdin⟩ text rfl rfl
  obtain ⟨hstderr, hcode⟩ := hplain rfl
  have hpattern : patternOf ⟨.json, false, false, .stdin⟩ text = "(\\q" := by decide
  rw [hpattern] at hreport
  have hdiagnostics : (Tree.parse "(\\q").diagnostics =
      [⟨⟨1, 3⟩, .badEscape⟩, ⟨⟨3, 3⟩, .unterminatedGroup⟩] := by decide +kernel
  refine ⟨hstdout, hstderr, hcode, hreport.rejected.mpr ?_, ?_, ?_⟩
  · exact ⟨_, Regex.check_eq_error_iff.mpr ⟨hdiagnostics.symm, by rw [hdiagnostics]; nofun⟩⟩
  · exact hreport.lines.trans (by rw [hdiagnostics]; decide +kernel)
  · exact hfails ["a", "--chek"] (.unknownOption "--chek") text.toUTF8 rfl

/-! ## Patterns from the standard input -/

/-- A line feed behind a carriage return is dropped together with it by `withoutLineEnding`. -/
theorem withoutLineEnding_crlf (p : String) : withoutLineEnding (p ++ "\r\n") = p := by
  have hreverse : (p ++ "\r\n").toList.reverse = '\n' :: '\r' :: p.toList.reverse := by simp
  rw [withoutLineEnding, hreverse]
  show String.ofList p.toList.reverse.reverse = p
  rw [List.reverse_reverse, String.ofList_toList]

/-- A line feed behind something else is dropped alone. -/
theorem withoutLineEnding_lf {p : String} (h : p.toList.getLast? ≠ some '\r') :
    withoutLineEnding (p ++ "\n") = p := by
  have hreverse : (p ++ "\n").toList.reverse = '\n' :: p.toList.reverse := by simp
  have hp : String.ofList p.toList.reverse.reverse = p := by
    rw [List.reverse_reverse, String.ofList_toList]
  have hreturn : p.toList.reverse.head? ≠ some '\r' := by rwa [List.head?_reverse]
  rw [withoutLineEnding, hreverse]
  split
  · rename_i hcons
    rw [(List.cons.inj hcons).2] at hreturn
    exact absurd rfl hreturn
  · rename_i hcons
    rw [← (List.cons.inj hcons).2, hp]
  · rename_i hline
    exact absurd rfl (hline _)

/-- A text that does not end with a line feed is kept. -/
theorem withoutLineEnding_of_ne {p : String} (h : p.toList.getLast? ≠ some '\n') :
    withoutLineEnding p = p := by
  have hline : p.toList.reverse.head? ≠ some '\n' := by rwa [List.head?_reverse]
  rw [withoutLineEnding]
  split
  · rename_i hcons
    rw [hcons] at hline
    exact absurd rfl hline
  · rename_i hcons
    rw [hcons] at hline
    exact absurd rfl hline
  · rfl

/-- Options that do not ask for the usage do not show it. -/
theorem help_withFlags_default {flags : List Flag} (h : ∀ long, Flag.help long ∉ flags) :
    (Options.default.withFlags flags).help = false := by
  rw [Bool.eq_false_iff, ne_eq, Options.help_withFlags]
  exact fun hhelp => hhelp.elim nofun fun ⟨long, hmem⟩ => h long hmem

/-- Where a pattern comes from does not matter: with the same options, none of which asks for the
usage, a run on a pattern behind a double dash leaves behind the same as one that finds the pattern
on the standard input with a carriage return and a line feed behind it. It is also the same with a
line feed alone behind the pattern, as long as the pattern does not end with a carriage return, and
with nothing behind it, as long as it does not end with a line feed. -/
theorem run_stdin_eq_run_argument (flags : List Flag) (p : String) (stdin : ByteArray)
    (hhelp : ∀ long, Flag.help long ∉ flags) (hp : p ≠ "-") :
    let direct := run (flags.flatMap Flag.words ++ ["--", p]) stdin
    run (flags.flatMap Flag.words) (p ++ "\r\n").toUTF8 = direct ∧
      (p.toList.getLast? ≠ some '\r' →
        run (flags.flatMap Flag.words) (p ++ "\n").toUTF8 = direct) ∧
      (p.toList.getLast? ≠ some '\n' → run (flags.flatMap Flag.words) p.toUTF8 = direct) := by
  have hshown := help_withFlags_default hhelp
  have hdirect : run (flags.flatMap Flag.words ++ ["--", p]) stdin =
      runOn (Options.default.withFlags flags) p := by
    rw [run, Options.ofArgs_flags_append hp]
    exact if_neg (ne_true_of_eq_false hshown)
  have hstdin : ∀ text : String, run (flags.flatMap Flag.words) text.toUTF8 =
      runOn (Options.default.withFlags flags) (withoutLineEnding text) := fun text =>
    run_eq_runOn (Options.ofArgs_flags flags) hshown text
  rw [hdirect, hstdin, hstdin, hstdin, withoutLineEnding_crlf]
  refine ⟨rfl, fun hreturn => ?_, fun hline => ?_⟩
  · rw [withoutLineEnding_lf hreturn]
  · rw [withoutLineEnding_of_ne hline]

/-- A pattern that looks like an option is one neither behind the double dash nor on the standard
input. -/
theorem run_stdin_eq_run_argument_option :
    let direct := run ["--check", "--format=json", "--", "--help"] .empty
    run ["--check", "--format=json"] "--help\r\n".toUTF8 = direct ∧
      run ["--check", "--format=json"] "--help\n".toUTF8 = direct ∧
      run ["--check", "--format=json"] "--help".toUTF8 = direct := by
  obtain ⟨hcrlf, hlf, hnone⟩ := run_stdin_eq_run_argument [.check, .format .json true] "--help"
    .empty (by decide) (by decide)
  exact ⟨hcrlf, hlf (by decide), hnone (by decide)⟩

end CommandLine

end RegexTree
