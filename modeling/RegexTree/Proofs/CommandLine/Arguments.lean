import Mathlib.Data.List.Basic
import RegexTree.CommandLine.Options

/-! # Arguments of the command line
A `Request` is made of options in any order, with at most one pattern among them; at its end may
stand a double dash, and behind that the pattern, which is then any text. The main statement is that
every request is read as what it asks for, and that every other list of arguments is a request with
an argument behind it that cannot be read (`Refuses`), which is the error. -/

namespace RegexTree

namespace CommandLine

/-! ## Requests -/

/-- An option in one of its spellings. -/
inductive Flag where
  /-- The option to report what makes no sense. -/
  | check
  /-- The option to show how the program is used, by its letter or by its name. -/
  | help (long : Bool)
  /-- The option for the form of the output, whose name follows as an argument or an equals sign. -/
  | format (form : Format) (joined : Bool)
  deriving DecidableEq, Repr

/-- The arguments that spell an option. -/
def Flag.words : Flag → List String
  | check => ["--check"]
  | help long => if long then ["--help"] else ["-h"]
  | format form joined => if joined then ["--format=" ++ form.name] else ["--format", form.name]

/-- The form of output that an option asks for. -/
def Flag.format? : Flag → Option Format
  | format form _ => some form
  | _ => none

/-- The argument is a pattern where options may stand as well. -/
def IsFree (argument : String) : Prop :=
  argument = "-" ∨ argument.toList.head? ≠ some '-'

instance : DecidablePred IsFree := fun _ => inferInstanceAs (Decidable (_ ∨ _))

/-- The argument begins like an option and is none. -/
structure IsUnknown (argument : String) : Prop where
  /-- It begins with a dash. -/
  head : argument.toList.head? = some '-'
  /-- It is no option, no dash and no double dash. -/
  not_mem : argument ∉ ["-", "--", "--check", "-h", "--help", "--format"]
  /-- It is not the option for the form of the output with an equals sign. -/
  ne_joined : ∀ name, argument ≠ "--format=" ++ name

/-- What a request is made of before the double dash. -/
inductive Item where
  /-- An option. -/
  | flag (f : Flag)
  /-- A pattern. -/
  | pattern (p : String) (free : IsFree p)

namespace Item

/-- The arguments that spell an item. -/
def words : Item → List String
  | flag f => f.words
  | pattern p _ => [p]

/-- The option that an item is. -/
def flag? : Item → Option Flag
  | flag f => some f
  | pattern _ _ => none

/-- The pattern that an item is. -/
def pattern? : Item → Option String
  | flag _ => none
  | pattern p _ => some p

end Item

/-- Options with at most one pattern. -/
structure Request where
  /-- The items before the double dash. -/
  items : List Item
  /-- What stands behind the double dash, if there is one. -/
  last : Option (Option String)
  /-- There is at most one pattern, before the double dash or behind it. -/
  length_le : (items.filterMap Item.pattern? ++ last.join.toList).length ≤ 1

namespace Request

/-- The double dash with what stands behind it, if there is one. -/
def lastWords : Option (Option String) → List String
  | none => []
  | some pattern => "--" :: pattern.toList

/-- The arguments that spell a request. -/
def words (r : Request) : List String := r.items.flatMap Item.words ++ lastWords r.last

/-- The options of a request, in order. -/
def flags (r : Request) : List Flag := r.items.filterMap Item.flag?

/-- The forms of output that a request asks for, in order. -/
def formats (r : Request) : List Format := r.flags.filterMap Flag.format?

/-- The patterns of a request, of which there is at most one. -/
def patterns (r : Request) : List String := r.items.filterMap Item.pattern? ++ r.last.join.toList

/-- The options are those that a request asks for. -/
structure Asks (r : Request) (options : Options) : Prop where
  /-- There is a report if the option for it occurs. -/
  check : options.check = true ↔ Flag.check ∈ r.flags
  /-- The usage is shown if an option for it occurs. -/
  help : options.help = true ↔ ∃ long, Flag.help long ∈ r.flags
  /-- The last form of output is taken. -/
  format : options.format = r.formats.getLast?.getD .sexp
  /-- A pattern is taken from the arguments if it is not a lone dash. -/
  argument : ∀ p, options.source = .argument p ↔ p ∈ r.patterns ∧ p ≠ "-"
  /-- The standard input is read if there is no other pattern. -/
  stdin : options.source = .stdin ↔ ∀ p ∈ r.patterns, p = "-"

/-- Two requests have the same pattern, the same forms of output in the same order, and otherwise
the same options; these may be spelled differently, stand in any order and occur again. -/
structure Alike (r s : Request) : Prop where
  /-- They have the same pattern. -/
  patterns : r.patterns = s.patterns
  /-- They ask for the same forms of output in the same order. -/
  formats : r.formats = s.formats
  /-- They ask for a report, or do not. -/
  check : Flag.check ∈ r.flags ↔ Flag.check ∈ s.flags
  /-- They ask for the usage, or do not. -/
  help : (∃ long, Flag.help long ∈ r.flags) ↔ ∃ long, Flag.help long ∈ s.flags

/-- The first argument behind a request cannot be read, for the given reason. Options are read only
as long as there is no double dash. -/
inductive Refuses (r : Request) : List String → UsageError → Prop where
  /-- The argument that follows the option for the form of the output names no form. -/
  | unknownFormat (name : String) (rest : List String) (hlast : r.last = none)
    (hname : ∀ format : Format, format.name ≠ name) :
    Refuses r ("--format" :: name :: rest) (.unknownFormat name)
  /-- What follows the equals sign names no form. -/
  | unknownJoinedFormat (name : String) (rest : List String) (hlast : r.last = none)
    (hname : ∀ format : Format, format.name ≠ name) :
    Refuses r (("--format=" ++ name) :: rest) (.unknownFormat name)
  /-- Nothing follows the option for the form of the output. -/
  | missingValue (hlast : r.last = none) : Refuses r ["--format"] (.missingValue "--format")
  /-- The argument looks like an option and is none. -/
  | unknownOption (argument : String) (rest : List String) (hlast : r.last = none)
    (hunknown : IsUnknown argument) : Refuses r (argument :: rest) (.unknownOption argument)
  /-- The argument is a second pattern. -/
  | extraArgument (argument : String) (rest : List String) (hpattern : r.patterns ≠ [])
    (hfree : r.last = none → IsFree argument) :
    Refuses r (argument :: rest) (.extraArgument argument)

end Request

end CommandLine

/-! ## Reading a request -/

namespace Format

/-- A text that is no name is an unknown form of output. -/
theorem ofName_eq_error {name : String} (h : ∀ format : Format, format.name ≠ name) :
    ofName name = .error (.unknownFormat name) := by
  have hsexp : name ≠ "sexp" := (h sexp).symm
  have hjson : name ≠ "json" := (h json).symm
  have houtline : name ≠ "tree" := (h outline).symm
  rw [ofName, if_neg hsexp, if_neg hjson, if_neg houtline]

end Format

namespace Options

open CommandLine

/-- The options with one more. -/
def withFlag (options : Options) : Flag → Options
  | .check => { options with check := true }
  | .help _ => { options with help := true }
  | .format form _ => { options with format := form }

/-- The options with some more. -/
def withFlags (options : Options) (flags : List Flag) : Options := flags.foldl withFlag options

section

variable (options : Options) (flags : List Flag)

/-- Options are taken one after the other, each by `withFlag`. -/
theorem withFlags_cons (flag : Flag) :
    options.withFlags (flag :: flags) = (options.withFlag flag).withFlags flags := rfl

/-- The option `Flag.check` may as well stand behind the others. -/
theorem withFlags_withFlag_check :
    (options.withFlag .check).withFlags flags = (options.withFlags flags).withFlag .check := by
  induction flags generalizing options with
  | nil => rfl
  | cons flag flags ih =>
    have hswap :
        (options.withFlag .check).withFlag flag = (options.withFlag flag).withFlag .check := by
      cases flag <;> rfl
    rw [withFlags_cons, hswap, ih, withFlags_cons]

/-- There is a report if the option for it is among the options. -/
theorem check_withFlags :
    (options.withFlags flags).check = true ↔ options.check = true ∨ Flag.check ∈ flags := by
  induction flags generalizing options with
  | nil => simp [withFlags]
  | cons flag flags ih =>
    rw [withFlags_cons, ih]
    cases flag <;> simp [withFlag]

/-- The usage is shown if an option for it is among the options. -/
theorem help_withFlags :
    (options.withFlags flags).help = true ↔
      options.help = true ∨ ∃ long, Flag.help long ∈ flags := by
  induction flags generalizing options with
  | nil => simp [withFlags]
  | cons flag flags ih =>
    rw [withFlags_cons, ih]
    cases flag <;> simp [withFlag]

/-- The last form of output among the options is taken. -/
theorem format_withFlags :
    (options.withFlags flags).format =
      (flags.filterMap Flag.format?).getLast?.getD options.format := by
  induction flags generalizing options with
  | nil => rfl
  | cons flag flags ih =>
    rw [withFlags_cons, ih]
    cases flag with
    | format form joined =>
      rw [List.filterMap_cons_some (f := Flag.format?) (b := form) rfl, List.getLast?_cons]
      rfl
    | _ => rfl

end

/-- Where options may stand, the arguments that can only be patterns are the free ones
(`IsFree`). -/
theorem isPositional_iff {argument : String} : isPositional argument = true ↔ IsFree argument := by
  simp [isPositional, IsFree]

/-- Behind a double dash, or if it is free, an argument is a pattern. -/
theorem or_isPositional {onlyPatterns : Bool} {argument : String}
    (h : onlyPatterns = false → IsFree argument) :
    (onlyPatterns || isPositional argument) = true := by
  cases onlyPatterns with
  | false => exact isPositional_iff.mpr (h rfl)
  | true => rfl

/-- The value of a format option, by `formatValue?`, is what follows the equals sign. -/
theorem formatValue?_eq_some_iff {argument name : String} :
    formatValue? argument = some name ↔ argument = "--format=" ++ name := by
  rw [formatValue?, Option.map_eq_some_iff]
  constructor
  · rintro ⟨value, hvalue, rfl⟩
    rw [List.isPrefixOf?_eq_some_iff_append_eq] at hvalue
    rw [← String.toList_inj, String.toList_append, ← hvalue]
    exact congrArg _ String.toList_ofList.symm
  · rintro rfl
    refine ⟨name.toList, ?_, String.ofList_toList⟩
    rw [List.isPrefixOf?_eq_some_iff_append_eq, String.toList_append]

/-- An argument that does not begin like a format option with an equals sign is none. -/
theorem joined_ne {argument : String} (h : ¬"--format=".toList <+: argument.toList)
    (name : String) : "--format=" ++ name ≠ argument := by
  rintro rfl
  exact h ⟨name.toList, String.toList_append.symm⟩

section

variable (pattern : Option String) (options : Options) (rest : List String)

/-- Behind a double dash, or if it is free, an argument is read as the pattern. -/
theorem read_pattern {onlyPatterns : Bool} {argument : String}
    (h : onlyPatterns = false → IsFree argument) :
    read onlyPatterns none options (argument :: rest) =
      read onlyPatterns (some argument) options rest := by
  rw [read.eq_def]
  exact (if_pos (or_isPositional h)).trans rfl

/-- A second pattern cannot be read. -/
theorem read_extra {onlyPatterns : Bool} {argument : String}
    (h : onlyPatterns = false → IsFree argument) (p : String) :
    read onlyPatterns (some p) options (argument :: rest) = .error (.extraArgument argument) := by
  rw [read.eq_def]
  exact (if_pos (or_isPositional h)).trans rfl

/-- Behind a double dash, arguments are read as patterns. -/
theorem read_dashes :
    read false pattern options ("--" :: rest) = read true pattern options rest := by
  rw [read.eq_def]
  rfl

/-- The value of a format option may follow as an argument. -/
theorem read_format (name : String) :
    read false pattern options ("--format" :: name :: rest) =
      (Format.ofName name).bind fun form =>
        read false pattern { options with format := form } rest := by
  rw [read.eq_def]
  cases hname : Format.ofName name <;> simp [isPositional, hname, Except.bind]

/-- What begins with a dash and is no option of one word is a format option with an equals sign, or
cannot be read. -/
theorem read_other {argument : String} (hfree : ¬IsFree argument)
    (hne : argument ∉ ["--", "--check", "-h", "--help", "--format"]) :
    read false pattern options (argument :: rest) =
      (formatValue? argument).elim (.error (.unknownOption argument)) fun name =>
        (Format.ofName name).bind fun form =>
          read false pattern { options with format := form } rest := by
  have hpositional : ¬(false || isPositional argument) = true := by
    rwa [Bool.false_or, isPositional_iff]
  simp only [List.mem_cons, List.not_mem_nil, or_false, not_or] at hne
  obtain ⟨hdashes, hcheck, hletter, hhelp, hformat⟩ := hne
  have hhelp : ¬(decide (argument = "-h") || decide (argument = "--help")) = true := by
    simp [hletter, hhelp]
  rw [read.eq_def]
  refine (if_neg hpositional).trans ?_
  refine (if_neg hdashes).trans ?_
  refine (if_neg hcheck).trans ?_
  refine (if_neg hhelp).trans ?_
  refine (if_neg hformat).trans ?_
  cases formatValue? argument with
  | none => rfl
  | some name => cases hname : Format.ofName name <;> simp [hname, Except.bind]

/-- The value of a format option may follow an equals sign. -/
theorem read_joined (name : String) :
    read false pattern options (("--format=" ++ name) :: rest) =
      (Format.ofName name).bind fun form =>
        read false pattern { options with format := form } rest := by
  have hne : ∀ argument ∈ ["-", "--", "--check", "-h", "--help", "--format"],
      "--format=" ++ name ≠ argument := fun argument hargument =>
    joined_ne ((by decide : ∀ argument ∈ ["-", "--", "--check", "-h", "--help", "--format"],
      ¬"--format=".toList <+: argument.toList) argument hargument) name
  have hfree : ¬IsFree ("--format=" ++ name) := by
    rintro (h | h)
    · exact hne "-" List.mem_cons_self h
    · rw [String.toList_append] at h
      exact h rfl
  rw [read_other pattern options rest hfree fun h => hne _ (List.mem_cons_of_mem _ h) rfl,
    formatValue?_eq_some_iff.mpr rfl, Option.elim_some]

/-- What begins like an option and is none cannot be read. -/
theorem read_unknown {argument : String} (h : IsUnknown argument) :
    read false pattern options (argument :: rest) = .error (.unknownOption argument) := by
  have hfree : ¬IsFree argument := fun hfree =>
    hfree.elim (fun hdash => h.not_mem (hdash ▸ List.mem_cons_self)) fun hhead => hhead h.head
  have hvalue : formatValue? argument = none := by
    cases hvalue : formatValue? argument with
    | none => rfl
    | some name => exact absurd (formatValue?_eq_some_iff.mp hvalue) (h.ne_joined name)
  rw [read_other pattern options rest hfree fun hmem => h.not_mem (List.mem_cons_of_mem _ hmem),
    hvalue, Option.elim_none]

/-- A `Flag` is read from its `Flag.words`. -/
theorem read_flag (flag : Flag) :
    read false pattern options (flag.words ++ rest) =
      read false pattern (options.withFlag flag) rest := by
  cases flag with
  | check =>
    show read false pattern options ("--check" :: rest) = _
    rw [read.eq_def]
    rfl
  | help long =>
    cases long with
    | false =>
      show read false pattern options ("-h" :: rest) = _
      rw [read.eq_def]
      rfl
    | true =>
      show read false pattern options ("--help" :: rest) = _
      rw [read.eq_def]
      rfl
  | format form joined =>
    cases joined with
    | false =>
      show read false pattern options ("--format" :: form.name :: rest) = _
      rw [read_format, Format.ofName_name]
      rfl
    | true =>
      show read false pattern options (("--format=" ++ form.name) :: rest) = _
      rw [read_joined, Format.ofName_name]
      rfl

/-- The `items` before the double dash are read one after the other, as long as there is no second
pattern. -/
theorem read_items (items : List Item)
    (h : (pattern.toList ++ items.filterMap Item.pattern?).length ≤ 1) :
    read false pattern options (items.flatMap Item.words ++ rest) =
      read false (pattern.toList ++ items.filterMap Item.pattern?).head?
        (options.withFlags (items.filterMap Item.flag?)) rest := by
  induction items generalizing pattern options with
  | nil => cases pattern <;> rfl
  | cons item items ih =>
    rw [List.flatMap_cons, List.append_assoc]
    cases item with
    | flag f =>
      show read false pattern options (f.words ++ (items.flatMap Item.words ++ rest)) = _
      rw [read_flag, ih pattern (options.withFlag f) h]
      rfl
    | pattern p free =>
      cases pattern with
      | none =>
        show read false none options (p :: (items.flatMap Item.words ++ rest)) = _
        rw [read_pattern options _ fun _ => free, ih (some p) options h]
        rfl
      | some q => simp [Item.pattern?] at h

/-- A `Request` is read up to its end. -/
theorem ofArgs_words_append (r : Request) :
    ofArgs (r.words ++ rest) =
      read r.last.isSome r.patterns.head? (default.withFlags r.flags) rest := by
  obtain ⟨items, last, hlength⟩ := r
  have hitems : (items.filterMap Item.pattern?).length ≤ 1 := by
    rw [List.length_append] at hlength
    omega
  cases last with
  | none =>
    show read false none default (items.flatMap Item.words ++ [] ++ rest) =
      read false (items.filterMap Item.pattern? ++ []).head? _ rest
    rw [List.append_nil, List.append_nil]
    exact read_items none default rest items hitems
  | some last =>
    show read false none default (items.flatMap Item.words ++ "--" :: last.toList ++ rest) =
      read true (items.filterMap Item.pattern? ++ last.toList).head? _ rest
    rw [List.append_assoc, read_items none default _ items hitems, List.cons_append, read_dashes]
    cases last with
    | none => rw [Option.toList_none, List.append_nil]; rfl
    | some p =>
      have hnone : items.filterMap Item.pattern? = [] := by simpa using hlength
      rw [hnone]
      exact read_pattern (default.withFlags (items.filterMap Item.flag?)) rest nofun

end

/-- The options that a request is read as. -/
theorem ofArgs_words (r : Request) :
    ofArgs r.words =
      .ok { default.withFlags r.flags with source := .ofPattern r.patterns.head? } := by
  rw [← List.append_nil r.words, ofArgs_words_append, read.eq_def]

end Options

namespace CommandLine.Request

open Options

/-- A request has no pattern, or it has one. -/
theorem patterns_eq (r : Request) : r.patterns = [] ∨ ∃ p, r.patterns = [p] := by
  have hlength : r.patterns.length ≤ 1 := r.length_le
  match r.patterns, hlength with
  | [], _ => exact .inl rfl
  | [p], _ => exact .inr ⟨p, rfl⟩

/-- The options that a request is read as are those that it `Asks` for. -/
theorem asks_withFlags (r : Request) :
    r.Asks { default.withFlags r.flags with source := .ofPattern r.patterns.head? } where
  check := (check_withFlags default r.flags).trans (or_iff_right nofun)
  help := (help_withFlags default r.flags).trans (or_iff_right nofun)
  format := format_withFlags default r.flags
  argument p := by
    obtain hnone | ⟨q, hone⟩ := r.patterns_eq
    · simp [hnone, Source.ofPattern]
    · by_cases hdash : q = "-"
      · simp [hone, Source.ofPattern, hdash]
      · simp only [hone, Source.ofPattern, List.head?_cons, if_neg hdash, Source.argument.injEq,
          List.mem_singleton]
        exact ⟨fun h => ⟨h.symm, h ▸ hdash⟩, fun h => h.1.symm⟩
  stdin := by
    obtain hnone | ⟨q, hone⟩ := r.patterns_eq
    · simp [hnone, Source.ofPattern]
    · by_cases hdash : q = "-" <;> simp [hone, Source.ofPattern, hdash]

/-- What a request asks for is determined by its pattern, its forms of output in order, and the set
of its other options. -/
theorem Asks.eq_of_alike {r s : Request} {options others : Options} (hr : r.Asks options)
    (hs : s.Asks others) (h : r.Alike s) : options = others := by
  have hformat : options.format = others.format := by rw [hr.format, hs.format, h.formats]
  have hcheck : options.check = others.check :=
    Bool.eq_iff_iff.mpr (hr.check.trans (h.check.trans hs.check.symm))
  have hhelp : options.help = others.help :=
    Bool.eq_iff_iff.mpr (hr.help.trans (h.help.trans hs.help.symm))
  have hsource : options.source = others.source := by
    cases hsource : options.source with
    | argument p => exact ((hs.argument p).mpr (h.patterns ▸ (hr.argument p).mp hsource)).symm
    | stdin => exact (hs.stdin.mpr (h.patterns ▸ hr.stdin.mp hsource)).symm
  cases options
  cases others
  exact Options.mk.injEq .. |>.mpr ⟨hformat, hcheck, hhelp, hsource⟩

/-- An argument that a request `Refuses` is not read behind it. -/
theorem ofArgs_append_of_refuses {r : Request} {tail : List String} {e : UsageError}
    (h : r.Refuses tail e) : ofArgs (r.words ++ tail) = .error e := by
  rw [ofArgs_words_append]
  cases h with
  | unknownFormat name rest hlast hname =>
    rw [hlast, Option.isSome_none, read_format, Format.ofName_eq_error hname]
    rfl
  | unknownJoinedFormat name rest hlast hname =>
    rw [hlast, Option.isSome_none, read_joined, Format.ofName_eq_error hname]
    rfl
  | missingValue hlast =>
    rw [hlast, Option.isSome_none, read.eq_def]
    rfl
  | unknownOption argument rest hlast hunknown =>
    rw [hlast, Option.isSome_none, read_unknown _ _ _ hunknown]
  | extraArgument argument rest hpattern hfree =>
    obtain hnone | ⟨p, hone⟩ := r.patterns_eq
    · exact absurd hnone hpattern
    · rw [hone, List.head?_cons, read_extra _ _ fun hlast => hfree (by simpa using hlast)]

/-! ## Every list of arguments -/

section

variable {items : List Item} (h : (items.filterMap Item.pattern?).length ≤ 1)

/-- Items without a second pattern, and no double dash. -/
def ofItems : Request where
  items := items
  last := none
  length_le := by rwa [Option.join_none, Option.toList_none, List.append_nil]

/-- The arguments of `ofItems` are those that spell the items. -/
theorem words_ofItems : (ofItems h).words = items.flatMap Item.words :=
  List.append_nil _

/-- The patterns of `ofItems` are those among the items. -/
theorem patterns_ofItems : (ofItems h).patterns = items.filterMap Item.pattern? :=
  List.append_nil _

/-- The arguments that spell items with one more. -/
theorem flatMap_words_concat (item : Item) (rest : List String) :
    (items ++ [item]).flatMap Item.words ++ rest =
      items.flatMap Item.words ++ (item.words ++ rest) := by
  rw [List.flatMap_append, List.flatMap_singleton, List.append_assoc]

end

/-- Behind a double dash, there is at most one argument, or the request is refused there. -/
theorem exists_request_dashes {items : List Item}
    (h : (items.filterMap Item.pattern?).length ≤ 1) (rest : List String) :
    ∃ r : Request, r.words = items.flatMap Item.words ++ "--" :: rest ∨
      ∃ tail e, r.Refuses tail e ∧ r.words ++ tail = items.flatMap Item.words ++ "--" :: rest := by
  have hclosed : (items.filterMap Item.pattern? ++ (some none).join.toList).length ≤ 1 := by
    rwa [Option.join_some, Option.toList_none, List.append_nil]
  match rest with
  | [] => exact ⟨⟨items, some none, hclosed⟩, .inl rfl⟩
  | argument :: rest =>
    by_cases hnone : items.filterMap Item.pattern? = []
    · have hlength :
          (items.filterMap Item.pattern? ++ (some (some argument)).join.toList).length ≤ 1 := by
        rw [hnone]
        exact Nat.le_refl 1
      match rest with
      | [] => exact ⟨⟨items, some (some argument), hlength⟩, .inl rfl⟩
      | extra :: rest =>
        refine ⟨⟨items, some (some argument), hlength⟩, .inr ⟨extra :: rest, _,
          .extraArgument extra rest ?_ nofun, List.append_assoc _ _ _⟩⟩
        exact List.append_ne_nil_of_right_ne_nil _ (List.cons_ne_nil _ _)
    · refine ⟨⟨items, some none, hclosed⟩, .inr ⟨argument :: rest, _,
        .extraArgument argument rest ?_ nofun, List.append_assoc _ _ _⟩⟩
      exact List.append_ne_nil_of_left_ne_nil hnone _

/-- What an argument can be where options may stand. -/
theorem argument_cases (argument : String) :
    IsFree argument ∨ argument = "--" ∨ (∃ f : Flag, f.words = [argument]) ∨
      argument = "--format" ∨
      (∃ name, argument = "--format=" ++ name ∧ ∀ form : Format, form.name ≠ name) ∨
      IsUnknown argument := by
  by_cases hfree : IsFree argument
  · exact .inl hfree
  by_cases hdashes : argument = "--"
  · exact .inr (.inl hdashes)
  by_cases hword : ∃ f : Flag, f.words = [argument]
  · exact .inr (.inr (.inl hword))
  by_cases hformat : argument = "--format"
  · exact .inr (.inr (.inr (.inl hformat)))
  refine .inr (.inr (.inr (.inr ?_)))
  by_cases hjoined : ∃ name, argument = "--format=" ++ name
  · obtain ⟨name, rfl⟩ := hjoined
    exact .inl ⟨name, rfl, fun form hform => hword ⟨.format form true, by rw [← hform]; rfl⟩⟩
  · obtain ⟨hdash, hhead⟩ := not_or.mp hfree
    have hcheck : argument ≠ "--check" := fun h => hword ⟨.check, h ▸ rfl⟩
    have hletter : argument ≠ "-h" := fun h => hword ⟨.help false, h ▸ rfl⟩
    have hhelp : argument ≠ "--help" := fun h => hword ⟨.help true, h ▸ rfl⟩
    exact .inr ⟨not_not.mp hhead, by simp [hdash, hdashes, hcheck, hletter, hhelp, hformat],
      not_exists.mp hjoined⟩

/-- Every list of arguments behind items ends a request, or has an argument that is refused. -/
theorem exists_request_items {items : List Item} (h : (items.filterMap Item.pattern?).length ≤ 1) :
    (rest : List String) → ∃ r : Request, r.words = items.flatMap Item.words ++ rest ∨
      ∃ tail e, r.Refuses tail e ∧ r.words ++ tail = items.flatMap Item.words ++ rest
  | [] => ⟨ofItems h, .inl rfl⟩
  | argument :: rest => by
    -- an option keeps the patterns as they are
    have hflag : ∀ f : Flag, ((items ++ [Item.flag f]).filterMap Item.pattern?).length ≤ 1 := by
      intro f
      rwa [List.filterMap_append, List.filterMap_cons_none rfl, List.filterMap_nil, List.append_nil]
    have hrefused : ∀ {tail : List String} {e : UsageError}, (ofItems h).Refuses tail e →
        ∃ r : Request, r.words = items.flatMap Item.words ++ tail ∨ ∃ below e, r.Refuses below e ∧
          r.words ++ below = items.flatMap Item.words ++ tail := fun hrefuses =>
      ⟨ofItems h, .inr ⟨_, _, hrefuses, congrArg (· ++ _) (words_ofItems h)⟩⟩
    obtain hfree | rfl | ⟨f, hf⟩ | rfl | ⟨name, rfl, hname⟩ | hunknown := argument_cases argument
    · by_cases hnone : items.filterMap Item.pattern? = []
      · have hone :
            ((items ++ [Item.pattern argument hfree]).filterMap Item.pattern?).length ≤ 1 := by
          rw [List.filterMap_append, hnone]
          exact Nat.le_refl 1
        have hrest := exists_request_items hone rest
        rwa [flatMap_words_concat] at hrest
      · exact hrefused (.extraArgument argument rest (by rwa [patterns_ofItems]) fun _ => hfree)
    · exact exists_request_dashes h rest
    · have hrest := exists_request_items (hflag f) rest
      rwa [flatMap_words_concat, Item.words, hf] at hrest
    · match rest with
      | [] => exact hrefused (.missingValue rfl)
      | name :: rest =>
        by_cases hname : ∃ form : Format, form.name = name
        · obtain ⟨form, rfl⟩ := hname
          have hrest := exists_request_items (hflag (.format form false)) rest
          rwa [flatMap_words_concat] at hrest
        · exact hrefused (.unknownFormat name rest rfl (not_exists.mp hname))
    · exact hrefused (.unknownJoinedFormat name rest rfl hname)
    · exact hrefused (.unknownOption argument rest rfl hunknown)

/-- Every list of arguments is a request, or one with an argument behind it that is refused. -/
theorem exists_request (arguments : List String) :
    ∃ r : Request, r.words = arguments ∨
      ∃ tail e, r.Refuses tail e ∧ r.words ++ tail = arguments := by
  have hlength : (([] : List Item).filterMap Item.pattern?).length ≤ 1 := Nat.zero_le 1
  exact exists_request_items hlength arguments

/-- Arguments that can be read are a request. -/
theorem exists_request_of_ofArgs {arguments : List String} {options : Options}
    (h : ofArgs arguments = .ok options) : ∃ r : Request, r.words = arguments := by
  obtain ⟨r, hwords | ⟨tail, e, hrefuses, rfl⟩⟩ := exists_request arguments
  · exact ⟨r, hwords⟩
  · rw [ofArgs_append_of_refuses hrefuses] at h
    cases h

/-! ## Options in front of a pattern -/

section

variable (flags : List Flag) (last : Option (Option String))

/-- There are no patterns among the items that are a `Flag`. -/
theorem filterMap_pattern?_flags : (flags.map Item.flag).filterMap Item.pattern? = [] := by
  rw [List.filterMap_map]
  exact List.filterMap_eq_nil_iff.mpr fun _ _ => rfl

/-- Options, with nothing else before the double dash. -/
def ofFlags : Request where
  items := flags.map Item.flag
  last := last
  length_le := by
    rw [filterMap_pattern?_flags, List.nil_append]
    cases last.join with
    | none => exact Nat.zero_le 1
    | some _ => exact Nat.le_refl 1

/-- The arguments of `ofFlags` are those that spell the options, and what follows them. -/
theorem words_ofFlags :
    (ofFlags flags last).words = flags.flatMap Flag.words ++ lastWords last :=
  congrArg (· ++ _) (List.flatMap_map _ _ _)

/-- The options of `ofFlags` are these options. -/
theorem flags_ofFlags : (ofFlags flags last).flags = flags := by
  rw [Request.flags, ofFlags, List.filterMap_map]
  exact List.filterMap_some

/-- The patterns of `ofFlags` are what follows the options. -/
theorem patterns_ofFlags : (ofFlags flags last).patterns = last.join.toList :=
  congrArg (· ++ _) (filterMap_pattern?_flags flags)

end

end CommandLine.Request

namespace Options

open CommandLine

/-- Options alone ask for the standard input. -/
theorem ofArgs_flags (flags : List Flag) :
    ofArgs (flags.flatMap Flag.words) = .ok { default.withFlags flags with source := .stdin } := by
  have h := ofArgs_words (.ofFlags flags none)
  rwa [Request.words_ofFlags, Request.flags_ofFlags, Request.patterns_ofFlags,
    Request.lastWords, List.append_nil] at h

/-- Options in front of a double dash and a pattern ask for the pattern. -/
theorem ofArgs_flags_append {p : String} (hp : p ≠ "-") (flags : List Flag) :
    ofArgs (flags.flatMap Flag.words ++ ["--", p]) =
      .ok { default.withFlags flags with source := .argument p } := by
  have h := ofArgs_words (.ofFlags flags (some (some p)))
  have hsource : Source.ofPattern (some p) = .argument p := if_neg hp
  rwa [Request.words_ofFlags, Request.flags_ofFlags, Request.patterns_ofFlags, Option.join_some,
    Option.toList_some, List.head?_cons, hsource] at h

/-- A request that begins with the option for a report is read as the rest of it, with a report. -/
theorem ofArgs_check_cons {arguments : List String} {options : Options}
    (h : ofArgs arguments = .ok options) :
    ofArgs ("--check" :: arguments) = .ok { options with check := true } := by
  obtain ⟨r, rfl⟩ := Request.exists_request_of_ofArgs h
  let s : Request := ⟨.flag .check :: r.items, r.last, r.length_le⟩
  rw [ofArgs_words, Except.ok.injEq] at h
  have hflags : default.withFlags s.flags = (default.withFlags r.flags).withFlag .check :=
    withFlags_withFlag_check default r.flags
  have hs : ofArgs s.words =
      .ok { default.withFlags s.flags with source := .ofPattern r.patterns.head? } := ofArgs_words s
  rw [hflags] at hs
  rw [← h]
  exact hs

/-- The reader of arguments in full. Every request is read as the options that it asks for; requests
with the same pattern, the same forms of output in order and otherwise the same set of options are
read alike, however these are spelled, ordered and repeated. An argument behind a request that
cannot be read there is the error, whatever follows it. Every list of arguments is a request, or it
is one with such an argument behind it. -/
theorem ofArgs_characterized :
    (∀ r : Request, ∃ options, ofArgs r.words = .ok options ∧ r.Asks options) ∧
      (∀ r s : Request, r.Alike s → ofArgs r.words = ofArgs s.words) ∧
      (∀ (r : Request) (tail : List String) (e : UsageError), r.Refuses tail e →
        ofArgs (r.words ++ tail) = .error e) ∧
      ∀ arguments : List String, ∃ r : Request, r.words = arguments ∨
        ∃ tail e, r.Refuses tail e ∧ r.words ++ tail = arguments := by
  refine ⟨fun r => ⟨_, ofArgs_words r, r.asks_withFlags⟩, fun r s h => ?_,
    fun r tail e h => Request.ofArgs_append_of_refuses h, Request.exists_request⟩
  rw [ofArgs_words, ofArgs_words, r.asks_withFlags.eq_of_alike s.asks_withFlags h]

/-- Options in two orders and spellings, with the pattern among them and behind the double dash, are
read alike. A value that looks like an option is none of the names of forms, and behind a lone dash
a second pattern is refused even behind the double dash. -/
theorem ofArgs_characterized_mixed :
    ofArgs ["--format=json", "a+", "--check", "--format", "tree", "--"] =
        .ok ⟨.outline, true, false, .argument "a+"⟩ ∧
      ofArgs ["--check", "--format", "json", "--check", "--format=tree", "--", "a+"] =
        .ok ⟨.outline, true, false, .argument "a+"⟩ ∧
      ofArgs ["a+", "--format", "--check", "--nothing"] = .error (.unknownFormat "--check") ∧
      ofArgs ["-", "--", "--help", "b"] = .error (.extraArgument "--help") := by
  obtain ⟨hread, halike, hrefuses, -⟩ := ofArgs_characterized
  let r : Request :=
    ⟨[.flag (.format .json true), .pattern "a+" (by decide), .flag .check,
      .flag (.format .outline false)], some none, Nat.le_refl 1⟩
  let s : Request :=
    ⟨[.flag .check, .flag (.format .json false), .flag .check, .flag (.format .outline true)],
      some (some "a+"), Nat.le_refl 1⟩
  let u : Request := ⟨[.pattern "a+" (by decide)], none, Nat.le_refl 1⟩
  let v : Request := ⟨[.pattern "-" (by decide)], some none, Nat.le_refl 1⟩
  obtain ⟨⟨format, check, help, source⟩, hr, hasks⟩ := hread r
  obtain rfl : format = .outline := hasks.format
  obtain rfl : check = true := hasks.check.mpr (by decide)
  obtain rfl : help = false := Bool.eq_false_iff.mpr fun h => absurd (hasks.help.mp h) (by decide)
  obtain rfl : source = .argument "a+" := (hasks.argument "a+").mpr (by decide)
  have hsame : r.Alike s := ⟨rfl, rfl, by decide, by decide⟩
  refine ⟨hr, (halike r s hsame).symm.trans hr, ?_, ?_⟩
  · exact hrefuses u ["--format", "--check", "--nothing"] _
      (.unknownFormat "--check" _ rfl fun form => by cases form <;> decide)
  · exact hrefuses v ["--help", "b"] _ (.extraArgument "--help" _ (List.cons_ne_nil _ _) nofun)

end Options

end RegexTree
