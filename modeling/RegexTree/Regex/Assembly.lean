import RegexTree.Event
import RegexTree.Lexeme
import RegexTree.Regex.Basic

/-! # Assembly of typed trees
The lexemes of a pattern are put together one by one. An `Assembly` holds the disjunction that is
being read (a `Draft`) and, innermost first, the groups that are open around it (each an
`OpenGroup`), so that groups may nest to any depth. Two questions are answered here that the lexemes
leave open: a closing parenthesis without an open group makes no sense, and a quantifier without
anything to repeat is bad at the beginning of an alternative and stacked elsewhere. -/

namespace RegexTree

/-- A disjunction that is being read. -/
structure Draft where
  /-- The alternatives that are complete, with the bar that ended each, newest first. -/
  complete : List (Alternative × Span)
  /-- Where the current alternative begins. -/
  start : Nat
  /-- The terms of the current alternative, newest first. -/
  terms : List Term

namespace Draft

/-- The draft of a disjunction that begins at an offset. -/
def startingAt (offset : Nat) : Draft := ⟨[], offset, []⟩

/-- One more term in the current alternative. -/
def addTerm (d : Draft) (t : Term) : Draft := { d with terms := t :: d.terms }

/-- The current alternative, if it ends at the given offset. -/
def current (d : Draft) (stop : Nat) : Alternative := ⟨⟨d.start, stop⟩, d.terms.reverse⟩

/-- A bar ends the current alternative and begins the next one. -/
def addBar (d : Draft) (bar : Span) : Draft :=
  ⟨(d.current bar.start, bar) :: d.complete, bar.stop, []⟩

/-- Put a complete alternative and its bar in front of a disjunction. -/
def prepend (d : Disjunction) (complete : Alternative × Span) : Disjunction :=
  ⟨complete.1, ⟨complete.2, d.first⟩ :: d.others⟩

/-- The `Disjunction` of a draft, if it ends at the given offset. -/
def finish (d : Draft) (stop : Nat) : Disjunction := d.complete.foldl prepend ⟨d.current stop, []⟩

end Draft

/-! ## Open groups -/

/-- A group that is open: its opening, and the draft in which the group will be a term. -/
structure OpenGroup where
  /-- The parenthesis and the identifier. -/
  opening : GroupOpening
  /-- The draft around the group. -/
  outer : Draft

/-- The `Group` that an open one becomes, if its body and the group itself end at the given
offsets. -/
def OpenGroup.finish (g : OpenGroup) (body : Draft) (bodyStop stop : Nat) (closing : Option Span) :
    Group :=
  ⟨⟨g.opening.parenthesis.start, stop⟩, g.opening, body.finish bodyStop, closing⟩

/-- A pattern that is being put together. -/
structure Assembly where
  /-- The innermost disjunction. -/
  draft : Draft
  /-- The open groups, innermost first. -/
  groups : List OpenGroup
  /-- The events so far, newest first. -/
  events : List Event

/-! ## Reports -/

/-- What a character class reports: its invalid atoms, and that it is cut off. -/
def CharacterClass.events (c : CharacterClass) : List Event :=
  (c.members.flatMap (·.invalids)).map .invalid ++
    if c.isClosed then [] else [.unterminatedClass c.opening]

/-- What an atom reports. -/
def Atom.events : Atom → List Event
  | characterClass c => c.events
  | invalid i => [.invalid i]
  | _ => []

/-- What the opening of a group reports. -/
def GroupOpening.events (o : GroupOpening) : List Event :=
  match o.kind with
  | .malformed i => [.invalid i]
  | _ => []

/-! ## Adding lexemes -/

namespace Assembly

/-- The beginning of a pattern at an offset. -/
def startingAt (offset : Nat) : Assembly := ⟨.startingAt offset, [], []⟩

/-- Add events to the report, oldest first. -/
def report (a : Assembly) (events : List Event) : Assembly :=
  { a with events := events.reverse ++ a.events }

/-- Add an atom and what it reports (`Atom.events`). -/
def addAtom (a : Assembly) (atom : Atom) (quantifier : Option Quantifier) : Assembly :=
  { a with draft := a.draft.addTerm ⟨.atom atom, quantifier⟩ }.report atom.events

/-- Why a `Lexeme.strayQuantifier` makes no sense after the given terms. -/
def strayReason (terms : List Term) : Reason :=
  if terms.isEmpty then .badQuantifier else .stackedQuantifier

/-- Close the innermost group, if one is open, by `OpenGroup.finish`. -/
def closeGroup (a : Assembly) (closing : Span) (quantifier : Option Quantifier) : Assembly :=
  match a.groups with
  -- a stray parenthesis is an element and may be repeated
  | [] => a.addAtom (.invalid ⟨closing, .unknownConstruct⟩) quantifier
  | g :: outer =>
    let group := g.finish a.draft closing.start closing.stop (some closing)
    ⟨g.outer.addTerm ⟨.group group, quantifier⟩, outer, a.events⟩

/-- Add one `Lexeme`. -/
def push (a : Assembly) : Lexeme → Assembly
  | .bar span => { a with draft := a.draft.addBar span }
  | .opening o => report ⟨.startingAt o.stop, ⟨o, a.draft⟩ :: a.groups, a.events⟩ o.events
  | .closing span quantifier => a.closeGroup span quantifier
  | .atom atom quantifier => a.addAtom atom quantifier
  | .strayQuantifier span => a.addAtom (.invalid ⟨span, strayReason a.draft.terms⟩) none
  | .strayBrace invalid => a.addAtom (.invalid invalid) none

/-- Close a draft and the open groups around it, innermost first, at the end of input: each group is
a term of the draft around it, without its closing parenthesis. -/
def finishGroups (stop : Nat) : Draft → List OpenGroup → Disjunction
  | draft, [] => draft.finish stop
  | draft, g :: outer =>
    finishGroups stop (g.outer.addTerm ⟨.group (g.finish draft stop stop none), none⟩) outer

/-- The disjunction, if the pattern ends at the given offset; `finishGroups` closes what is open. -/
def finish (a : Assembly) (stop : Nat) : Disjunction := finishGroups stop a.draft a.groups

/-- All events, oldest first, if the pattern ends here. -/
def allEvents (a : Assembly) : List Event :=
  a.events.reverse ++ a.groups.map fun g => .unterminatedGroup g.opening.parenthesis

/-- Read lexemes from a cursor to the end of input and `push` each of them. -/
def readAll (a : Assembly) (c : Cursor) : Assembly × Cursor :=
  match _hrest : c.rest with
  | [] => (a, c)
  | x :: _ => (a.push (Lexeme.read x c).1).readAll (Lexeme.read x c).2
termination_by c.rest.length
decreasing_by exact (Lexeme.reaches_read x c).length_lt _hrest

/-! ## Reading to the end -/

/-- The place where `readAll` stops is the end of input. -/
theorem readAll_rest (a : Assembly) (c : Cursor) : (a.readAll c).2.rest = [] := by
  fun_induction readAll a c with
  | case1 a c hrest => exact hrest
  | case2 a c x text hrest ih => exact ih

/-- The place where `readAll` stops is reached. -/
theorem reaches_readAll (a : Assembly) (c : Cursor) : c.Reaches (a.readAll c).2 := by
  fun_induction readAll a c with
  | case1 a c hrest => exact Cursor.Reaches.refl c
  | case2 a c x text hrest ih => exact (c.reaches_next.trans (Lexeme.reaches_read x c)).trans ih

end Assembly

end RegexTree
