import RegexTree.Regex.Basic

/-! # Equality of typed trees
Two typed trees are equal when they have the same shape, the same spans and the same decoded values.
Equality is decided by comparing the trees side by side. -/

namespace RegexTree

mutual

/-- Decide whether two values of `Disjunction` are equal. -/
def Disjunction.decEq : (a b : Disjunction) → Decidable (a = b)
  | ⟨f, os⟩, ⟨g, ps⟩ =>
    match f.decEq g, Branch.decEqList os ps with
    | isTrue h, isTrue k => isTrue (by rw [h, k])
    | isFalse h, _ => isFalse fun e => h (congrArg Disjunction.first e)
    | _, isFalse k => isFalse fun e => k (congrArg Disjunction.others e)

/-- Decide whether two lists of branches are equal. -/
def Branch.decEqList : (a b : List Branch) → Decidable (a = b)
  | [], [] => isTrue rfl
  | [], _ :: _ => isFalse nofun
  | _ :: _, [] => isFalse nofun
  | x :: xs, y :: ys =>
    match x.decEq y, Branch.decEqList xs ys with
    | isTrue h, isTrue k => isTrue (by rw [h, k])
    | isFalse h, _ => isFalse fun e => h (List.cons.inj e).1
    | _, isFalse k => isFalse fun e => k (List.cons.inj e).2

/-- Decide whether two branches are equal. -/
def Branch.decEq : (a b : Branch) → Decidable (a = b)
  | ⟨s, a⟩, ⟨t, b⟩ =>
    match decEq s t, a.decEq b with
    | isTrue h, isTrue k => isTrue (by rw [h, k])
    | isFalse h, _ => isFalse fun e => h (congrArg Branch.bar e)
    | _, isFalse k => isFalse fun e => k (congrArg Branch.alternative e)

/-- Decide whether two alternatives are equal. -/
def Alternative.decEq : (a b : Alternative) → Decidable (a = b)
  | ⟨s, xs⟩, ⟨t, ys⟩ =>
    match decEq s t, Term.decEqList xs ys with
    | isTrue h, isTrue k => isTrue (by rw [h, k])
    | isFalse h, _ => isFalse fun e => h (congrArg Alternative.span e)
    | _, isFalse k => isFalse fun e => k (congrArg Alternative.terms e)

/-- Decide whether two lists of terms are equal. -/
def Term.decEqList : (a b : List Term) → Decidable (a = b)
  | [], [] => isTrue rfl
  | [], _ :: _ => isFalse nofun
  | _ :: _, [] => isFalse nofun
  | x :: xs, y :: ys =>
    match x.decEq y, Term.decEqList xs ys with
    | isTrue h, isTrue k => isTrue (by rw [h, k])
    | isFalse h, _ => isFalse fun e => h (List.cons.inj e).1
    | _, isFalse k => isFalse fun e => k (List.cons.inj e).2

/-- Decide whether two terms are equal. -/
def Term.decEq : (a b : Term) → Decidable (a = b)
  | ⟨x, q⟩, ⟨y, r⟩ =>
    match x.decEq y, decEq q r with
    | isTrue h, isTrue k => isTrue (by rw [h, k])
    | isFalse h, _ => isFalse fun e => h (congrArg Term.element e)
    | _, isFalse k => isFalse fun e => k (congrArg Term.quantifier e)

/-- Decide whether two elements are equal. -/
def Element.decEq : (a b : Element) → Decidable (a = b)
  | .atom a, .atom b =>
    match decEq a b with
    | isTrue h => isTrue (by rw [h])
    | isFalse h => isFalse fun e => h (Element.atom.inj e)
  | .group a, .group b =>
    match a.decEq b with
    | isTrue h => isTrue (by rw [h])
    | isFalse h => isFalse fun e => h (Element.group.inj e)
  | .atom _, .group _ => isFalse nofun
  | .group _, .atom _ => isFalse nofun

/-- Decide whether two groups are equal. -/
def Group.decEq : (a b : Group) → Decidable (a = b)
  | ⟨s, o, d, c⟩, ⟨t, p, e, k⟩ =>
    match decEq (s, o, c) (t, p, k), d.decEq e with
    | isTrue h, isTrue i => isTrue (by simp_all)
    | isFalse h, _ => isFalse fun e => h (by simp_all)
    | _, isFalse i => isFalse fun e => i (congrArg Group.body e)

end

instance : DecidableEq Disjunction := Disjunction.decEq

instance : DecidableEq Branch := Branch.decEq

instance : DecidableEq Alternative := Alternative.decEq

instance : DecidableEq Term := Term.decEq

instance : DecidableEq Element := Element.decEq

instance : DecidableEq Group := Group.decEq

deriving instance DecidableEq for Regex

end RegexTree
