import GoOutline.Automaton.Merge

/-!
# Scanning modes

The sets of tokens that the scanner looks for. States share a set where that does no harm, so in
some states the scanner also finds tokens that do not fit there.

* `unite`: the union of two sets, if no token of one gets in the way of the other.
* `modes`: the sets, and which of them each state uses.
* `Table`, `table`: the finished parse table.
-/

namespace GoOutline.Automaton

open GoOutline.Grammar GoOutline.Token

/-- For each token, those that occur together with it in some state. -/
def companions : Array Nat :=
  let sets := (tokenSets.toList.drop 1).eraseDups
  (Terminal.all.map fun t =>
    sets.foldl (fun found set => if t.isIn set then found ||| set else found) 0).toArray

/-- Whether a token overlaps another in either direction. -/
def overlapping (t u : Terminal) : Bool :=
  u.isIn (standings.overlaps.getD t.ctorIdx 0) || t.isIn (standings.overlaps.getD u.ctorIdx 0)

/-- For each token, those that a set without it must not hold if it is to be added. -/
def obstacles : Array Nat :=
  (Terminal.all.map fun t =>
    let own := standings.clashes.getD t.ctorIdx 0 ||| standings.yields.getD t.ctorIdx 0
    let together := companions.getD t.ctorIdx 0
    Terminal.all.foldl
      (fun set u => if !u.isIn together && overlapping t u then set ||| u.bit else set) own).toArray

/-- The union of two sets, if no token of just one of them gets in the way of the other. -/
def unite (a b : Nat) : Option Nat :=
  let blocked := Terminal.all.any fun t =>
    t ≠ .endOfInput && match t.isIn a, t.isIn b with
      | true, false => obstacles.getD t.ctorIdx 0 &&& b != 0
      | false, true => obstacles.getD t.ctorIdx 0 &&& a != 0
      | _, _ => false
  if blocked then none else some (a ||| b)

/-- Adds a set to the first of the others that it can be united with. -/
def addMode (modes : List Nat) (set : Nat) : List Nat × Nat :=
  match modes with
  | [] => ([set], 0)
  | m :: more =>
    match unite m set with
    | some union => (union :: more, 0)
    | none =>
      let (more, place) := addMode more set
      (m :: more, place + 1)

/-- A parse table with its scanning modes. -/
structure Table where
  rows : Array Row
  /-- The tokens that the scanner looks for, by mode. -/
  modes : Array Nat
  /-- The mode of each state. -/
  modeOf : Array Nat

/-- The finished parse table. -/
def table : Table :=
  let (modes, modeOf) := compact.foldl
    (fun (modes, modeOf) row =>
      let (modes, place) := addMode modes (scanSet row.tokens)
      (modes, modeOf.push place))
    ([], (#[] : Array Nat))
  { rows := compact, modes := modes.toArray, modeOf := modeOf }

end GoOutline.Automaton
