import Std.Data.HashMap
import GoOutline.Automaton.Row

/-!
# The full parse table

All states that the parser can get into, each with its row.

* `Item.family`: items that go on alike and build alike have one number.
* `ItemSet.successors`: all states that follow a state.
* `canonical`: the table, with the states numbered in the order in which they are reached.
-/

namespace GoOutline.Automaton

open GoOutline.Grammar

/-! ### Families of items -/

/-- Forgets which symbol was read. -/
def forget (s : Step) : Step := { s with symbol := .terminal .endOfInput }

/-- What matters of an item: the symbols read so far matter only if one of them hands fields on. -/
def shapeOf (i : Item) : Item :=
  let kept := if i.seen.any (·.symbol.handsOnFields) then i.seen else i.seen.map forget
  ⟨{ i.production with number := 0, steps := [] }, kept, i.rest⟩

/-- All items of a production. -/
def itemsOf (i : Item) : List Item :=
  (List.range i.rest.length).foldl
    (fun items _ => match items with
      | [] => []
      | j :: _ => j.advance :: items)
    [i]

/-- No production has so many places. -/
def maxPlaces : Nat := 32

/-- The number of an item among all items. -/
def codeOf (i : Item) : Nat := i.production.number * maxPlaces + i.seen.length

/-- The families of all items, by `codeOf`: items of one shape have the same number. -/
def families : Array Nat :=
  let items := ((allProductions.map Production.item) ++ [Item.start]).flatMap itemsOf
  let shapes := (items.map shapeOf).eraseDups
  items.foldl (fun table i => table.setIfInBounds (codeOf i) (shapes.idxOf (shapeOf i)))
    (Array.replicate ((allProductions.length + 1) * maxPlaces) 0)

/-- The family of an item. -/
def familyOf (i : Item) : Nat := families.getD (codeOf i) 0

/-! ### States -/

/-- What tells states apart: the families of their items with the tokens that may follow. -/
abbrev Key := List (Nat × Nat)

/-- Adds an item to others in the order of their families. -/
def insertItem (family : Nat) (x : Item × Nat) :
    List (Nat × Item × Nat) → List (Nat × Item × Nat)
  | [] => [(family, x)]
  | y :: ys =>
    if family < y.1 then (family, x) :: y :: ys
    else if family == y.1 then (family, x.1, x.2 ||| y.2.2) :: ys
    else y :: insertItem family x ys

/-- The items that follow a state, by the number of the symbol that leads there. -/
def successors (s : ItemSet) : Array (List (Nat × Item × Nat)) :=
  let add (table : Array (List (Nat × Item × Nat))) (i : Item) (lookahead : Nat) :=
    match i.next? with
    | none => table
    | some x => table.modify x.code (insertItem (familyOf i.advance) (i.advance, lookahead))
  let table := s.kernel.foldl (fun table (i, lookahead) => add table i lookahead)
    (Array.replicate symbolCount [])
  (List.range nonterminalCount).foldl
    (fun table n =>
      match cell s.edge n with
      | 0 => table
      | lookahead =>
        (productionsOf.getD n []).foldl (fun table p => add table p.item lookahead) table)
    table

/-! ### The table -/

/-- The table as far as it is built: the states found, and the rows of those already visited. -/
structure Exploration where
  states : Array ItemSet
  numbers : Std.HashMap Key Nat
  rows : Array Row

/-- The number of the state with the given items, which is added if it is new. -/
def Exploration.number (e : Exploration) (items : List (Nat × Item × Nat)) : Nat × Exploration :=
  let key : Key := items.map fun (family, _, lookahead) => (family, lookahead)
  match e.numbers[key]? with
  | some n => (n, e)
  | none =>
    let n := e.states.size
    (n, { e with
      states := e.states.push (.ofKernel (items.map (·.2)))
      numbers := e.numbers.insert key n })

/-- The acts of a state on a token that leads to state `target`. -/
def actsOf (s : ItemSet) (t : Terminal) (target : Nat) : List Act :=
  if t = .comment then [.stay]
  else (s.actions t).map fun
    | .shift isIdle => .shift target isIdle
    | .reduce i => reduction i
    | .accept => .accept

/-- Visits one state: numbers the states that follow it, and writes its row. -/
def Exploration.visit (e : Exploration) (s : ItemSet) : Exploration :=
  let following := successors s
  let (targets, e) := following.foldl
    (fun (targets, e) items =>
      if items.isEmpty then (targets.push 0, e)
      else
        let (n, e) := e.number items
        (targets.push n, e))
    (#[], e)
  let expected := s.expected
  let row : Row :=
    { acts := (Terminal.all.map fun t =>
        if t.isIn expected then actsOf s t (targets.getD t.ctorIdx 0) else []).toArray
      gotos := targets.extract Terminal.count symbolCount }
  { e with rows := e.rows.push row }

/-- Visits the states in the order in which they were found. -/
def explore : (fuel : Nat) → Exploration → Exploration
  | 0, e => e
  | fuel + 1, e =>
    match e.states[e.rows.size]? with
    | none => e
    | some s => explore fuel (e.visit s)

/-- The full table: state `0` has no entries, and the parser begins in state `1`. -/
def canonical : Exploration :=
  explore (1 <<< 16)
    { states := #[⟨[], 0⟩, .start]
      numbers := ∅
      rows := #[.empty] }

/-- The families of the items of a state, without what may follow. -/
def coreOf (s : ItemSet) : List Nat := s.kernel.map (familyOf ·.1)

end GoOutline.Automaton
