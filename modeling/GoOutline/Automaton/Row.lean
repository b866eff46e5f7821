import GoOutline.Grammar.ItemSet

/-!
# Rows of a parse table

What a numbered state of the parser does on each token, and where it goes after each nonterminal.

* `Label`: the labels that a child gets from the production of its parent.
* `Act`: an action that names the state it leads to.
* `Row`: one state.

State `0` is where the parser stands while it looks for a way on after a fault; so `0` also says
that there is nowhere to go.
-/

namespace GoOutline.Automaton

open GoOutline.Grammar

/-- The labels of one place of a production. -/
structure Label where
  field : Option Field
  role : Option Role
  /-- The child is hidden and hands fields of its own children on. -/
  handsOn : Bool
deriving DecidableEq, Inhabited

/-- The labels of a step. -/
def labelOf (s : Step) : Label := ⟨s.field, s.role, s.symbol.handsOnFields⟩

/-- What a state does on a token. -/
inductive Act where
  /-- Take the token and go to another state; an idle one is never carried out. -/
  | shift (target : Nat) (isIdle : Bool)
  /-- Take the token and stay: it may stand anywhere. -/
  | stay
  /-- Build a nonterminal from the last `count` trees. -/
  | reduce (lhs count : Nat) (dynamic : Int) (labels : List Label)
  /-- The text is complete. -/
  | accept
  /-- Look for a way on after a fault. -/
  | recover
deriving DecidableEq, Inhabited

/-- The act that builds the production of an item. -/
def reduction (i : Item) : Act :=
  .reduce i.lhs i.seen.length i.production.dynamic (i.seen.reverse.map labelOf)

/-- One state of the parser. -/
structure Row where
  /-- What to do, by the number of the token. -/
  acts : Array (List Act)
  /-- Where to go, by nonterminal; `0` where there is nowhere to go. -/
  gotos : Array Nat
deriving Inhabited

namespace Row

/-- What to do on a token. -/
def on (r : Row) (t : Terminal) : List Act := r.acts.getD t.ctorIdx []

/-- Where to go after a nonterminal. -/
def after (r : Row) (n : Nat) : Nat := r.gotos.getD n 0

/-- The tokens on which there is something to do. -/
def tokens (r : Row) : Nat :=
  Terminal.all.foldl (fun set t => if (r.on t).isEmpty then set else set ||| t.bit) 0

/-- Number of tokens and nonterminals for which the row has an entry. -/
def size (r : Row) : Nat :=
  (r.acts.toList.filter (!·.isEmpty)).length + (r.gotos.toList.filter (· != 0)).length

/-- The state that the last shift on a token leads to, if its last act is one. -/
def target? (r : Row) (t : Terminal) : Option Nat :=
  match (r.on t).getLast? with
  | some (.shift target _) => some target
  | _ => none

/-- The row with the states it names renamed. -/
def rename (f : Nat → Nat) (r : Row) : Row where
  acts := r.acts.map fun acts => acts.map fun
    | .shift target isIdle => .shift (f target) isIdle
    | a => a
  gotos := r.gotos.map fun n => if n == 0 then 0 else f n

/-- The states that a row leads to. -/
def targets (r : Row) : List Nat :=
  r.gotos.toList.filter (· != 0) ++ r.acts.toList.flatten.filterMap fun
    | .shift target _ => some target
    | _ => none

/-- The entries of either row; where both have one, that of the second. -/
def union (a b : Row) : Row where
  acts := a.acts.zipWith (fun x y => if y.isEmpty then x else y) b.acts
  gotos := a.gotos.zipWith (fun x y => if y == 0 then x else y) b.gotos

/-- The row with no entries. -/
def empty : Row := ⟨Array.replicate Terminal.count [], Array.replicate nonterminalCount 0⟩

end Row

end GoOutline.Automaton
