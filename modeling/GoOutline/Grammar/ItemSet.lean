import GoOutline.Grammar.TokenSet

/-!
# Item sets

The states of a shift-reduce parser: sets of partly read productions, each with the tokens that may
follow it.

* `Item`: a production of which a part has been read.
* `ItemSet`: a state; `ItemSet.start` is the first one and `ItemSet.advance` leads to the next.
* `ItemSet.actions`: what to do on a token. Where a production could end or go on, precedence
  decides, then associativity; what they leave open stays open, and both ways are followed.
* `ItemSet.expected`: the tokens for which a state has something to do.
-/

namespace GoOutline.Grammar

/-- A production of which a part has been read. -/
structure Item where
  production : Production
  /-- The places read so far, last first. -/
  seen : List Step
  /-- The places still to come. -/
  rest : List Step
deriving DecidableEq, Inhabited

/-- A production with nothing read. -/
def Production.item (p : Production) : Item := ⟨p, [], p.steps⟩

/-- The nonterminal that the item builds. -/
def Item.lhs (i : Item) : Nat := i.production.lhs

/-- The symbol that comes next. -/
def Item.next? (i : Item) : Option Symbol := i.rest.head?.map Step.symbol

/-- The item with one more place read. -/
def Item.advance (i : Item) : Item :=
  match i.rest with
  | [] => i
  | s :: rest => { i with seen := s :: i.seen, rest }

/-- The tokens that may follow the next symbol of an item that `lookahead` follows. -/
def Item.afterNext (i : Item) (lookahead : Nat) : Nat :=
  match i.rest with
  | _ :: s :: _ => s.symbol.firstTokens
  | _ => lookahead

/-- A number that is no nonterminal: the goal of the whole parse. -/
def goal : Nat := nonterminalCount

/-- The item that reads a whole source file. -/
def Item.start : Item :=
  Production.item
    { number := allProductions.length
      lhs := goal
      steps := [⟨RuleName.sourceFile.symbol, none, none⟩]
      prec := 0
      assoc := none
      dynamic := 0 }

/-! ### Closure -/

/-- What may follow each nonterminal that can begin next, given one item: a table. -/
def Item.edge (i : Item) (lookahead : Nat) : Nat :=
  match i.next? with
  | some (.nonterminal n) => replaceOnward (leftmost.getD n 0) (i.afterNext lookahead)
  | _ => 0

/-- A state of the parser. -/
structure ItemSet where
  /-- The items that brought the parser here, each with the tokens that may follow it. -/
  kernel : List (Item × Nat)
  /-- For each nonterminal that can begin here, the tokens that may follow it: a table. -/
  edge : Nat
deriving DecidableEq

/-- The state with the given items. -/
def ItemSet.ofKernel (kernel : List (Item × Nat)) : ItemSet where
  kernel := kernel
  edge := kernel.foldl (fun edge (i, lookahead) => edge ||| i.edge lookahead) 0

/-- The first state. -/
def ItemSet.start : ItemSet := .ofKernel [(.start, Terminal.endOfInput.bit)]

/-- The state after one more symbol. -/
def ItemSet.advance (s : ItemSet) (x : Symbol) : ItemSet :=
  .ofKernel <|
    (s.kernel.filter fun (i, _) => i.next? == some x).map (fun (i, lookahead) => (i.advance, lookahead))
    ++ (productionsFrom.getD x.code []).filterMap fun p =>
      match cell s.edge p.lhs with
      | 0 => none
      | lookahead => some (p.item.advance, lookahead)

/-! ### Actions -/

/-- What a state does on a token. -/
inductive Action where
  /-- Take the token. It is idle to add to a run of repetitions that can also end here: both are
  shapes of one thing, and the run always ends. -/
  | shift (isIdle : Bool)
  /-- The item is complete: build its nonterminal. -/
  | reduce (i : Item)
  /-- The text is complete. -/
  | accept
deriving DecidableEq

/-- Whether an action is never carried out. -/
def Action.isIdle : Action → Bool
  | .shift isIdle => isIdle
  | _ => false

/-- Adds a complete item to others, shorter ones first, then by nonterminal. -/
def insertComplete (x : Item × Nat) : List (Item × Nat) → List (Item × Nat)
  | [] => [x]
  | y :: ys =>
    if x.1.seen.length < y.1.seen.length
        || (x.1.seen.length == y.1.seen.length && x.1.lhs < y.1.lhs) then x :: y :: ys
    else y :: insertComplete x ys

/-- The complete items of a state, each with the tokens on which it is built. -/
def ItemSet.complete (s : ItemSet) : List (Item × Nat) :=
  let empty := emptyProductions.filterMap fun p =>
    match cell s.edge p.lhs with
    | 0 => none
    | lookahead => some (p.item, lookahead)
  (s.kernel.filter (·.1.rest.isEmpty)).foldl (fun items x => insertComplete x items) empty

/-- The items of a state that can still go on. -/
def ItemSet.pending (s : ItemSet) : List Item :=
  (s.kernel.filter (!·.1.rest.isEmpty)).map (·.1)

/-- Whether an item goes on with the token. -/
def Item.goesOnWith (i : Item) (t : Terminal) : Bool :=
  match i.next? with
  | none => false
  | some x => t.isIn x.firstTokens

/-- The items of the highest precedence. -/
def highest (items : List Item) : List Item :=
  items.filter fun i => items.all fun j => j.production.prec ≤ i.production.prec

/-- How a conflict between going on and ending is settled: which of the two remain. The items
`ending` have one precedence. -/
def settleConflict (going ending : List Item) : Bool × Bool :=
  let more := going.any fun g => ending.any fun e => e.production.prec < g.production.prec
  let less := going.any fun g => ending.any fun e => g.production.prec < e.production.prec
  if more && !less then (true, false)
  else if less && !more then (false, true)
  else if more && less then (true, true)
  else if ending.all (·.production.assoc == some .left) then (false, true)
  else if ending.all (·.production.assoc == some .right) then (true, false)
  else (true, true)

/-- Whether all items are runs of one repetition: then ending a run and adding to it are two shapes
of one thing, and the run always ends. -/
def sameRepetition (items : List Item) : Bool :=
  match items with
  | [] => false
  | i :: _ => isRepetition i.lhs && i.lhs != goal && items.all (·.lhs == i.lhs)

/-- The action that completes an item. -/
def Item.completion (i : Item) : Action := if i.lhs == goal then .accept else .reduce i

/-- What to do on a token: build what is complete, take the token, or both. -/
def ItemSet.actions (s : ItemSet) (t : Terminal) : List Action :=
  let done := (s.complete.filter (t.isIn ·.2)).map (·.1)
  let going := s.pending.filter (·.goesOnWith t)
  let ending := highest done
  if ending.isEmpty then if going.isEmpty then [] else [.shift false]
  else if going.isEmpty then ending.map Item.completion
  else if sameRepetition (going ++ done) then ending.map Item.completion ++ [.shift true]
  else
    let (goOn, stop) := settleConflict going ending
    (if stop then ending.map Item.completion else []) ++ (if goOn then [.shift false] else [])

/-- The tokens for which a state has something to do; comments may stand anywhere. -/
def ItemSet.expected (s : ItemSet) : Nat :=
  s.complete.foldl (fun set (_, lookahead) => set ||| lookahead)
    (s.pending.foldl
      (fun set i => match i.next? with
        | none => set
        | some x => set ||| x.firstTokens)
      Terminal.comment.bit)

end GoOutline.Grammar
