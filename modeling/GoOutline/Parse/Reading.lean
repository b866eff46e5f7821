import GoOutline.Parse.Stack
import GoOutline.Parse.View
import GoOutline.Token.Comment
import GoOutline.Token.Literal

/-!
# Reading a text

A shift-reduce reading of a text that the grammar allows. Where the grammar leaves several ways open,
all are followed at once, on stacks that share their lower parts.

* `Ahead`, `nextFrom`: the next token, with the comments before it.
* `Run`: the readings that have come to one state at one place.
* `Run.take`: what is complete before the next token is built, in all ways.
* `readFrom`: all readings of a text, token by token.
* `read?`: the heaviest reading of a whole text. There is none if the grammar does not allow the
  text, or if too many ways are open at one place.
-/

namespace GoOutline.Parse

open GoOutline.Grammar GoOutline.Token GoOutline.Automaton

/-! ### Looking ahead -/

/-- The next token, with the comments before it and the text after it. -/
structure Ahead where
  comments : List Tree
  look : Lookahead
  rest : List Char
  /-- The length of `rest`. -/
  left : Nat

/-- The leaf for a token as it was found. -/
def leafOf (look : Lookahead) : Leaf := Tree.leafOf (some look.token) look.space look.text

/-- The tree for a comment as it was found. -/
def commentOf (look : Lookahead) : Tree := .leaf { leafOf look with isExtra := true }

/-- The next token that is no comment, when the tokens of `wanted` are looked for. -/
def nextFrom (wanted : Nat) :
    (fuel : Nat) → (space rest : List Char) → (left : Nat) → Option Ahead
  | 0, _, _, _ => none
  | fuel + 1, space, rest, left => do
    let found ← lookahead wanted rest
    let count := found.space.length + found.text.length
    let look := { found with space := space ++ found.space }
    if look.token = .comment then
      let ahead ← nextFrom wanted fuel [] (rest.drop count) (left - count)
      return { ahead with comments := commentOf look :: ahead.comments }
    else return ⟨[], look, rest.drop count, left - count⟩

/-- What is taken from a text at once: a token, or a whole string. -/
structure Taken where
  symbol : Grammar.Symbol
  tree : Tree
  rest : List Char
  /-- The length of `rest`. -/
  left : Nat

/-- The tree for a token inside a string. -/
def partOf (s : Scanned) : Tree :=
  .leaf { Tree.leafOf (some s.token) s.space s.text with isExtra := s.token == .comment }

/-- A string with the given tokens after the first quote. -/
def Taken.string (n : RuleName) (look : Lookahead) (parts : List Scanned × List Char) : Taken where
  symbol := n.symbol
  tree := .branchOf (.nonterminal n.ctorIdx) [] 0 (.leaf (leafOf look) :: parts.1.map partOf)
  rest := parts.2
  left := parts.2.length

/-- What is taken with the next token. -/
def Ahead.taken? (a : Ahead) : Option Taken :=
  match a.look.token with
  | .quote => (quotedTokens (a.left + 1) a.rest).map (.string .interpretedStringLiteral a.look)
  | .backquote => (rawTokens a.rest).map (.string .rawStringLiteral a.look)
  | t => some ⟨.terminal t, .leaf (leafOf a.look), a.rest, a.left⟩

/-- The next token as a state takes it: a word that is not reserved counts as an identifier where
nothing else is to be done with it. -/
def Ahead.seenIn (s : ItemSet) (a : Ahead) : Ahead :=
  if (s.actions a.look.token).isEmpty && a.look.isWord && !isKept s.expected a.look.token then
    { a with look := { a.look with token := .identifier } }
  else a

/-! ### Readings -/

/-- The readings that have come to one state at one place. -/
structure Run where
  stack : Stack
  rest : List Char
  /-- What has been read already of the space before the next token: an encoding mark. -/
  space : List Char := []

/-- Readings that have built what is complete before the next token. -/
structure Ready where
  run : Run
  ahead : Ahead
  /-- The text is complete. -/
  isEnd : Bool

namespace Run

/-- The state the readings are in. -/
def state (r : Run) : ItemSet := r.stack.state

/-- The next token, past any comments. -/
def next? (r : Run) : Option Ahead :=
  let left := r.stack.left - r.space.length
  nextFrom (codeSet r.state.expected) (left + 1) r.space r.rest left

/-- The readings with the production of a complete item built. -/
def reduce (r : Run) (i : Item) : List Run :=
  (r.stack.reduce i).map fun stack => { r with stack }

/-- The readings that an action other than the last one gives. -/
def turn (r : Run) : Action → List Run
  | .reduce i => r.reduce i
  | _ => []

/-- The main way to the next token: what is complete is built. Beside it the readings that turn off
from this way. -/
def follow : (fuel : Nat) → Run → Ahead → List Ready × List Run
  | 0, _, _ => ([], [])
  | fuel + 1, r, a =>
    let a := a.seenIn r.state
    let acts := (r.state.actions a.look.token).filter (!·.isIdle)
    let turns := acts.dropLast.flatMap r.turn
    match acts.getLast? with
    | none => ([], [])
    | some (.shift _) => ([⟨r, a, false⟩], turns)
    | some .accept => ([⟨r, a, true⟩], turns)
    | some (.reduce i) =>
      match r.reduce i with
      | [] => ([], turns)
      | q :: more =>
        let (ready, others) := follow fuel q a
        (ready, turns ++ more ++ others)

/-- No more than this many productions are built before one token. -/
def maxBuilt : Nat := 2048

/-- All ways to the next token. Readings turn off from others at most `depth` times. -/
def take : (depth : Nat) → Run → List Ready
  | 0, _ => []
  | depth + 1, r =>
    match r.next? with
    | none => []
    | some a =>
      let (ready, turns) := r.follow maxBuilt a
      ready ++ turns.flatMap (take depth)

/-- Whether readings have come to the same point. -/
def meets (q r : Run) : Bool := q.stack.alike r.stack

/-- Readings that meet, together. -/
def join (q r : Run) : Run := { q with stack := q.stack.join r.stack }

end Run

namespace Ready

/-- Whether readings have come to the same point and see the same token. -/
def meets (q r : Ready) : Bool :=
  q.run.meets r.run && q.ahead.look.token == r.ahead.look.token && q.ahead.left == r.ahead.left

/-- Readings that meet, together. -/
def join (q r : Ready) : Ready := { q with run := q.run.join r.run }

/-- The readings with the next token taken. -/
def shift? (q : Ready) : Option Run :=
  if q.isEnd then none
  else q.ahead.taken?.map fun taken =>
    { stack := q.run.stack.push taken.symbol ⟨q.ahead.comments, taken.tree⟩ taken.left
      rest := taken.rest }

/-- The trees of a complete text: each tree of the whole with the comments around it and the end of
the text. -/
def roots (q : Ready) : List Tree :=
  if q.isEnd then
    q.run.stack.ways.filterMap fun (e, _) =>
      match e.tree with
      | .node b children =>
        some (.branchOf b.head b.labels 0
          (e.comments ++ children ++ q.ahead.comments ++ [.leaf (leafOf q.ahead.look)]))
      | .leaf _ => none
  else []

end Ready

/-! ### Following all readings -/

/-- Adds something to a list: it is joined with the first that it meets. -/
def addTo {α : Type} (meets : α → α → Bool) (join : α → α → α) : List α → α → List α
  | [], x => [x]
  | y :: ys, x => if meets y x then join y x :: ys else y :: addTo meets join ys x

/-- Joins all that meet. -/
def condense {α : Type} (meets : α → α → Bool) (join : α → α → α) (xs : List α) : List α :=
  xs.foldl (addTo meets join) []

/-- No more than this many readings are followed at once. -/
def maxRuns : Nat := 6

/-- How often a reading may turn off from others before one token. -/
def maxTurns : Nat := 32

/-- The readings that are farthest behind, and the others. -/
def hindmost (runs : List Run) : List Run × List Run :=
  let most := runs.foldl (fun n r => max n r.stack.left) 0
  runs.partition fun r => r.stack.left == most

/-- The heaviest of some trees; of those that weigh the same, the first. -/
def heaviest : List Tree → Option Tree
  | [] => none
  | t :: ts =>
    match heaviest ts with
    | none => some t
    | some u => some (if t.dynamic < u.dynamic then u else t)

/-- Some readings before their next token. -/
def readyOf (now : List Run) : List Ready :=
  condense Ready.meets Ready.join (now.flatMap (Run.take maxTurns))

/-- Some readings after their next token, with those that are farther ahead. -/
def nextOf (ready : List Ready) (later : List Run) : List Run :=
  condense Run.meets Run.join (ready.filterMap Ready.shift? ++ later)

/-- Follows the readings, those farthest behind first, until all have ended. There is no answer if
too many are open at a time. -/
def readFrom : (fuel : Nat) → List Run → List Tree → Option Tree
  | 0, _, _ => none
  | _ + 1, [], done => heaviest done
  | fuel + 1, runs, done =>
    if maxRuns < runs.length || runs.any (·.stack.isWide) then none
    else
      let (now, later) := hindmost runs
      let ready := readyOf now
      if ready.any (·.run.stack.isWide) then none
      else readFrom fuel (nextOf ready later) (done ++ ready.flatMap Ready.roots)

/-- The readings at the start of a text. An encoding mark counts as space. -/
def Run.start (text : List Char) : Run :=
  let stack := Stack.bottom text.length
  match text with
  | c :: rest => if c = byteOrderMark then { stack, rest, space := [c] } else { stack, rest := text }
  | [] => { stack, rest := [] }

/-- No reading takes more rounds: a token takes one, and there are no two empty tokens for one piece
of the text. -/
def maxRounds (text : List Char) : Nat := 2 * (pieces text).length + 16

/-- The tree of a text that the grammar allows: the heaviest reading. A text that is one statement and
does not go on after it counts as a fault. -/
def read? (text : List Char) : Option Tree :=
  (readFrom (maxRounds text) [.start text] []).filter fun tree =>
    tree.isClosed || 1 < tree.items.length

end GoOutline.Parse
