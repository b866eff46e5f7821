import GoOutline.Grammar.Production

/-!
# Sets of tokens

Sets of tokens, and tables with one set for each nonterminal, packed into numbers.

* `Terminal.bit`, `Terminal.isIn`, `tokensOf`: token `t` belongs to the set `m` when bit
  `t.ctorIdx` of `m` is set.
* `cell`, `addToCell`: a table of sets; the set of nonterminal `n` lies at `cellWidth * n`.
* `firstTable`, `lastTable`: the tokens a nonterminal can begin and end with.
* `leftmost`: which nonterminals can stand at the left edge of another, and what may follow them.

Only the start rule derives the empty text, and it occurs in no right-hand side, so no nonterminal
in a production is ever empty.
-/

namespace GoOutline.Grammar

/-- The set that holds one token. -/
def Terminal.bit (t : Terminal) : Nat := 1 <<< t.ctorIdx

/-- Whether a set holds a token. -/
def Terminal.isIn (t : Terminal) (set : Nat) : Bool := set.testBit t.ctorIdx

/-- The tokens of a set, in order. -/
def tokensOf (set : Nat) : List Terminal := Terminal.all.filter (·.isIn set)

/-! ### Tables -/

/-- The bits that one set takes in a table: one for each token, and one for the mark `onward`. -/
def cellWidth : Nat := Terminal.count + 1

/-- The set of nonterminal `n` in a table. -/
def cell (table n : Nat) : Nat := (table >>> (cellWidth * n)) &&& (1 <<< cellWidth - 1)

/-- Adds a set to the one of nonterminal `n`. -/
def addToCell (table n set : Nat) : Nat := table ||| (set <<< (cellWidth * n))

/-- In a set of the tokens that may follow a part of a nonterminal, stands for whatever may follow
the nonterminal itself. -/
def onward : Nat := 1 <<< Terminal.count

/-- The table with the mark `onward` in every set. -/
def onwardEverywhere : Nat :=
  (List.range nonterminalCount).foldl (fun table n => addToCell table n onward) 0

/-- Puts the tokens `after` in the place of the mark `onward`, in every set of a table. -/
def replaceOnward (table after : Nat) : Nat :=
  let marks := table &&& onwardEverywhere
  (table ^^^ marks) ||| ((marks >>> Terminal.count) * after)

/-- Repeats a step until nothing changes, at most `fuel` times. -/
def settle (step : Nat → Nat) : (fuel : Nat) → Nat → Nat
  | 0, table => table
  | fuel + 1, table =>
    let next := step table
    if next == table then table else settle step fuel next

/-! ### Beginnings and ends -/

/-- The tokens that a symbol contributes, given those of the nonterminals. -/
def Symbol.tokens (table : Nat) : Symbol → Nat
  | .terminal t => t.bit
  | .nonterminal n => cell table n

/-- Adds to each nonterminal the tokens of the place that `pick` selects in its productions. -/
def growTable (pick : List Step → Option Step) (table : Nat) : Nat :=
  allProductions.foldl
    (fun table p =>
      match pick p.steps with
      | none => table
      | some s => addToCell table p.lhs (s.symbol.tokens table))
    table

/-- The tokens that each nonterminal can begin with. -/
def firstTable : Nat := settle (growTable (·.head?)) nonterminalCount 0

/-- The tokens that each nonterminal can end with. -/
def lastTable : Nat := settle (growTable (·.getLast?)) nonterminalCount 0

/-- The tokens that a symbol can begin with. -/
def Symbol.firstTokens (s : Symbol) : Nat := s.tokens firstTable

/-- The tokens that a symbol can end with. -/
def Symbol.lastTokens (s : Symbol) : Nat := s.tokens lastTable

/-! ### The left edge -/

/-- One step along the left edge: what follows the first symbol of each production of the
nonterminals reached so far. -/
def growLeftmost (edge : Nat) : Nat :=
  allProductions.foldl
    (fun edge p =>
      match p.steps with
      | ⟨.nonterminal n, _, _⟩ :: more =>
        let above := cell edge p.lhs
        if above == 0 then edge
        else
          match more with
          | [] => addToCell edge n above
          | next :: _ => addToCell edge n next.symbol.firstTokens
      | _ => edge)
    edge

/-- What may follow each nonterminal at the left edge of nonterminal `n`. -/
def leftmostOf (n : Nat) : Nat := settle growLeftmost nonterminalCount (addToCell 0 n onward)

/-- `leftmostOf` for every nonterminal. -/
def leftmost : Array Nat := ((List.range nonterminalCount).map leftmostOf).toArray

end GoOutline.Grammar
