import GoOutline.Grammar.Go

/-!
# Productions

The grammar as plain productions, which is what a shift-reduce parser works with.

* `Symbol`, `Step`, `Production`: a production is a sequence of labelled symbols.
* `repetitions`: every repeated part of a rule becomes a nonterminal of its own, which holds one
  occurrence or two shorter runs.
* `allProductions`: all productions; `productionsOf` and `productionsFrom` list them by the
  nonterminal they build and by the symbol they begin with.
-/

namespace GoOutline.Grammar

/-- A token or a nonterminal. Nonterminals are numbered: the rules first, then the repetitions. -/
inductive Symbol where
  | terminal (t : Terminal)
  | nonterminal (n : Nat)
deriving DecidableEq, Inhabited

/-- The symbol of a rule. -/
def RuleName.symbol (n : RuleName) : Symbol := .nonterminal n.ctorIdx

/-- A symbol with the labels its node gets. -/
structure Step where
  symbol : Symbol
  field : Option Field
  role : Option Role
deriving DecidableEq, Inhabited

/-- One way to build a nonterminal. -/
structure Production where
  /-- Its place among all productions. -/
  number : Nat
  lhs : Nat
  steps : List Step
  prec : Int
  assoc : Option Assoc
  dynamic : Int
deriving DecidableEq, Inhabited

/-! ### Repetitions -/

/-- The repeated parts of a rule, inner ones first. -/
def Rule.repeated : Rule → List Rule
  | .empty | .token _ | .rule _ => []
  | .many1 r => r.repeated ++ [r]
  | .seq a b | .alt a b => a.repeated ++ b.repeated
  | .field _ r | .role _ r | .prec _ _ r | .dynamic _ r => r.repeated

/-- The repeated parts of the grammar, each once. -/
def repetitions : List Rule := (RuleName.all.flatMap fun n => n.body.repeated).eraseDups

/-- Number of nonterminals. -/
def nonterminalCount : Nat := RuleName.count + repetitions.length

/-- Whether a nonterminal stands for a repetition. -/
def isRepetition (n : Nat) : Bool := RuleName.count ≤ n

/-- Whether the node of a nonterminal is replaced by its children. -/
def isHidden (n : Nat) : Bool := isRepetition n || (RuleName.ofNat n).isHidden

/-! ### Productions -/

/-- The symbol that stands for one place of a sequence. -/
def Atom.symbol : Atom → Symbol
  | .token t => .terminal t
  | .rule n => n.symbol
  | .many r => .nonterminal (RuleName.count + repetitions.idxOf r)

/-- The production that an alternative of nonterminal `lhs` gives. -/
def Alternative.production (lhs : Nat) (a : Alternative) : Production where
  number := 0
  lhs := lhs
  steps := a.places.map fun p => ⟨p.atom.symbol, p.field, p.role⟩
  prec := a.prec
  assoc := a.assoc
  dynamic := a.dynamic

/-- The productions of a rule. -/
def RuleName.productions (n : RuleName) : List Production :=
  n.body.alternatives.map (Alternative.production n.ctorIdx)

/-- The productions of the repetition of `r`: two runs, or one occurrence. -/
def repetitionProductions (lhs : Nat) (r : Rule) : List Production :=
  let again : Step := ⟨.nonterminal lhs, none, none⟩
  ⟨0, lhs, [again, again], 0, none, 0⟩ :: r.alternatives.map (Alternative.production lhs)

/-- All productions, those of the rules first. -/
def allProductions : List Production :=
  let ofRules := RuleName.all.flatMap RuleName.productions
  let ofRepetitions := repetitions.zipIdx.flatMap fun (r, k) =>
    repetitionProductions (RuleName.count + k) r
  (ofRules ++ ofRepetitions).zipIdx.map fun (p, k) => { p with number := k }

/-- The productions of each nonterminal. -/
def productionsOf : Array (List Production) :=
  ((List.range nonterminalCount).map fun n => allProductions.filter (·.lhs == n)).toArray

/-- Number of symbols. -/
def symbolCount : Nat := Terminal.count + nonterminalCount

/-- The number of a symbol among all symbols, tokens first. -/
def Symbol.code : Symbol → Nat
  | .terminal t => t.ctorIdx
  | .nonterminal n => Terminal.count + n

/-- Whether a production begins with the symbol of a number. -/
def Production.beginsWith (p : Production) (code : Nat) : Bool :=
  match p.steps with
  | [] => false
  | s :: _ => s.symbol.code == code

/-- The productions that begin with each symbol, by the number of the symbol. -/
def productionsFrom : Array (List Production) :=
  ((List.range symbolCount).map fun code =>
    allProductions.filter (·.beginsWith code)).toArray

/-! ### Inherited fields -/

/-- The nonterminals one of whose children has a field, or hands on fields of its own children,
given those found so far. -/
def growCarriers (carriers : List Nat) : List Nat :=
  (List.range nonterminalCount).filter fun n =>
    (productionsOf.getD n []).any fun p => p.steps.any fun s =>
      s.field.isSome || match s.symbol with
        | .terminal _ => false
        | .nonterminal k => isHidden k && carriers.contains k

/-- The nonterminals whose nodes have children with fields. Hidden nodes are nested at most four
deep before one of them has a field, so a few rounds find all. -/
def fieldCarriers : List Nat := (growCarriers ∘ growCarriers ∘ growCarriers ∘ growCarriers) []

/-- Whether a symbol hands fields of its children on to its parent. -/
def Symbol.handsOnFields : Symbol → Bool
  | .terminal _ => false
  | .nonterminal n => isHidden n && fieldCarriers.contains n

/-- The productions of nothing. -/
def emptyProductions : List Production := allProductions.filter (·.steps.isEmpty)

end GoOutline.Grammar
