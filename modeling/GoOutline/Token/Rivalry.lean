import GoOutline.Token.Word

/-!
# Rival tokens

Which tokens get in each other's way when a scanner looks for both at once.

* `followSets`: the tokens that may come right after a token.
* `Standing`: how a token fares against a rival.
* `survey`: the standings of two tokens, found by reading all texts that keep both in play.
* `standings`: the same for every token, as sets of rivals.
-/

namespace GoOutline.Token

open GoOutline.Grammar

/-! ### What follows a token -/

/-- The set of all tokens but the end of the input. -/
def allTokens : Nat := Terminal.endOfInput.bit - 1

/-- The reserved words. -/
def reservedSet : Nat :=
  Terminal.all.foldl (fun set t => if t.isReserved then set ||| t.bit else set) 0

/-- A set of tokens that come next, with the reserved words where an identifier may come. -/
def withReserved (set : Nat) : Nat :=
  if Terminal.identifier.isIn set then set ||| reservedSet else set

/-- Adds a set to that of each token of `tokens`. -/
def addToEach (table : Array Nat) (tokens set : Nat) : Array Nat :=
  (tokensOf tokens).foldl (fun table t => table.modify t.ctorIdx (· ||| set)) table

/-- The pairs of neighbours in a sequence. -/
def neighbours : List Step → List (Symbol × Symbol)
  | a :: b :: more => (a.symbol, b.symbol) :: neighbours (b :: more)
  | _ => []

/-- The tokens that may come right after each token. A comment may come anywhere. -/
def followSets : Array Nat :=
  let pairs := (allProductions.flatMap fun p => neighbours p.steps).eraseDups
  let table := pairs.foldl
    (fun table (a, b) => addToEach table a.lastTokens (withReserved b.firstTokens))
    (Array.replicate Terminal.count Terminal.comment.bit)
  table.modify Terminal.comment.ctorIdx fun _ => allTokens

/-! ### Characters -/

/-- One character of each kind that a pattern can tell apart: all of ASCII, a letter, a mark that
only continues an identifier, and a character that belongs to none. -/
def sampleChars : List Char := (List.range 128).map Char.ofNat ++ ['\u00e9', '\u00b7', '\u00a7']

/-- The sample characters that a token can begin with, white space before it included, as a set of
places in `sampleChars`. -/
def openingChars (t : Terminal) : Nat :=
  sampleChars.zipIdx.foldl
    (fun set (c, k) =>
      if ((Candidate.start t).goOn ((Candidate.start t).after c)).isSome then set ||| (1 <<< k)
      else set)
    0

/-- `openingChars` of each token. -/
def openingTable : Array Nat := (Terminal.all.map openingChars).toArray

/-- The sample characters that may come right after each token. -/
def followingChars : Array Nat :=
  followSets.map fun follow =>
    (tokensOf follow).foldl (fun set t => set ||| openingTable.getD t.ctorIdx 0) 0

/-! ### Standings -/

/-- How a token fares against a rival. -/
structure Standing where
  /-- It can be taken where the rival is meant: it fits the same text and is preferred, or it goes
  on with a character that may follow the rival, or it ends where white space could be skipped. -/
  clashes : Bool := false
  /-- It ends where the rival could go on. -/
  yields : Bool := false
  /-- It shares some beginning with the rival in any of these ways. -/
  overlaps : Bool := false

/-- Either of the two. -/
def Standing.join (a b : Standing) : Standing :=
  ⟨a.clashes || b.clashes, a.yields || b.yields, a.overlaps || b.overlaps⟩

/-- What is found out about one of the tokens. -/
abbrev Finding := Terminal × Standing

/-- What is found out where some of the candidates are complete: all of them where white space may
still be skipped, and the preferred one of several. -/
def findAtEnd (ks : List Candidate) : List Finding :=
  let done := ks.filter (·.pattern.isDone)
  let noted : Standing := { clashes := true, overlaps := true }
  (if ks.any (·.isLeading) then done.map fun k => (k.token, noted) else [])
    ++ match done, completed ks with
      | _ :: _ :: _, some t => [(t, noted)]
      | _, _ => []

/-- What is found out when token `done` is complete and only others go on with character number
`k`, and `left` are the candidates that do. -/
def findGoingOn (ks : List Candidate) (done : Terminal) (nexts : List (Candidate × Pattern × Bool))
    (left : List Candidate) (k : Nat) : List Finding :=
  let weight := nexts.foldl (fun w (c, p, _) => if p.isNothing then w else max w c.token.weight) 0
  let isSkipped := nexts.all fun (_, p, _) => p.isNothing
  let goesOn := done.weight < weight
    || (weight == done.weight && !isSkipped && !ks.any (·.isLeading))
  if goesOn then
    let isFollower := (followingChars.getD done.ctorIdx 0).testBit k
    left.map fun c => (c.token, { clashes := isFollower, overlaps := true })
  else [(done, { yields := true, overlaps := true })]

/-- Reads every sample character once: what is found out, and the candidates it leaves. -/
def surveyStep (ks : List Candidate) : List Finding × List (List Candidate) :=
  let winner := completed ks
  sampleChars.zipIdx.foldl
    (fun (found, reached) (c, k) =>
      let nexts := ks.map fun x => (x, x.after c)
      let left := nexts.filterMap fun (x, next) => x.goOn next
      if left.isEmpty then (found, reached)
      else
        let reached :=
          if left.length < 2 || reached.contains left then reached else left :: reached
        match winner with
        | none => (found, reached)
        | some done =>
          if left.any (·.token == done) then (found, reached)
          else (findGoingOn ks done nexts left k ++ found, reached))
    (findAtEnd ks, [])

/-- Follows all texts that keep two candidates in play. -/
def surveyFrom : (fuel : Nat) → (visited pending : List (List Candidate)) → List Finding →
    List Finding
  | 0, _, _, found => found
  | _ + 1, _, [], found => found
  | fuel + 1, visited, ks :: pending, found =>
    if visited.contains ks then surveyFrom fuel visited pending found
    else
      let (more, reached) := surveyStep ks
      surveyFrom fuel (ks :: visited) (reached ++ pending) (more ++ found)

/-- The standings of two tokens against each other. -/
def survey (t u : Terminal) : Standing × Standing :=
  let found := surveyFrom 4096 [] [[.start t, .start u]] []
  let standing (x : Terminal) : Standing :=
    found.foldl (fun s (y, more) => if y = x then s.join more else s) {}
  (standing t, standing u)

/-- The standings of all tokens: the rivals of each token against which it `clashes`, `yields` and
`overlaps`. -/
structure Standings where
  clashes : Array Nat
  yields : Array Nat
  overlaps : Array Nat

/-- Notes the standing of a token against a rival. -/
def Standings.note (s : Standings) (t rival : Terminal) (a : Standing) : Standings where
  clashes := if a.clashes then s.clashes.modify t.ctorIdx (· ||| rival.bit) else s.clashes
  yields := if a.yields then s.yields.modify t.ctorIdx (· ||| rival.bit) else s.yields
  overlaps := if a.overlaps then s.overlaps.modify t.ctorIdx (· ||| rival.bit) else s.overlaps

/-- The standings of all tokens against each other. -/
def standings : Standings :=
  let tokens := Terminal.all.filter (· ≠ .endOfInput)
  let none := Array.replicate Terminal.count 0
  let pairs := tokens.flatMap fun t => (tokens.filter (·.ctorIdx < t.ctorIdx)).map (t, ·)
  pairs.foldl
    (fun s (t, u) =>
      let (a, b) := survey t u
      (s.note t u a).note u t b)
    ⟨none, none, none⟩

end GoOutline.Token
