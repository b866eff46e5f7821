import GoOutline.Parse.Version

/-!
# Reading with repair

A reading of any text, by the parse table. Where the text does not fit the grammar, the reading
goes on in the cheapest way it can find: by adding a token that is missing, by skipping text, or by
going back to an earlier state.

* `Source`: a text with direct access to what follows each place.
* `Source.peek`: the next token as a state sees it.
* `Engine.reduce`, `Engine.accept`, `Engine.advance`: what the table says.
* `Engine.handleFault`, `Engine.recover`: what is tried where the table says nothing.
* `Engine.condense`: keeps the best readings.
* `repair`: the tree of any text.
-/

namespace GoOutline.Parse

open GoOutline.Grammar GoOutline.Token GoOutline.Automaton

/-! ### Looking ahead -/

/-- A text: what follows each place, by number of characters before it. -/
abbrev Source := Array (List Char)

/-- The suffixes of a text, the whole text first. -/
def suffixes : List Char → List (List Char)
  | [] => [[]]
  | c :: cs => (c :: cs) :: suffixes cs

/-- A text with direct access to each place. -/
def Source.of (text : List Char) : Source := (suffixes text).toArray

/-- The text from a place on. -/
def Source.rest (s : Source) (place : Nat) : List Char := s.getD place []

/-- Scans from a place on; an encoding mark at the start counts as white space. -/
def Source.scan (s : Source) (wanted place : Nat) : Outcome :=
  match place, s.rest place with
  | 0, c :: text =>
    if c = byteOrderMark then
      let o := Token.scan wanted text
      { found := o.found.map fun f => { f with space := c :: f.space }
        reached := { o.reached with space := o.reached.space ++ [c] } }
    else Token.scan wanted (c :: text)
  | _, text => Token.scan wanted text

/-- The characters up to the next place where a token can be read. -/
def garbled (wanted : Nat) : (fuel : Nat) → List Char → List Char
  | 0, _ => []
  | fuel + 1, text =>
    let o := Token.scan wanted text
    match o.found, o.reached.space.length + o.reached.text.length, text with
    | some _, _, _ => []
    | none, 0, [] => []
    | none, 0, c :: text => c :: garbled wanted fuel text
    | none, n, text => text.take n ++ garbled wanted fuel (text.drop n)

/-- The tokens that the scanner looks for in a state. -/
def modeOf (state : Nat) : Nat := table.modes.getD (table.modeOf.getD state 0) 0

/-- What a state does on a token. -/
def actsOn (state : Nat) (t : Option Terminal) : List Act :=
  match t with
  | none => []
  | some t => (table.rows.getD state .empty).on t

/-- Whether a state keeps the reserved words apart from identifiers. -/
def keepsWords (state : Nat) : Bool := state != 0 && !(actsOn state (some .identifier)).isEmpty

/-- A scanned token as a state sees it. -/
def peekOf (state : Nat) (s : Scanned) : Peek :=
  match s.token, word? s.text with
  | .identifier, some w =>
    let isTaken := !(actsOn state (some w)).isEmpty || (keepsWords state && w.isReserved)
    ⟨Tree.leafOf (some (if isTaken then w else .identifier)) s.space s.text, true, state⟩
  | t, _ => ⟨Tree.leafOf (some t) s.space s.text, false, state⟩

/-- The next token as a state sees it; if there is none, the next token at all; and if there is
none either, the characters that form no token. -/
def Source.peek (s : Source) (state place : Nat) : Peek :=
  match (s.scan (modeOf state) place).found with
  | some f => peekOf state f
  | none =>
    let o := s.scan (modeOf 0) place
    match o.found with
    | some f => peekOf state f
    | none =>
      let space := o.reached.space.reverse
      let read := o.reached.text.reverse
      let after := s.rest (place + space.length + read.length)
      let (read, after) := match read, after with
        | [], c :: cs => ([c], cs)
        | _, _ => (read, after)
      let text := if read.isEmpty then [] else read ++ garbled (modeOf 0) after.length after
      ⟨Tree.leafOf none space text, false, state⟩

/-- Where a state leads by a symbol; `0` if nowhere. -/
def nextState (state : Nat) (t : Terminal) : Nat :=
  match (actsOn state (some t)).getLast? with
  | some (.shift target _) => target
  | some .stay => state
  | _ => 0

/-! ### Choosing between trees -/

/-- Compares the symbols and numbers of children of trees, from the first on. -/
def compareTrees : (fuel : Nat) → List (Tree × Tree) → Ordering
  | 0, _ => .eq
  | _ + 1, [] => .eq
  | fuel + 1, (a, b) :: more =>
    (compare a.rank b.rank).then <| (compare a.children.length b.children.length).then <|
      compareTrees fuel (a.children.zip b.children ++ more)

/-- Whether the second of two trees is better: its faults cost less, or it is heavier; between
trees with faults the later one, and between others the one that comes first in order. -/
def prefersSecond (a b : Tree) : Bool :=
  if b.cost < a.cost then true
  else if a.cost < b.cost then false
  else if a.dynamic < b.dynamic then true
  else if b.dynamic < a.dynamic then false
  else if 0 < a.cost then true
  else compareTrees (a.extent.chars * 64 + 4096) [(a, b)] == .gt

/-- Splits off the trees at the end that belong to no production. -/
def splitExtras (trees : List Tree) : List Tree × List Tree :=
  let extras := (trees.reverse.takeWhile Tree.isExtra).reverse
  (trees.take (trees.length - extras.length), extras)

namespace Engine

/-! ### Building nodes -/

/-- The best node over one of several lists of children, with the extra trees after it. -/
def bestNode (lhs : Nat) (dynamic : Int) (labels : List Label) (ways : List (List Tree)) :
    Option (Tree × List Tree) :=
  ways.foldl
    (fun best trees =>
      let (children, extras) := splitExtras trees
      let new := Tree.branchOf (.nonterminal lhs) labels dynamic children
      match best with
      | none => some (new, extras)
      | some (old, _) => if prefersSecond old new then some (new, extras) else best)
    none

/-- Builds a nonterminal from the last `count` trees of reading `v`. Every node that this uncovers
gives a new reading, unless it meets another one. Says whether there are new readings. -/
def reduce (e : Engine) (v lhs count : Nat) (dynamic : Int) (labels : List Label) :
    Bool × Engine :=
  let before := e.versions.size
  let halted := (e.versions.filter Version.isHalted).size
  let e := (e.graph.popped (e.version v).top count).foldl
    (fun e (top, ways) =>
      match bestNode lhs dynamic labels ways with
      | none => e
      | some (parent, extras) =>
        let new := e.versions.size
        if maxVersions + maxOverflow + halted < new then e
        else
          let e := e.fork v top
          let target := (table.rows.getD (e.state new) .empty).after lhs
          let e := (e.push new parent target).pushAll new extras target
          match e.meeting? 0 new (some v) with
          | some old => e.merge old new
          | none => e)
    e
  (before < e.versions.size, e)

/-- The trees of a whole text: all ways down to the bottom. -/
def wholeTrees (e : Engine) (v : Nat) : List (List Tree) :=
  let (_, reported) := e.graph.walk
    (fun (_ : Unit) w =>
      ((), if (e.graph.node w.node).links.isEmpty then ⟨true, true⟩ else {})) (e.version v).top ()
  reported.map (·.trees)

/-- One tree of a whole text: the last tree that is not extra, with all others as its children. -/
def rootOf (trees : List Tree) : Option Tree :=
  let (main, after) := splitExtras trees
  match main.getLast? with
  | some (.node b children) =>
    some (Tree.branchOf b.head b.labels 0 (main.dropLast ++ children ++ after))
  | some (.leaf l) => some (.leaf l)
  | none => none

/-- Reading `v` has come to the end of the text. -/
def accept (e : Engine) (v : Nat) (look : Peek) : Engine :=
  let e := e.push v (.leaf look.leaf) 1
  let e := (e.wholeTrees v).foldl
    (fun e trees =>
      match rootOf trees with
      | none => e
      | some root =>
        let isBetter := e.finished.all fun old => prefersSecond old root
        { e with
          found := e.found + 1
          finished := if isBetter then some root else e.finished })
    e
  e.halt v

/-! ### Readings that could be finished -/

/-- The tokens in the order in which they are tried: the identifier first. -/
def triedTokens : List Terminal :=
  .identifier :: Terminal.all.filter fun t => t ≠ .identifier && t ≠ .endOfInput

/-- What a state can build on any of the tokens: the acts, each nonterminal and length once, and
whether it can also take one of them. -/
def buildable (state : Nat) (tokens : List (Option Terminal)) : List Act × Bool :=
  tokens.foldl
    (fun (found, takes) t =>
      (actsOn state t).foldl
        (fun (found, takes) a =>
          match a with
          | .shift _ isIdle => (found, takes || !isIdle)
          | .recover => (found, true)
          | .reduce lhs count _ _ =>
            let isKnown := found.any fun
              | .reduce l c _ _ => l == lhs && c == count
              | _ => false
            if count == 0 || isKnown then (found, takes) else (found ++ [a], takes)
          | _ => (found, takes))
        (found, takes))
    ([], false)

/-- Carries out several reductions of a reading; says at which reading the last new ones begin. -/
def reduceAll (e : Engine) (v : Nat) (acts : List Act) : Option Nat × Engine :=
  acts.foldl
    (fun (last, e) a =>
      match a with
      | .reduce lhs count dynamic labels =>
        let new := e.versions.size
        let (isNew, e) := e.reduce v lhs count dynamic labels
        (if isNew then some new else none, e)
      | _ => (last, e))
    (none, e)

/-- Builds in reading `start`, and in all that come from it, whatever can be built before one of
the tokens, or before any token. Says whether one of them can then take a token. -/
def buildAhead (tokens : Option (Option Terminal)) (start first : Nat) :
    (fuel : Nat) → (round v : Nat) → (takes : Bool) → Engine → Bool × Engine
  | 0, _, _, takes, e => (takes, e)
  | fuel + 1, round, v, takes, e =>
    let size := e.versions.size
    if size ≤ v then (takes, e)
    else
      match e.meeting? first v none with
      | some old => buildAhead tokens start first fuel (round + 1) v takes (e.merge old v)
      | none =>
        let sought := match tokens with
          | some t => [t]
          | none => triedTokens.map some
        let (acts, canTake) := buildable (e.state v) sought
        let (new?, e) := e.reduceAll v acts
        let next := if v == start then size else v + 1
        if canTake then buildAhead tokens start first fuel (round + 1) next true e
        else
          match new?, decide (round < maxVersions) with
          | some new, true =>
            buildAhead tokens start first fuel (round + 1) v takes (e.replace new v)
          | _, _ =>
            buildAhead tokens start first fuel (round + 1) next takes
              (if tokens.isSome then e.drop v else e)

/-- `buildAhead` from one reading on; `none` stands for any token. -/
def tryReductions (e : Engine) (v : Nat) (tokens : Option (Option Terminal)) : Bool × Engine :=
  buildAhead tokens v e.versions.size 4096 0 v false e

/-! ### Finding a way on -/

/-- How deep in the stack landmarks are looked for. -/
def maxDepth : Nat := 16

/-- The nodes below reading `v`, each depth and state once. -/
def landmarks (e : Engine) (v : Nat) : List Landmark :=
  let judge (found : List Landmark) (w : Walker) : List Landmark × Verdict :=
    let node := e.graph.node w.node
    if maxDepth < w.depth then (found, { stops := true })
    else
      let isKnown := (found.takeWhile fun l => w.depth ≤ l.depth).any fun l =>
        l.depth == w.depth && l.state == node.state
      (if isKnown then found else ⟨node.place, w.depth, node.state⟩ :: found, {})
  (e.graph.walk judge (e.version v).top []).1.reverse

/-- Takes a fault off the top of a reading's stack: its children, if there is one. -/
def popFault (e : Engine) (v : Nat) : List Tree × Engine :=
  let judge (isFound : Bool) (w : Walker) : Bool × Verdict :=
    match w.trees with
    | [] => (isFound, {})
    | t :: _ =>
      if !isFound && t.isFault then (true, ⟨true, true⟩) else (isFound, { stops := true })
  if (e.top v).links.any fun l => l.tree.any Tree.isFault then
    match (e.graph.walk judge (e.version v).top false).2 with
    | [] => ([], e)
    | w :: _ =>
      let new := e.versions.size
      ((w.trees.flatMap Tree.children), (e.fork v w.node).replace new v)
  else ([], e)

/-- Takes reading `v` back to a state below: what is above becomes a fault. The readings that this
gives are added; says whether there is one in the right state. -/
def fallBack (e : Engine) (v depth goal : Nat) : Bool × Engine :=
  (e.graph.popped (e.version v).top depth).foldl
    (fun (isDone, e) (top, ways) =>
      let new := e.versions.size
      let e := e.fork v top
      if e.state new != goal then (isDone, e.halt new)
      else
        let (earlier, e) := e.popFault new
        let trees := match ways with
          | [] => earlier
          | way :: _ => earlier ++ way
        let (children, extras) := splitExtras trees
        let e := match children with
          | [] => e
          | _ =>
            match Tree.branchOf .fault [] 0 children with
            | .node b cs => e.push new (.node { b with isExtra := true } cs) goal
            | t => e.push new t goal
        (true, e.pushAll new extras goal))
    (false, e)

/-- Looks for a landmark whose state can take the token, and goes back there. A landmark is passed
over if some reading is already there, and the search ends when going back costs too much. -/
def fallBackTo (v cost progress : Nat) (look : Peek) (count : Nat) :
    List Landmark → Engine → Bool × Engine
  | [], e => (false, e)
  | l :: more, e =>
    let place := (e.top v).place
    let isTaken := (List.range count).any fun i =>
      e.state i == l.state && (e.top i).place.bytes == place.bytes
    if l.state == 0 || l.place.bytes == place.bytes || isTaken then
      fallBackTo v cost progress look count more e
    else
      let price := cost + l.depth * Tree.costOfNode + (place.bytes - l.place.bytes)
        + (place.lines - l.place.lines) * Tree.costOfLine
      let (isWorse, e) := e.hasBetter v price
      if isWorse then (false, e)
      else if (actsOn l.state look.leaf.token).isEmpty then
        fallBackTo v cost progress look count more e
      else
        let depth := if 0 < progress then l.depth + 1 else l.depth
        match e.fallBack v depth l.state with
        | (true, e) => (true, e)
        | (false, e) => fallBackTo v cost progress look count more e

/-- Drops the readings from `first` on that do not go on. -/
def dropIdle (e : Engine) (first : Nat) : Engine :=
  { e with
    versions := e.versions.extract 0 first
      ++ (e.versions.extract first e.versions.size).filter Version.isActive }

/-- Skips the token: it joins the skipped text on top of the stack. -/
def skip (e : Engine) (v progress : Nat) (look : Peek) : Engine :=
  let leaf := if look.leaf.token == some .comment then { look.leaf with isExtra := true }
    else look.leaf
  let skipped := Tree.branchOf .skipped [] 0 [.leaf leaf]
  if progress == 0 then e.push v skipped 0
  else
    match e.graph.popped (e.version v).top 1 with
    | (top, way :: _) :: _ =>
      let new := e.versions.size
      let e := (e.fork v top).replace new v
      e.push v (Tree.branchOf .skipped [] 0 (way ++ [skipped])) 0
    | _ => e.push v skipped 0

/-- Reading `v` looks for a way on with the token: back to a landmark, or past the token. At the end
of the text all that is left becomes a fault. -/
def recover (e : Engine) (v : Nat) (look : Peek) : Engine :=
  let count := e.versions.size
  let e := e.lowerMark v
  let progress := e.progress v
  let cost := e.cost v
  let (isBack, e) := match (e.version v).landmarks, look.leaf.token with
    | some marks, some _ => fallBackTo v cost progress look count marks e
    | _, _ => (false, e)
  let e := e.dropIdle count
  if look.leaf.token == some .endOfInput then
    (e.push v (Tree.branchOf .fault [] 0 []) 1).accept v look
  else if isBack && maxVersions < e.versions.size then e.halt v
  else
    let extent := look.leaf.spaceExtent + look.leaf.textExtent
    let (isWorse, e) := e.hasBetter v (cost + Tree.costOfNode + Tree.costOfText extent)
    if isWorse then e.halt v else e.skip v progress look

/-- Tries to put a missing token before the next one: the first that lets something be built. -/
def addMissing (e : Engine) (v : Nat) (look : Peek) : List Terminal → Bool × Engine
  | [] => (false, e)
  | t :: more =>
    let state := e.state v
    let target := nextState state t
    let builds := (actsOn target look.leaf.token).head? matches some (.reduce ..)
    if target == 0 || target == state || !builds then addMissing e v look more
    else
      let new := e.versions.size
      let e := (e.fork v (e.version v).top).push new (Tree.missing t) target
      let sought := if look.leaf.token == some .endOfInput then none else some look.leaf.token
      match e.tryReductions new sought with
      | (true, e) => (true, e)
      | (false, e) => addMissing e v look more

/-- Opens a gap in reading `v` and in those from `first` on, after trying once to add a token that
is missing. -/
def openGaps (v first last : Nat) (look : Peek) :
    (fuel : Nat) → (x : Nat) → (isMended : Bool) → Engine → Engine
  | 0, _, _, e => e
  | fuel + 1, x, isMended, e =>
    if last ≤ x then e
    else
      let (isMended, e) := if isMended then (true, e) else e.addMissing x look triedTokens
      openGaps v first last look fuel (if x == v then first else x + 1) isMended (e.pushGap x)

/-- Merges reading `first` into `v`, `count` times. -/
def mergeBack (v first : Nat) : (count : Nat) → Engine → Engine
  | 0, e => e
  | count + 1, e => mergeBack v first count (if e.canMerge v first then e.merge v first else e)

/-- Reading `v` cannot go on with the token: everything that can be built is built, a missing token
is tried, and then a way on is looked for. -/
def handleFault (e : Engine) (v : Nat) (look : Peek) : Engine :=
  let first := e.versions.size
  let e := (e.tryReductions v none).2
  let last := e.versions.size
  let e := openGaps v first last look (last + 1) v false e
  let e := mergeBack v first (last - first) e
  let found := e.landmarks v
  (e.update v fun x => { x with landmarks := some found }).recover v look

/-! ### Going on -/

/-- Whether the token looked at last will also do in another state. -/
def isReusable (look : Peek) (state : Nat) : Bool :=
  look.leaf.token.isSome
    && !(actsOn state look.leaf.token).isEmpty
    && table.modeOf.getD look.state 0 == table.modeOf.getD state 0
    && keepsWords look.state == keepsWords state
    && (look.leaf.token != some .identifier || (!look.isWord && look.state == state))

/-- The next token of a reading. -/
def peek (s : Source) (e : Engine) (v : Nat) : Peek × Engine :=
  let top := e.top v
  let known := e.last.bind fun (place, look) =>
    if place == top.place.chars && isReusable look top.state then some look else none
  match known with
  | some look => (look, e)
  | none =>
    let look := s.peek top.state top.place.chars
    (look, { e with last := some (top.place.chars, look) })

/-- What the acts on a token come to. -/
inductive Progress where
  /-- The token was dealt with. -/
  | done
  /-- Something was built, beginning with the given reading. -/
  | built (v : Nat)
  | nothing

/-- Carries out acts of a reading until one of them deals with the token. -/
def carryOut (e : Engine) (v : Nat) (look : Peek) (sofar : Progress) :
    List Act → Progress × Engine
  | [] => (sofar, e)
  | .shift target isIdle :: more =>
    if isIdle then carryOut e v look sofar more
    else (.done, e.push v (.leaf { look.leaf with isExtra := false }) target)
  | .stay :: _ => (.done, e.push v (.leaf { look.leaf with isExtra := true }) (e.state v))
  | .reduce lhs count dynamic labels :: more =>
    let new := e.versions.size
    let (isNew, e) := e.reduce v lhs count dynamic labels
    carryOut e v look (if isNew then .built new else sofar) more
  | .accept :: _ => (.done, e.accept v look)
  | .recover :: _ => (.done, e.recover v look)

/-- Goes on with a token until it is dealt with. A word that is not reserved counts as an identifier
where nothing else is to be done with it. -/
def goOn (v : Nat) : (fuel : Nat) → Peek → List Act → Engine → Engine
  | 0, _, _, e => e.halt v
  | fuel + 1, look, acts, e =>
    match e.carryOut v look .nothing acts with
    | (.done, e) => e
    | (.built new, e) =>
      let e := e.replace new v
      goOn v fuel look (actsOn (e.state v) look.leaf.token) e
    | (.nothing, e) =>
      let state := e.state v
      let asIdentifier := actsOn state (some .identifier)
      let isKept := match look.leaf.token with
        | some t => t == .identifier || (keepsWords state && t.isReserved)
        | none => true
      if look.isWord && !isKept && !asIdentifier.isEmpty then
        goOn v fuel { look with leaf := { look.leaf with token := some .identifier } }
          asIdentifier e
      else
        let shown := (e.top v).shown
        e.update v fun x => { x with status := .paused look, mark := shown }

/-- Takes reading `v` past the next token. -/
def advance (s : Source) (e : Engine) (v : Nat) : Engine :=
  let (look, e) := e.peek s v
  goOn v (64 * (e.graph.size + 16)) look (actsOn (e.state v) look.leaf.token) e

/-! ### Keeping the best readings -/

/-- Compares reading `i` with those from `j` to `i`. Of two readings the worse is dropped, or moved
back. Says where `i` has moved to. -/
def compareWith (mine : Rating) : (fuel : Nat) → (i j : Nat) → Engine → Nat × Engine
  | 0, i, _, e => (i + 1, e)
  | fuel + 1, i, j, e =>
    if i ≤ j then (i + 1, e)
    else
      let e := e.lowerMark j
      match (e.rating j).compare mine with
      | .takeLeft => (i, e.drop i)
      | .takeRight => compareWith mine fuel (i - 1) j (e.drop j)
      | p =>
        if e.canMerge j i then (i, e.merge j i)
        else if p = .preferRight then
          let a := e.version i
          let b := e.version j
          compareWith mine fuel i (j + 1) ((e.update i fun _ => b).update j fun _ => a)
        else compareWith mine fuel i (j + 1) e

/-- Compares all readings from `i` on with those before them. Also finds the least cost of a reading
without an open fault. -/
def compareFrom : (fuel : Nat) → (i : Nat) → (least : Option Nat) → Engine → Option Nat × Engine
  | 0, _, least, e => (least, e)
  | fuel + 1, i, least, e =>
    if e.versions.size ≤ i then (least, e)
    else if (e.version i).isHalted then compareFrom fuel i least (e.drop i)
    else
      let e := e.lowerMark i
      let mine := e.rating i
      let least := if mine.isFaulty then least
        else some (least.elim mine.cost (min · mine.cost))
      let (next, e) := compareWith mine (e.versions.size + 1) i 0 e
      compareFrom fuel next least e

/-- Helps the first reading that waits, unless another one goes on, and drops the rest of those that
wait. -/
def resume (count : Nat) : (fuel : Nat) → (i dropped : Nat) → (goesOn : Bool) → Option Nat → Engine →
    Option Nat × Engine
  | 0, _, _, _, least, e => (least, e)
  | fuel + 1, i, dropped, goesOn, least, e =>
    if count ≤ i + dropped then (least, e)
    else
      match (e.version i).status with
      | .paused look =>
        if !goesOn && e.found < maxVersions then
          let least := e.cost i
          let e := (e.update i fun x => { x with status := .active }).handleFault i look
          resume count fuel (i + 1) dropped true (some least) e
        else resume count fuel i (dropped + 1) goesOn least (e.drop i)
      | _ => resume count fuel (i + 1) dropped true least e

/-- Keeps the best readings and helps one that waits. Gives the least cost of a reading. -/
def condense (e : Engine) : Option Nat × Engine :=
  let size := e.versions.size
  let (least, e) := compareFrom (4 * (size + 4)) 0 none e
  let e := { e with versions := e.versions.extract 0 maxVersions }
  resume e.versions.size (e.versions.size + 1) 0 0 false least e

/-! ### The whole text -/

/-- Advances one reading until it is ahead of the place that others have come to. -/
def advanceOne (s : Source) (v : Nat) : (fuel : Nat) → (ahead : Nat) → Engine → Nat × Engine
  | 0, ahead, e => (ahead, e)
  | fuel + 1, ahead, e =>
    if (e.version v).isActive then
      let e := e.advance s v
      let place := (e.top v).place.bytes
      if ahead < place || (0 < v && place == ahead) then (place, e)
      else advanceOne s v fuel ahead e
    else (ahead, e)

/-- Advances all readings from `v` on. -/
def advanceAll (s : Source) : (fuel : Nat) → (v ahead : Nat) → Engine → Nat × Engine
  | 0, _, ahead, e => (ahead, e)
  | fuel + 1, v, ahead, e =>
    if v < e.versions.size then
      let (ahead, e) := advanceOne s v (s.size + 16) ahead e
      advanceAll s fuel (v + 1) ahead e
    else (ahead, e)

/-- Advances all readings in turn until the best tree is found. -/
def run (s : Source) : (fuel : Nat) → (ahead : Nat) → Engine → Option Tree
  | 0, _, e => e.finished
  | fuel + 1, ahead, e =>
    let (ahead, e) := advanceAll s 64 0 ahead e
    let (least, e) := e.condense
    let isDone := e.finished.any fun t => least.all (t.cost < ·)
    if isDone || e.versions.isEmpty then e.finished else run s fuel ahead e

end Engine

/-- The tree of any text, repaired where it does not fit the grammar. -/
def repair (text : List Char) : Option Tree :=
  Engine.run (.of text) (64 * (text.length + 64)) 0 .start

end GoOutline.Parse
