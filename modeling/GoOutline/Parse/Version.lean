import GoOutline.Automaton.Mode
import GoOutline.Parse.Graph

/-!
# Readings under repair

The readings of a text that are followed at once when it may hold faults, and how they compare.

* `Peek`: the next token as one state sees it.
* `Version`: one reading, by the stack node on top.
* `Engine`: all readings, with the stacks they share and the best tree so far.
* `Engine.merge`: two readings that have come to the same point become one.
* `Preference`, `Rating.compare`: which of two readings is better, by the price of their faults.
-/

namespace GoOutline.Parse

open GoOutline.Grammar GoOutline.Token GoOutline.Automaton

/-- The next token as it was found in some state. -/
structure Peek where
  leaf : Leaf
  /-- The token is spelled like a word, whether or not it is taken for one. -/
  isWord : Bool
  state : Nat
deriving Inhabited

/-- A node that a reading can fall back to: its place, its depth in the stack and its state. -/
structure Landmark where
  place : Extent
  depth : Nat
  state : Nat

/-- What a reading is doing. -/
inductive Status where
  | active
  /-- It cannot go on with the given token. -/
  | paused (look : Peek)
  | halted

/-- One reading of the text. -/
structure Version where
  /-- The node on top of its stack. -/
  top : Nat
  /-- How many nodes showed when it last met a fault. -/
  mark : Nat
  status : Status := .active
  /-- The nodes it can fall back to, once it has met a fault. -/
  landmarks : Option (List Landmark) := none

instance : Inhabited Version := ⟨⟨0, 0, .active, none⟩⟩

/-- Whether the reading goes on. -/
def Version.isActive (v : Version) : Bool := v.status matches .active

/-- Whether the reading has stopped for good. -/
def Version.isHalted (v : Version) : Bool := v.status matches .halted

/-- Whether the reading waits for help. -/
def Version.isPaused (v : Version) : Bool := v.status matches .paused _

/-- All readings of a text. -/
structure Engine where
  graph : Graph
  versions : Array Version
  /-- The best tree of the whole text so far. -/
  finished : Option Tree := none
  /-- How many trees of the whole text were found. -/
  found : Nat := 0
  /-- The last token that was looked at, with its place. -/
  last : Option (Nat × Peek) := none

/-- No more than this many readings are followed at once. -/
def maxVersions : Nat := 6

/-- For a moment there may be this many more. -/
def maxOverflow : Nat := 4

namespace Engine

/-- The engine at the start of a text. -/
def start : Engine := { graph := .bottom 1, versions := #[{ top := 0, mark := 0 }] }

/-- The reading of a number. -/
def version (e : Engine) (v : Nat) : Version := e.versions.getD v default

/-- The node on top of a reading's stack. -/
def top (e : Engine) (v : Nat) : Node := e.graph.node (e.version v).top

/-- The state a reading is in. -/
def state (e : Engine) (v : Nat) : Nat := (e.top v).state

/-- Changes one reading. -/
def update (e : Engine) (v : Nat) (f : Version → Version) : Engine :=
  { e with versions := e.versions.modify v f }

/-- Removes a reading. -/
def drop (e : Engine) (v : Nat) : Engine := { e with versions := e.versions.eraseIdxIfInBounds v }

/-- Stops a reading for good. -/
def halt (e : Engine) (v : Nat) : Engine := e.update v fun x => { x with status := .halted }

/-- Puts a tree on the stack of a reading. -/
def push (e : Engine) (v : Nat) (tree : Tree) (state : Nat) : Engine :=
  let top := (e.version v).top
  let new := e.graph.size
  { e with
    graph := e.graph.push top (some tree) state
    versions := e.versions.modify v fun x => { x with top := new } }

/-- Puts several trees on the stack of a reading. -/
def pushAll (e : Engine) (v : Nat) (trees : List Tree) (state : Nat) : Engine :=
  trees.foldl (fun e t => e.push v t state) e

/-- Marks on the stack of a reading that it looks for a way on. -/
def pushGap (e : Engine) (v : Nat) : Engine :=
  let top := (e.version v).top
  let new := e.graph.size
  let shown := (e.top v).shown
  { e with
    graph := e.graph.push top none 0
    versions := e.versions.modify v fun x => { x with top := new, mark := shown } }

/-- Adds a reading that begins as another with a different top. -/
def fork (e : Engine) (v top : Nat) : Engine :=
  let mark := (e.version v).mark
  { e with versions := e.versions.push { top, mark } }

/-- Puts a reading in the place of another; what the other can fall back to is kept. -/
def replace (e : Engine) (v old : Nat) : Engine :=
  if v == old then e
  else
    let new := e.version v
    let landmarks := new.landmarks <|> (e.version old).landmarks
    (e.update old fun _ => { new with landmarks }).drop v

/-- Whether two readings have come to the same point. -/
def canMerge (e : Engine) (a b : Nat) : Bool :=
  (e.version a).isActive && (e.version b).isActive
    && e.graph.alike (e.version a).top (e.version b).top

/-- Makes one reading of two that have come to the same point. -/
def merge (e : Engine) (a b : Nat) : Engine :=
  let top := (e.version a).top
  let graph := (e.top b).links.foldl (fun g l => g.addLink g.size top l) e.graph
  let e := { e with graph }
  let e := if e.state a == 0 then
      let shown := (e.top a).shown
      e.update a fun x => { x with mark := shown }
    else e
  e.drop b

/-- The first reading before `b`, other than `skip`, that has come to the same point as `b`. -/
def meeting? (e : Engine) (from_ b : Nat) (skip : Option Nat) : Option Nat :=
  ((List.range b).drop from_).find? fun a => some a != skip && e.canMerge a b

/-! ### Ratings -/

/-- What the faults of a reading cost, an open one included. -/
def cost (e : Engine) (v : Nat) : Nat :=
  let top := e.top v
  let isOpen := (e.version v).isPaused
    || (top.state == 0 && top.links.head?.any (·.tree.isNone))
  top.cost + if isOpen then Tree.costOfFault else 0

/-- Lowers the mark of a reading if fewer nodes show than at its last fault. -/
def lowerMark (e : Engine) (v : Nat) : Engine :=
  let shown := (e.top v).shown
  e.update v fun x => { x with mark := min x.mark shown }

/-- How many nodes show that did not at the last fault. -/
def progress (e : Engine) (v : Nat) : Nat := (e.top v).shown - (e.version v).mark

end Engine

/-- What counts when readings are compared. -/
structure Rating where
  cost : Nat
  progress : Nat
  dynamic : Int
  isFaulty : Bool

/-- Which of two readings is better, and whether by so much that the other is given up. -/
inductive Preference where
  | takeLeft | preferLeft | none | preferRight | takeRight
deriving DecidableEq

/-- A difference in cost counts the more, the further the better reading has come since. -/
def maxCostDifference : Nat := 1800

/-- Compares two readings: one without an open fault is better, then the one whose faults cost
less, then the heavier one. -/
def Rating.compare (a b : Rating) : Preference :=
  if !a.isFaulty && b.isFaulty then
    if a.cost < b.cost then .takeLeft else .preferLeft
  else if a.isFaulty && !b.isFaulty then
    if b.cost < a.cost then .takeRight else .preferRight
  else if a.cost < b.cost then
    if maxCostDifference < (b.cost - a.cost) * (1 + a.progress) then .takeLeft else .preferLeft
  else if b.cost < a.cost then
    if maxCostDifference < (a.cost - b.cost) * (1 + b.progress) then .takeRight else .preferRight
  else if b.dynamic < a.dynamic then .preferLeft
  else if a.dynamic < b.dynamic then .preferRight
  else .none

namespace Engine

/-- The rating of a reading. -/
def rating (e : Engine) (v : Nat) : Rating where
  cost := e.cost v + if (e.version v).isPaused then Tree.costOfNode else 0
  progress := e.progress v
  dynamic := (e.top v).dynamic
  isFaulty := (e.version v).isPaused || e.state v == 0

/-- Whether another reading is better than `v` would be with the given cost. -/
def hasBetter (e : Engine) (v cost : Nat) : Bool × Engine :=
  if e.finished.any fun t => t.cost ≤ cost then (true, e)
  else
    let e := e.lowerMark v
    let place := (e.top v).place.bytes
    let mine : Rating := ⟨cost, e.progress v, (e.top v).dynamic, false⟩
    (List.range e.versions.size).foldl
      (fun (isFound, e) i =>
        if isFound || i == v || !(e.version i).isActive || (e.top i).place.bytes < place then
          (isFound, e)
        else
          let e := e.lowerMark i
          match mine.compare (e.rating i) with
          | .takeRight => (true, e)
          | .preferRight => (e.canMerge i v, e)
          | _ => (false, e))
      (false, e)

end Engine

end GoOutline.Parse
