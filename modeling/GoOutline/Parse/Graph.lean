import GoOutline.Parse.Tree

/-!
# Stacks that share their lower parts

Several readings of a text are followed at once, and their stacks of trees share what they have in
common.

* `Node`, `Link`, `Graph`: the stack nodes by number; a node may stand on several others.
* `Graph.push`: a new node on top of one.
* `Graph.addLink`: a further way down from a node; ways that say the same are joined.
* `Graph.walk`: follows all ways down from a node.
-/

namespace GoOutline.Parse

/-- A way down from a stack node: the node below and the tree between the two. There is no tree
where the parser began to look for a way on. -/
structure Link where
  below : Nat
  tree : Option Tree
deriving Inhabited

/-- A stack node: the parser is in `state` at `place` of the text. -/
structure Node where
  state : Nat
  links : List Link
  place : Extent
  /-- What the faults on the best way down cost. -/
  cost : Nat
  /-- The most nodes that show on a way down. -/
  shown : Nat
  /-- The weight of the heaviest way down. -/
  dynamic : Int
deriving Inhabited

/-- The stack nodes, by number. -/
abbrev Graph := Array Node

/-- How much a tree adds to the nodes that show. -/
def shownIn (t : Tree) : Nat :=
  t.shownBelow + (if t.shows then 1 else 0) + (if t.isSkipped then 1 else 0)

/-- Whether two links say the same: the same symbol with the same extent, or both with faults. -/
def sameTree : Option Tree → Option Tree → Bool
  | none, none => true
  | some a, some b =>
    a.rank == b.rank
      && ((0 < a.cost && 0 < b.cost)
        || (a.spaceExtent.bytes == b.spaceExtent.bytes && a.textExtent.bytes == b.textExtent.bytes
          && a.children.length == b.children.length && a.isExtra == b.isExtra))
  | _, _ => false

/-- No node has more ways down than this. -/
def maxLinks : Nat := 8

namespace Graph

/-- The node of a number. -/
def node (g : Graph) (n : Nat) : Node := g.getD n default

/-- The graph with one node at the bottom. -/
def bottom (state : Nat) : Graph := #[⟨state, [], {}, 0, 0, 0⟩]

/-- Puts a node on top of another; its number is the former size. -/
def push (g : Graph) (below : Nat) (tree : Option Tree) (state : Nat) : Graph :=
  let b := g.node below
  Array.push g <| match tree with
    | none => { b with state, links := [⟨below, none⟩] }
    | some t =>
      { state
        links := [⟨below, some t⟩]
        place := b.place + t.extent
        cost := b.cost + t.cost
        shown := b.shown + shownIn t
        dynamic := b.dynamic + t.dynamic }

/-- Whether two nodes are in the same state at the same place and the same cost. -/
def alike (g : Graph) (a b : Nat) : Bool :=
  (g.node a).state == (g.node b).state && (g.node a).place.bytes == (g.node b).place.bytes
    && (g.node a).cost == (g.node b).cost

/-- The weight of a link. -/
def weight (g : Graph) (l : Link) : Int :=
  (g.node l.below).dynamic + (l.tree.map Tree.dynamic).getD 0

/-- Adds a way down from node `n`. A way that says the same as another is joined with it: of two
trees over the same node the heavier stays, and two nodes that are alike become one. -/
def addLink : (fuel : Nat) → Graph → Nat → Link → Graph
  | 0, g, _, _ => g
  | fuel + 1, g, n, l =>
    if l.below == n then g
    else
      let old := (g.node n).links
      let match? := old.findIdx? fun k =>
        sameTree k.tree l.tree && (k.below == l.below || g.alike k.below l.below)
      match match?.bind fun i => old[i]?.map (i, ·) with
      | some (i, k) =>
        if k.below == l.below then
          let isHeavier : Bool := match k.tree, l.tree with
            | some a, some b => a.dynamic < b.dynamic
            | _, _ => false
          if isHeavier then
            let dynamic := g.weight l
            Array.modify g n fun x => { x with links := x.links.set i l, dynamic }
          else g
        else
          let g := (g.node l.below).links.foldl (fun g m => addLink fuel g k.below m) g
          let weight := g.weight l
          Array.modify g n fun x => { x with dynamic := max x.dynamic weight }
      | none =>
        if old.length == maxLinks then g
        else
          let weight := g.weight l
          let shown := (g.node l.below).shown + (l.tree.map shownIn).getD 0
          Array.modify g n fun x =>
            { x with
              links := x.links ++ [l]
              shown := max x.shown shown
              dynamic := max x.dynamic weight }

end Graph

/-! ### Walking down -/

/-- One way down, as far as it has been followed. -/
structure Walker where
  node : Nat
  /-- The trees passed, the last one first. -/
  trees : List Tree := []
  /-- How many links were passed, those to trees outside all productions not counted. -/
  depth : Nat := 0

/-- The walker after one link. -/
def Walker.follow (w : Walker) (l : Link) : Walker :=
  match l.tree with
  | none => ⟨l.below, w.trees, w.depth + 1⟩
  | some t => ⟨l.below, t :: w.trees, if t.isExtra then w.depth else w.depth + 1⟩

/-- What to do with a walker: report it, and stop there or go on. -/
structure Verdict where
  reports : Bool := false
  stops : Bool := false

/-- No more than this many ways are followed at once. -/
def maxWalkers : Nat := 64

/-- A round of all walkers: what was reported so far, and the walkers of the next round, all last
first. -/
structure Round (σ : Type) where
  memory : σ
  reported : List Walker
  moved : List Walker
  forked : List Walker
  count : Nat

/-- One walker takes its turn: it is judged and then moves on, and where the ways part, others set
out on the further ones. -/
def Round.turn {σ : Type} (g : Graph) (judge : σ → Walker → σ × Verdict) (r : Round σ)
    (w : Walker) : Round σ :=
  let (memory, verdict) := judge r.memory w
  let reported := if verdict.reports then w :: r.reported else r.reported
  match (g.node w.node).links with
  | [] => { r with memory, reported, count := r.count - 1 }
  | l :: more =>
    if verdict.stops then { r with memory, reported, count := r.count - 1 }
    else
      let new := more.take (maxWalkers - r.count)
      { memory
        reported
        moved := w.follow l :: r.moved
        forked := (new.map w.follow).reverse ++ r.forked
        count := r.count + new.length }

/-- Rounds until no walker is left. -/
def walkRounds {σ : Type} (g : Graph) (judge : σ → Walker → σ × Verdict) :
    (fuel : Nat) → List Walker → σ → List Walker → σ × List Walker
  | 0, _, memory, reported => (memory, reported)
  | _ + 1, [], memory, reported => (memory, reported)
  | fuel + 1, walkers, memory, reported =>
    let r := walkers.foldl (Round.turn g judge) ⟨memory, reported, [], [], walkers.length⟩
    walkRounds g judge fuel (r.moved.reverse ++ r.forked.reverse) r.memory r.reported

/-- Follows all ways down from a node; the reports are in the order in which they were made. -/
def Graph.walk {σ : Type} (g : Graph) (judge : σ → Walker → σ × Verdict) (start : Nat)
    (memory : σ) : σ × List Walker :=
  let (memory, reported) := walkRounds g judge (g.size + 2) [{ node := start }] memory []
  (memory, reported.reverse)

/-- The ways down past `count` links: the nodes reached, each with the trees passed on each way to
it. -/
def Graph.popped (g : Graph) (start count : Nat) : List (Nat × List (List Tree)) :=
  let (_, reported) := g.walk
    (fun (_ : Unit) w => ((), if w.depth == count then ⟨true, true⟩ else {})) start ()
  let nodes := (reported.map (·.node)).eraseDups
  nodes.map fun n => (n, (reported.filter (·.node == n)).map (·.trees))

end GoOutline.Parse
