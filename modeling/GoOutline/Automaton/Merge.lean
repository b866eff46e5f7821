import GoOutline.Automaton.Canonical
import GoOutline.Token.Rivalry

/-!
# Merging states

The full table has many states that differ only in what may follow. Those that agree wherever both
have an entry are merged.

* `Groups`: a division of the states into groups; it starts from states with the same items.
* `Groups.split`: divides groups until no two states in a group differ in a given way.
* `merged`: one row for each group.
* `compact`: the rows without states that only pass on, and without those that nothing leads to,
  the fullest rows first.

A merged state may find out later than the full table that a token does not fit, and that shows in
the way a faulty text is repaired.
-/

namespace GoOutline.Automaton

open GoOutline.Grammar GoOutline.Token

/-! ### Groups -/

/-- A division of the states into groups. -/
structure Groups where
  /-- The states of each group. -/
  members : Array (List Nat)
  /-- The group of each state. -/
  groupOf : Array Nat

/-- Divides some states: from the first on, each keeps those that do not clash with it. The ones
that are cast out follow in the order in which that happens. -/
def divide (clash : Nat → Nat → Bool) : (fuel : Nat) → List Nat → List Nat × List Nat
  | 0, states => (states, [])
  | _ + 1, [] => ([], [])
  | fuel + 1, s :: more =>
    let (out, stay) := more.partition (clash s)
    let (kept, later) := divide clash fuel stay
    (s :: kept, out ++ later)

namespace Groups

/-- Divides one group; the states cast out form a new one. -/
def splitOne (clash : Groups → Nat → Nat → Bool) (p : Groups) (g : Nat) : Groups :=
  let states := p.members.getD g []
  let (kept, out) := divide (clash p) states.length states
  if out.isEmpty then p
  else
    let new := p.members.size
    { members := (p.members.setIfInBounds g kept).push out
      groupOf := out.foldl (fun table s => table.setIfInBounds s new) p.groupOf }

/-- Divides all groups from `g` on, the new ones included. -/
def splitFrom (clash : Groups → Nat → Nat → Bool) : (fuel : Nat) → (g : Nat) → Groups → Groups
  | 0, _, p => p
  | fuel + 1, g, p =>
    if g < p.members.size then splitFrom clash fuel (g + 1) (p.splitOne clash g) else p

/-- Divides all groups once. -/
def split (clash : Groups → Nat → Nat → Bool) (p : Groups) : Groups :=
  p.splitFrom clash p.groupOf.size 0

/-- Divides all groups until nothing changes. -/
def splitAll (clash : Groups → Nat → Nat → Bool) : (fuel : Nat) → Groups → Groups
  | 0, p => p
  | fuel + 1, p =>
    let q := p.split clash
    if q.members.size == p.members.size then p else q.splitAll clash fuel

end Groups

/-- The states with the same items are in one group. -/
def byCore : Groups :=
  let (groups, _) := canonical.states.foldl
    (fun ((p : Groups), (numbers : Std.HashMap (List Nat) Nat)) s =>
      let core := coreOf s
      let state := p.groupOf.size
      match numbers[core]? with
      | some g => (⟨p.members.modify g (state :: ·), p.groupOf.push g⟩, numbers)
      | none =>
        let g := p.members.size
        (⟨p.members.push [state], p.groupOf.push g⟩, numbers.insert core g))
    (⟨#[], #[]⟩, ∅)
  { groups with members := groups.members.map List.reverse }

/-! ### States that differ -/

/-- For each token, those that a scanner had better not look for at the same time. A word is read
as an identifier first, so the two are never in each other's way. -/
def clashes : Array Nat :=
  (Terminal.all.map fun t =>
    let rivals := standings.clashes.getD t.ctorIdx 0
    if t = .identifier then rivals &&& (rivals ^^^ wordSet)
    else if t.isWord then rivals &&& (rivals ^^^ Terminal.identifier.bit)
    else rivals).toArray

/-- The tokens of each state. -/
def tokenSets : Array Nat := canonical.rows.map Row.tokens

/-- Whether two acts are the same but for states of one group. -/
def sameActs (p : Groups) : List Act → List Act → Bool
  | [], [] => true
  | .shift a i :: xs, .shift b j :: ys =>
    p.groupOf.getD a 0 == p.groupOf.getD b 0 && i == j && sameActs p xs ys
  | x :: xs, y :: ys => x == y && sameActs p xs ys
  | _, _ => false

/-- Whether two states act differently on some token, or one of them acts on a token that is in the
way of the other's. -/
def actDifferently (p : Groups) (a b : Nat) : Bool :=
  let x := canonical.rows.getD a .empty
  let y := canonical.rows.getD b .empty
  (List.range Terminal.count).any fun k =>
    match x.acts.getD k [], y.acts.getD k [] with
    | [], [] => false
    | _, [] => clashes.getD k 0 &&& tokenSets.getD b 0 != 0
    | [], _ => clashes.getD k 0 &&& tokenSets.getD a 0 != 0
    | xs, ys => !sameActs p xs ys

/-- Whether two states lead to different groups by the same symbol. -/
def leadApart (p : Groups) (a b : Nat) : Bool :=
  let x := canonical.rows.getD a .empty
  let y := canonical.rows.getD b .empty
  let differ (i j : Nat) : Bool := p.groupOf.getD i 0 != p.groupOf.getD j 0
  (Terminal.all.any fun t =>
    match x.target? t, y.target? t with
    | some i, some j => differ i j
    | _, _ => false)
  || (List.range nonterminalCount).any fun n =>
    x.after n != 0 && y.after n != 0 && differ (x.after n) (y.after n)

/-- The groups of states that can be merged. -/
def mergeable : Groups :=
  (byCore.split actDifferently).splitAll leadApart canonical.states.size

/-- What the parser does while it looks for a way on: it reads any token, except line breaks and
the inner text of strings, which could be read almost anywhere. -/
def recovery : Row :=
  { Row.empty with
    acts := (Terminal.all.map fun t =>
      if t = .lineBreak || t = .rawText || t = .quotedText then [] else [.recover]).toArray }

/-- One row for each group. -/
def merged : Array Row :=
  let p := mergeable
  let rows := p.members.map fun states =>
    (states.foldl (fun row s => Row.union row (canonical.rows.getD s .empty)) Row.empty).rename
      fun s => p.groupOf.getD s 0
  rows.setIfInBounds 0 recovery

/-! ### States that only pass on -/

/-- The nonterminal that a state does nothing but build, from one child and without labels, if the
nonterminal is hidden and no family. -/
def passesOnTo (r : Row) : Option Nat :=
  match (r.acts.toList.flatten.filter (· ≠ .stay)).eraseDups with
  | [.reduce n 1 0 [⟨none, none, false⟩]] =>
    if isHidden n && !(n < RuleName.count && (RuleName.ofNat n).isFamily) then some n else none
  | _ => none

/-- The nonterminals that states only pass on to, by state. -/
def passing : Array (Option Nat) := merged.map passesOnTo

/-- Where a row really leads when a target only passes on. -/
def throughPassing (r : Row) : (fuel : Nat) → Nat → Nat
  | 0, target => target
  | fuel + 1, target =>
    match passing.getD target none with
    | none => target
    | some n => throughPassing r fuel (r.after n)

/-- The rows, none of which leads to a state that only passes on. -/
def direct : Array Row := merged.map fun r => r.rename (throughPassing r nonterminalCount)

/-! ### States in use -/

/-- The states that can be reached from those of `pending`. -/
def reachable (rows : Array Row) : (fuel : Nat) → (pending : List Nat) → Array Bool → Array Bool
  | 0, _, seen => seen
  | _ + 1, [], seen => seen
  | fuel + 1, s :: pending, seen =>
    let fresh := ((rows.getD s .empty).targets.eraseDups).filter (!seen.getD · true)
    reachable rows fuel (fresh ++ pending)
      (fresh.foldl (fun seen s => seen.setIfInBounds s true) seen)

/-- The states in use in their final order: the fullest first, after the two that are fixed. -/
def order : List Nat :=
  let start := (Array.replicate direct.size false).setIfInBounds 0 true |>.setIfInBounds 1 true
  let inUse := reachable direct direct.size [1] start
  let others := ((List.range direct.size).drop 2).filter (inUse.getD · false)
  let sized := others.map fun s => (s, (direct.getD s .empty).size)
  0 :: 1 :: (sized.mergeSort fun a b => b.2 ≤ a.2).map (·.1)

/-- The rows of the states in use, in their final order. -/
def compact : Array Row :=
  let places := order.zipIdx.foldl (fun table (s, k) => table.setIfInBounds s k)
    (Array.replicate direct.size 0)
  (order.map fun s => (direct.getD s .empty).rename fun t => places.getD t 0).toArray

end GoOutline.Automaton
