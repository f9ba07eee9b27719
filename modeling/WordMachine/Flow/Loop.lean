import WordMachine.Flow.NodeSet

/-!
# Loops of a finite graph

The nodes of the graph are `0` to `size - 1`, and `next` lists the successors of a node in ascending
order. `search` tells whether a node of some kind can be reached; `cycles` lists the elementary
cycles, each written from its lowest node on. Where a path forks it is prolonged only to nodes from
which the loop can still be closed, so no time is lost on paths that lead nowhere.
-/

namespace WordMachine.Flow

/-- Whether a goal is met on the way from the nodes of `todo` along those of `free`. Each of at most
`k` rounds looks at one node and puts its free successors before the others. -/
def search (next : Nat → List Nat) (goal : Nat → Bool) : Nat → NodeSet → List Nat → Bool
  | 0, _, _ => false
  | _ + 1, _, [] => false
  | k + 1, free, v :: todo =>
    if goal v then true
    else
      let found := (next v).filter free.contains
      search next goal k (found.foldl .erase free) (found ++ todo)

/-- The simple paths of at most `k` nodes that start at `v`, go on along nodes of `free`, and end
with an edge to `home`. -/
def closings (next : Nat → List Nat) (home : Nat) : Nat → NodeSet → Nat → List (List Nat)
  | 0, _, _ => []
  | k + 1, free, v =>
    let ahead := (next v).filter free.contains
    let closes := fun u => (next u).contains home
    let onward :=
      if ahead.length < 2 then ahead
      else ahead.filter fun u => search next closes (k + 1) (free.erase u) [u]
    (if closes v then [[v]] else []) ++
      onward.flatMap fun u => (closings next home k (free.erase u) u).map (v :: ·)

/-- The nodes that an edge from themselves or a higher node leads to. The lowest node of a cycle is
one of them. -/
def returnPoints (size : Nat) (next : Nat → List Nat) : NodeSet :=
  (List.range size).foldl (fun s v => ((next v).filter (· ≤ v)).foldl .insert s) .empty

/-- The elementary cycles, in lexicographic order. -/
def cycles (size : Nat) (next : Nat → List Nat) : List (List Nat) :=
  let points := returnPoints size next
  ((List.range size).filter points.contains).flatMap fun home =>
    closings next home size (.between (home + 1) size) home

/-- Whether a goal can be reached from `start`, which is a node. -/
def reaches (size : Nat) (next : Nat → List Nat) (goal : Nat → Bool) (start : Nat) : Bool :=
  search next goal size ((NodeSet.between 0 size).erase start) [start]

end WordMachine.Flow
