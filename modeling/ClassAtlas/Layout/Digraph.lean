/-!
# Directed graphs in layers

The vertices of a graph are the numbers below its size, and the order of its edges matters. A graph
is made acyclic by turning around the edges that lead back to the path of a depth-first search. An
acyclic graph falls into layers: a vertex lies one layer below the lowest of the vertices that lead
to it.

The search and the layering are given as many rounds as there are vertices. A path of the search
holds no vertex twice, and every round of the layering places at least one vertex, so this is
enough.
-/

namespace ClassAtlas

/-- A directed graph with numbered vertices. -/
structure Digraph where
  size : Nat
  edges : List (Nat × Nat)

namespace Digraph

/-- The vertices in order. -/
def vertices (g : Digraph) : List Nat := List.range g.size

/-- Where the edges from a vertex lead, in the order of the edges. -/
def targets (g : Digraph) (v : Nat) : List Nat :=
  g.edges.filterMap fun e => if e.1 = v then some e.2 else none

/-- Where the edges to a vertex come from, in the order of the edges. -/
def origins (g : Digraph) (v : Nat) : List Nat :=
  g.edges.filterMap fun e => if e.2 = v then some e.1 else none

/-- The vertices to which no edge leads. -/
def tops (g : Digraph) : List Nat := g.vertices.filter fun v => (g.origins v).isEmpty

/-! ## Turning edges around -/

/-- What a depth-first search has found. -/
structure Search where
  seen : List Nat := []
  /-- Edges that lead back to the path of the search. -/
  back : List (Nat × Nat) := []

/-- Searches from a vertex that has not been seen, with the path that led to it. -/
def searchFrom (g : Digraph) : Nat → List Nat → Search → Nat → Search
  | 0, _, found, _ => found
  | n + 1, path, found, v =>
    (g.targets v).foldl
      (fun found t =>
        if t ∉ found.seen then g.searchFrom n (v :: path) found t
        else if t ∈ v :: path then { found with back := (v, t) :: found.back }
        else found)
      { found with seen := v :: found.seen }

/-- Searches the whole graph, from its tops first. -/
def search (g : Digraph) : Search :=
  (g.tops ++ g.vertices).foldl
    (fun found v => if v ∈ found.seen then found else g.searchFrom g.size [] found v) {}

/-- The graph with the edges that close a cycle turned around. -/
def acyclic (g : Digraph) : Digraph :=
  let back := g.search.back
  { g with edges := g.edges.map fun e => if e ∈ back then (e.2, e.1) else e }

/-! ## Layers -/

/-- The vertices that can be placed after a layer: those all of whose origins are placed, in the
order in which they become ready. The first list holds the vertices placed before. -/
def nextLayer (g : Digraph) (placed layer : List Nat) : List Nat :=
  (layer.foldl
    (fun (placed, next) v =>
      let placed := v :: placed
      let ready := (g.targets v).filter fun t => (g.origins t).all (· ∈ placed)
      (placed, next ++ ready.eraseDups.filter (· ∉ next)))
    (placed, ([] : List Nat))).2

/-- The layers from a given one on. -/
def layersFrom (g : Digraph) : Nat → List Nat → List Nat → List (List Nat)
  | 0, _, _ => []
  | n + 1, placed, layer =>
    if layer = [] then [] else layer :: g.layersFrom n (layer ++ placed) (g.nextLayer placed layer)

/-- The layers of an acyclic graph, where the first layer begins with given vertices. -/
def layers (g : Digraph) (first : List Nat) : List (List Nat) :=
  g.layersFrom g.size [] (first ++ g.tops.filter (· ∉ first))

end Digraph

end ClassAtlas
