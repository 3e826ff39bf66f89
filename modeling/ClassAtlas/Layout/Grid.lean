import ClassAtlas.Layout.Digraph

/-!
# Grids

A grid is a graph in layers in which every line runs from one layer to the next. An edge that spans
several layers gets a bend in each layer between. The cells of a grid are numbered: the vertices of
the graph come first, then the bends.
-/

namespace ClassAtlas

/-- A place where an edge passes through a layer. -/
structure Bend where
  edge : Nat
  layer : Nat
deriving DecidableEq

/-- Numbered cells in layers, with the cells above and below each that lines lead to. -/
structure Grid where
  /-- The cells below this number are vertices, the others are bends. -/
  vertices : Nat
  layers : List (List Nat)
  above : Array (List Nat)
  below : Array (List Nat)

namespace Grid

/-- Whether a cell is a bend. -/
def isBend (grid : Grid) (cell : Nat) : Bool := decide (grid.vertices ≤ cell)

/-- The cells, layer by layer. -/
def cells (grid : Grid) : List Nat := grid.layers.flatten

/-- The cells in the layer above that lines lead to. -/
def upNeighbors (grid : Grid) (cell : Nat) : List Nat := grid.above.getD cell []

/-- The cells in the layer below that lines lead to. -/
def downNeighbors (grid : Grid) (cell : Nat) : List Nat := grid.below.getD cell []

/-! ## From a graph in layers -/

/-- The bends of the edges of a graph, given the layer of every vertex. The bends of the last edge
come first, and so they stand first in their layers. -/
def bendsOf (edges : List (Nat × Nat)) (layerOf : Nat → Nat) : List Bend :=
  edges.zipIdx.reverse.flatMap fun ((a, b), i) =>
    (List.range' (layerOf a + 1) (layerOf b - layerOf a - 1)).map (Bend.mk i)

/-- The grid of an acyclic graph and its layers. Where several edges join two vertices, the lines at
these vertices follow the first of them. -/
def ofLayers (g : Digraph) (layers : List (List Nat)) : Grid :=
  let ranks := (g.vertices.map fun v => layers.findIdx (v ∈ ·)).toArray
  let layerOf := fun v => ranks.getD v 0
  let bends := bendsOf g.edges layerOf
  let bendAt := fun edge layer => g.size + bends.idxOf ⟨edge, layer⟩
  let through := fun (edge : Nat) (layer : Nat) =>
    match g.edges[edge]? with
    | some (a, b) =>
      if layer = layerOf a then a else if layer = layerOf b then b else bendAt edge layer
    | none => 0
  let joining := fun v w => g.edges.findIdx fun e => e = (v, w) || e = (w, v)
  let towards := fun v layer w => if layerOf w = layer then w else through (joining v w) layer
  { vertices := g.size
    layers := layers.zipIdx.map fun (layer, r) =>
      layer ++ (bends.zipIdx.filter (·.1.layer = r)).map fun (_, i) => g.size + i
    above := (g.vertices.map (fun v => (g.origins v).map (towards v (layerOf v - 1))) ++
      bends.map (fun b => [through b.edge (b.layer - 1)])).toArray
    below := (g.vertices.map (fun v => (g.targets v).map (towards v (layerOf v + 1))) ++
      bends.map (fun b => [through b.edge (b.layer + 1)])).toArray }

/-- The grid of any graph. -/
def ofDigraph (g : Digraph) : Grid :=
  let acyclic := g.acyclic
  ofLayers acyclic (acyclic.layers g.tops)

end Grid

end ClassAtlas
