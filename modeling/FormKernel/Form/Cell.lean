/-! # Reference cells

The cells of a mesh, with their dimension, the number of their sub-entities of each
dimension and the types of their facets. -/

namespace FormKernel.Form

inductive Cell where
  | vertex | interval | triangle | quadrilateral | tetrahedron | hexahedron | prism | pyramid
  deriving DecidableEq, Inhabited

namespace Cell

def all : List Cell :=
  [.vertex, .interval, .triangle, .quadrilateral, .tetrahedron, .hexahedron, .prism, .pyramid]

def name : Cell → String
  | .vertex => "vertex"
  | .interval => "interval"
  | .triangle => "triangle"
  | .quadrilateral => "quadrilateral"
  | .tetrahedron => "tetrahedron"
  | .hexahedron => "hexahedron"
  | .prism => "prism"
  | .pyramid => "pyramid"

def ofName? (name : String) : Option Cell := all.find? (fun c => c.name == name)

def dim : Cell → Nat
  | .vertex => 0
  | .interval => 1
  | .triangle | .quadrilateral => 2
  | .tetrahedron | .hexahedron | .prism | .pyramid => 3

/-- The number of sub-entities of each dimension. -/
def entityCounts : Cell → List Nat
  | .vertex => [1]
  | .interval => [2, 1]
  | .triangle => [3, 3, 1]
  | .quadrilateral => [4, 4, 1]
  | .tetrahedron => [4, 6, 4, 1]
  | .hexahedron => [8, 12, 6, 1]
  | .prism => [6, 9, 5, 1]
  | .pyramid => [5, 8, 5, 1]

def facetTypes : Cell → List Cell
  | .vertex => []
  | .interval => [.vertex]
  | .triangle | .quadrilateral => [.interval]
  | .tetrahedron => [.triangle]
  | .hexahedron => [.quadrilateral]
  | .prism => [.triangle, .quadrilateral]
  | .pyramid => [.quadrilateral, .triangle]

def code : Cell → Nat
  | .vertex => 0
  | .interval => 1
  | .triangle => 2
  | .tetrahedron => 3
  | .quadrilateral => 4
  | .hexahedron => 5
  | .prism => 6
  | .pyramid => 7

end Cell

end FormKernel.Form
