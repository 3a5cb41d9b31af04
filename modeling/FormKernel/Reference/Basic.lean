import FormKernel.Dense
import FormKernel.Fault
import FormKernel.Form.Cell

/-! # Data of reference cells

Topology, geometry and quadrature of reference cells, as far as they are known.  What is not
known is a missing entry. -/

namespace FormKernel.Reference

structure CellData where
  topology : List (String × List (List (List Nat))) := []
  geometry : List (String × Dense Float) := []
  volume : List (String × Float) := []
  facetVolumes : List (String × Dense Float) := []
  facetNormals : List (String × Dense Float) := []
  facetOrientations : List (String × Dense Float) := []
  facetJacobians : List (String × Dense Float) := []
  /-- Points and weights by cell, degree, scheme and set of polynomials. -/
  quadrature : List (String × Dense Float × Dense Float) := []

def entry {α : Type} (table : List (String × α)) (name : String) : Outcome α :=
  orMisfit (table.lookup name) .noEntry

/-- The rows of a two-dimensional array. -/
def rowLists (a : Dense Float) : List (List Float) := a.rows.map (·.data.toList)

def ofRows (width : Nat) (rows : List (List Float)) : Dense Float :=
  ⟨[rows.length, width], rows.flatten.toArray⟩

/-- The item at a place, which may be counted from the end. -/
def item {α : Type} (xs : List α) (i : Int) : Outcome α :=
  let place := if i < 0 then i + xs.length else i
  if place < 0 then misfit .outOfRange
  else orMisfit xs[place.toNat]? .outOfRange

end FormKernel.Reference
