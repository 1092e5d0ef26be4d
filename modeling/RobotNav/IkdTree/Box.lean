/-
`BoxPointType`, the axis-aligned boxes the map deletes points by.
-/
import RobotNav.Library.Arith

namespace RobotNav
namespace IkdTree

/-- Coordinates of a point, by axis. -/
abbrev Coords (K : Type) := Fin 3 → K

structure BoxPointType (K : Type) where
  vertexMin : Coords K
  vertexMax : Coords K

variable {K : Type} [Arith K]

/-- A box is half-open: it has its lower faces and not its upper ones. -/
def BoxPointType.contains (box : BoxPointType K) (p : Coords K) : Prop :=
  ∀ i, box.vertexMin i ≤ p i ∧ p i < box.vertexMax i

instance (box : BoxPointType K) (p : Coords K) : Decidable (box.contains p) :=
  inferInstanceAs (Decidable (∀ i, box.vertexMin i ≤ p i ∧ p i < box.vertexMax i))

end IkdTree
end RobotNav
