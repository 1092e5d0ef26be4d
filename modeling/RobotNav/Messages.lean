/-
The messages the planner and the controller exchange.

Time stamps are left out: neither reads them.
-/
import RobotNav.Library.Arith

namespace RobotNav

structure Quaternion (K : Type) where
  x : K
  y : K
  z : K
  w : K
  deriving DecidableEq

/-- `geometry_msgs::msg::PoseStamped`, the position and header flattened. -/
structure PoseStamped (K : Type) where
  frameId : String
  x : K
  y : K
  z : K
  orientation : Quaternion K
  deriving DecidableEq

/-- `nav_msgs::msg::Path`. -/
structure Path (K : Type) where
  frameId : String
  poses : List (PoseStamped K)
  deriving DecidableEq

/-- The orientation of a message that nobody has set. -/
def Quaternion.unset {K : Type} [Arith K] : Quaternion K := ⟨lit 0, lit 0, lit 0, lit 1⟩

end RobotNav
