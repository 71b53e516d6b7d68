import Sema.Position

/-!
Identities of tree nodes. What analysis learns about a node is kept under the node's id, so the
tree itself is never changed.
-/

namespace Sema

/-- The identity of a tree node. Nothing keeps two nodes of a given tree from sharing one. -/
structure NodeId where
  value : UInt32
deriving DecidableEq

/-- The written form of a node id. -/
def NodeId.render (n : NodeId) : String := "#" ++ Nat.repr n.value.toNat

/-- What every tree node carries: an identity and the place it was read from. -/
structure Node where
  id : NodeId
  pos : Position
deriving DecidableEq

end Sema
