import Placement.Log
import Placement.Ordered
import Placement.Twister

/-!
# Random picks

`RandomPick.pick` chooses a node for a single shard with the next numbers of a generator.
-/

namespace Placement.RandomPick
set_option autoImplicit false

/-- The nodes are put in order first, a node that is listed twice standing twice.  An empty list gives
no node and leaves the generator alone. -/
def pick (nodes : List Node) (g : Twister) : Logged (Option Node) × Twister :=
  match Ordered.sorted nodes with
  | [] => (⟨none, [.nothingToPick]⟩, g)
  | first :: others =>
    let (i, g) := g.below (others.length + 1)
    (.silent (some ((first :: others).getD i first)), g)

end Placement.RandomPick
