import Placement.Check
import Placement.Config
import Placement.LoadSummary
import Placement.MovePlan

/-!
# Checking objects

Each kind of object is built from a `Value` by checking its fields in the order of their declaration;
all failing fields are reported.  Unknown fields are ignored.  The functions named `toValue` write an
object as the mapping of its own fields.
-/

namespace Placement
set_option autoImplicit false

/-- A fault and the path of the field that has it; the empty path is the object itself. -/
structure FieldError where
  path : List String
  fault : Fault
deriving DecidableEq

/-- Why an object of a kind could not be built. -/
structure Rejection where
  model : String
  errors : List FieldError
deriving DecidableEq

abbrev Checked (α : Type) : Type := Except (List FieldError) α

namespace Checked
variable {α β γ : Type}

def both (x : Checked α) (y : Checked β) : Checked (α × β) :=
  match x, y with
  | .ok a, .ok b => .ok (a, b)
  | .ok _, .error es => .error es
  | .error es, .ok _ => .error es
  | .error es, .error fs => .error (es ++ fs)

/-- Faults of a part are faults of the whole at a longer path. -/
def within (name : String) : Checked α → Checked α
  | .ok a => .ok a
  | .error es => .error (es.map fun e => ⟨name :: e.path, e.fault⟩)

def ofFault (name : String) : Except Fault α → Checked α
  | .ok a => .ok a
  | .error fault => .error [⟨[name], fault⟩]

end Checked

namespace Validation
variable {α : Type}

def fields (model : String) : Value → Checked (List (Value × Value))
  | .mapping entries => .ok entries
  | _ => .error [⟨[], .notObject model⟩]

def required (entries : List (Value × Value)) (name : String) (check : Value → Except Fault α) :
    Checked α :=
  match Value.lookup? name entries with
  | some v => .ofFault name (check v)
  | none => .error [⟨[name], .missing⟩]

def optional (entries : List (Value × Value)) (name : String) (fallback : α)
    (check : Value → Except Fault α) : Checked α :=
  match Value.lookup? name entries with
  | some v => .ofFault name (check v)
  | none => .ok fallback

/-- A field that holds an object of its own. -/
def part (entries : List (Value × Value)) (name : String) (check : Value → Checked α) : Checked α :=
  match Value.lookup? name entries with
  | some v => (check v).within name
  | none => .error [⟨[name], .missing⟩]

/-- Names the kind of object that was to be built. -/
def report (model : String) : Checked α → Except Rejection α
  | .ok a => .ok a
  | .error errors => .error ⟨model, errors⟩

end Validation

open Validation

/-! ## Nodes -/

namespace Node

def check (v : Value) : Checked Node :=
  (fields "Node" v).bind fun entries =>
    ((required entries "host" Check.text).both
      ((required entries "port" (Check.natUpTo 65535)).both
        (optional entries "start_code" 0 Check.integer))).map fun x => ⟨x.1, x.2.1, x.2.2⟩

def ofValue (v : Value) : Except Rejection Node := report "Node" (check v)

def toValue (n : Node) : Value :=
  .ofFields [("host", .text n.host), ("port", .int n.port.val), ("start_code", .int n.startCode)]

end Node

/-! ## Shards -/

namespace Shard

def check (v : Value) : Checked Shard :=
  (fields "Shard" v).bind fun entries =>
    ((required entries "table" Check.text).both
      ((optional entries "start_key" [] Check.bytes).both
        ((optional entries "end_key" [] Check.bytes).both
          (optional entries "shard_id" 0 Check.integer)))).map
      fun x => ⟨x.1, x.2.1, x.2.2.1, x.2.2.2⟩

def ofValue (v : Value) : Except Rejection Shard := report "Shard" (check v)

def toValue (s : Shard) : Value :=
  .ofFields [("table", .text s.table), ("start_key", .bytes s.startKey),
    ("end_key", .bytes s.endKey), ("shard_id", .int s.shardId)]

end Shard

/-! ## Moves -/

namespace MovePlan

/-- Source and destination have to differ; this is looked at when all fields are good. -/
def ofParts (shard : Shard) (source destination : Node) : Checked MovePlan :=
  if h : source = destination then .error [⟨[], .sameNode source⟩]
  else .ok ⟨shard, source, destination, h⟩

def check (v : Value) : Checked MovePlan :=
  (fields "MovePlan" v).bind fun entries =>
    ((part entries "shard" Shard.check).both
      ((part entries "source" Node.check).both (part entries "destination" Node.check))).bind
      fun x => ofParts x.1 x.2.1 x.2.2

def ofValue (v : Value) : Except Rejection MovePlan := report "MovePlan" (check v)

/-- A move of parts that are known to be good. -/
def make (shard : Shard) (source destination : Node) : Except Rejection MovePlan :=
  report "MovePlan" (ofParts shard source destination)

def toValue (p : MovePlan) : Value :=
  .ofFields [("shard", p.shard.toValue), ("source", p.source.toValue),
    ("destination", p.destination.toValue)]

end MovePlan

/-! ## Load figures -/

namespace LoadSummary

def check (v : Value) : Checked LoadSummary :=
  (fields "LoadSummary" v).bind fun entries =>
    let figure (name : String) := optional entries name 0 Check.integer
    ((figure "node_count").both ((figure "shard_count").both
      ((figure "max_load").both (figure "min_load")))).map fun x => ⟨x.1, x.2.1, x.2.2.1, x.2.2.2⟩

def ofValue (v : Value) : Except Rejection LoadSummary := report "LoadSummary" (check v)

def toValue (s : LoadSummary) : Value :=
  .ofFields [("node_count", .int s.nodeCount), ("shard_count", .int s.shardCount),
    ("max_load", .int s.maxLoad), ("min_load", .int s.minLoad)]

end LoadSummary

/-! ## Tunables -/

namespace Config

/-- Doubles that may stand as a slop. -/
abbrev UnitDouble : Type := { d : Double // d.inUnitInterval = true }

/-- A NaN counts as too large. -/
def checkSlop (v : Value) : Except Fault UnitDouble :=
  match Check.number v with
  | .error e => .error e
  | .ok d =>
    if d.isNegative then .error .belowZero
    else if h : d.inUnitInterval = true then .ok ⟨d, h⟩ else .error (.above 1)

def check (v : Value) : Checked Config :=
  (fields "BalancerConfig" v).bind fun entries =>
    ((optional entries "slop" ⟨.zero, rfl⟩ checkSlop).both
      ((optional entries "random_seed" none Check.integerOrNull).both
        (optional entries "log_plans" false Check.bool))).map
      fun x => ⟨x.1.val, x.2.1, x.2.2, x.1.property⟩

def ofValue (v : Value) : Except Rejection Config := report "BalancerConfig" (check v)

def toValue (c : Config) : Value :=
  .ofFields [("slop", .double c.slop),
    ("random_seed", match c.randomSeed with | some seed => .int seed | none => .null),
    ("log_plans", .bool c.logPlans)]

end Config
end Placement
