import HttpRouting.Text

/-!
# Router configuration

A routing policy names the engine that answers, or leaves the choice to the size of the table: with
at most as many path routes as the threshold the table is scanned, with more it is searched as a
tree. Both settings have defaults, and are read from structured data: an object with named fields or
a list.
-/

namespace HttpRouting

/-- A structured value; a number that was not written as an integer is only known to be one. -/
inductive Data where
  | null
  | bool (b : Bool)
  | integer (n : Int)
  | decimal
  | text (s : String)
  | list (items : List Data)
  | object (fields : List (String × Data))
deriving Repr

def Data.field? (fields : List (String × Data)) (name : String) : Option Data :=
  fields.reverse.lookup name

inductive Policy where
  | auto
  | simple
  | segmentTree
deriving DecidableEq, Repr

def Policy.name : Policy → String
  | .auto => "Auto"
  | .simple => "Simple"
  | .segmentTree => "SegmentTree"

def Policy.ofKeyword? : String → Option Policy
  | "auto" => some .auto
  | "simple" => some .simple
  | "segment-tree" => some .segmentTree
  | _ => none

structure Config where
  policy : Policy := .auto
  threshold : Nat := 8
deriving DecidableEq, Repr

inductive ConfigFault where
  | unknownPolicy (keyword : String)
  | malformed
deriving DecidableEq, Repr

def ConfigFault.message : ConfigFault → String
  | .unknownPolicy keyword =>
      "unknown variant `" ++ keyword ++ "`, expected one of `auto`, `simple`, `segment-tree`"
  | .malformed => ""

private def readKeyword (keyword : String) : Except ConfigFault Policy :=
  match Policy.ofKeyword? keyword with
  | some policy => .ok policy
  | none => .error (.unknownPolicy keyword)

def Policy.ofData : Data → Except ConfigFault Policy
  | .text keyword => readKeyword keyword
  | .object [(keyword, value)] =>
      match readKeyword keyword, value with
      | .ok policy, .null => .ok policy
      | .ok _, _ => .error .malformed
      | .error fault, _ => .error fault
  | _ => .error .malformed

namespace Config

def thresholdOfData : Data → Except ConfigFault Nat
  | .integer n => if 0 ≤ n ∧ n ≤ 18446744073709551615 then .ok n.toNat else .error .malformed
  | _ => .error .malformed

private def orDefault {α : Type} (read : Data → Except ConfigFault α) (default : α) :
    Option Data → Except ConfigFault α
  | none => .ok default
  | some data => read data

private def ofParts (policy threshold : Option Data) : Except ConfigFault Config :=
  match orDefault Policy.ofData .auto policy with
  | .error fault => .error fault
  | .ok policy => (orDefault thresholdOfData 8 threshold).map (⟨policy, ·⟩)

/-- Reads a configuration. Absent settings have their defaults, fields with other names are
ignored, and the first setting that cannot be read decides; surplus items of a list come last. -/
def ofData : Data → Except ConfigFault Config
  | .object fields =>
      ofParts (Data.field? fields "routing-policy") (Data.field? fields "simple-threshold")
  | .list items =>
      match ofParts items[0]? items[1]? with
      | .error fault => .error fault
      | .ok config => if items.length ≤ 2 then .ok config else .error .malformed
  | _ => .error .malformed

def resolve (config : Config) (pathRoutes : Nat) : Policy :=
  match config.policy with
  | .auto => if pathRoutes ≤ config.threshold then .simple else .segmentTree
  | policy => policy

def describe (config : Config) : String :=
  Text.record "RouterConfig" [("routing_policy", config.policy.name),
    ("simple_threshold", toString config.threshold)]

end Config

end HttpRouting
