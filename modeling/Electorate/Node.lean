import Electorate.Policy
import Electorate.Toml.Reader

namespace Electorate

/-- The settings of one node. Without a policy the membership file decides; without a membership
file there is nothing to load. -/
structure Node where
  id : UInt64
  policy : Option Policy := none
  reconfigEnabled : Bool := true
  dynamicConfig : Option String := none
  logLevel : String := "info"
  logFormat : String := "pretty"
  deriving DecidableEq, Repr

namespace Toml

/-- The values of the named fields, each of which may be missing. An array gives them in order,
and a date has none of them. -/
def fields? (names : List String) : Toml → Option (List (Option Toml))
  | .table _ entries => some (names.map fun name => entries.lookup name)
  | .array _ items => some ((List.range names.length).map fun i => items[i]?)
  | .moment => some (names.map fun _ => none)
  | _ => none

def word64? : Toml → Option UInt64
  | .integer n => if 0 ≤ n then some (UInt64.ofNat n.toNat) else none
  | _ => none

def bool? : Toml → Option Bool
  | .boolean b => some b
  | _ => none

def text? : Toml → Option String
  | .string s => some s
  | _ => none

/-- A name as text, or as the only key of a table, over something empty. -/
def name? : Toml → Option String
  | .string s => some s
  | .table _ [(s, .table _ [])] => some s
  | .table _ [(s, .array _ [])] => some s
  | _ => none

/-- A field with a value for when it is missing. -/
def orDefault {α : Type} (read : Toml → Option α) (default : α) : Option Toml → Option α
  | none => some default
  | some v => read v

end Toml

namespace Node

/-- Reads the settings by type alone. -/
def ofTable? (t : Toml.Table) : Option Node := do
  let node ← t.lookup "node"
  let ids ← node.fields? ["id"]
  let id ← (← ids.head?.join).word64?
  let quorum ← ((t.lookup "quorum").getD (.table .header [])).fields?
    ["policy", "reconfig_enabled", "dynamic_config"]
  let logging ← ((t.lookup "logging").getD (.table .header [])).fields? ["level", "format"]
  match quorum, logging with
  | [policy, enabled, dynamic], [level, format] => do
    let policy ← Toml.orDefault
      (fun v => (v.name?.bind Policy.ofName?).map some) none policy
    let enabled ← Toml.orDefault Toml.bool? true enabled
    let dynamic ← Toml.orDefault (fun v => v.text?.map some) none dynamic
    let level ← Toml.orDefault Toml.text? "info" level
    let format ← Toml.orDefault Toml.text? "pretty" format
    some (Node.mk id policy enabled dynamic level format)
  | _, _ => none

/-- Turns down what is well typed and yet no use. -/
def validate (n : Node) : Except Error Node :=
  if n.id = 0 then .error (.config .zeroNodeId)
  else if n.logFormat = "pretty" ∨ n.logFormat = "json" then .ok n
  else .error (.config (.logFormat n.logFormat))

def parse (text : String) : Except Error Node :=
  match (Toml.parse text).bind ofTable? with
  | none => .error .settings
  | some n => n.validate

end Node

end Electorate
