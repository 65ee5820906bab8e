import ShapeCodec.Decimal
import ShapeCodec.Json
/-! Path filters: paths into a document, joined by pipes and commas. The outputs come in order, and
end early at the first fault. -/
namespace ShapeCodec

inductive PathFilter where
  | identity
  | empty
  | member (name : String)
  /-- An item of an array, counted from the end if negative. -/
  | index (n : Int)
  | iterate
  /-- Outputs up to a fault, without the fault. -/
  | attempt (f : PathFilter)
  | pipe (f g : PathFilter)
  | both (f g : PathFilter)
  deriving DecidableEq

namespace PathFilter

/-- Why a filter stops on a document. -/
inductive RunFault where
  | cannotIndex (kind : String)
  | cannotIterate (kind : String)
  | hugeIndex (n : Int)

def RunFault.message : RunFault → String
  | cannotIndex kind => "cannot index " ++ kind
  | cannotIterate kind => "cannot iterate over " ++ kind
  | hugeIndex n => "index out of range: " ++ Decimal.text n

/-- Outputs in order, and the fault that ended them, if any. -/
abbrev Outputs := List Json × Option RunFault

def output (json : Json) : Outputs :=
  ([json], none)

/-- Runs `g` on each output of another filter. -/
def feed (g : Json → Outputs) (fault : Option RunFault) : List Json → Outputs
  | [] => ([], fault)
  | json :: rest =>
    match g json with
    | (outputs, some e) => (outputs, some e)
    | (outputs, none) =>
      let (more, e) := feed g fault rest
      (outputs ++ more, e)

/-- The position that a signed index means in an array. -/
def position? (length : Nat) (n : Int) : Option Nat :=
  if 0 ≤ n then some n.toNat
  else if n.natAbs ≤ length then some (length - n.natAbs)
  else none

/-- The value of a key of an object, `null` if it is missing. -/
def lookup (name : String) : Json → Outputs
  | .object members => output ((Json.member? members name).getD .null)
  | json => ([], some (.cannotIndex json.kind))

/-- Indexes without their sign have 63 bits. -/
def maxIndex : Nat := 9223372036854775807

/-- An item of an array, `null` if there is none. -/
def item (n : Int) : Json → Outputs
  | .array items =>
    if n.natAbs ≤ maxIndex then
      output (((position? items.length n).bind fun i => items[i]?).getD .null)
    else ([], some (.hugeIndex n))
  | json => ([], some (.cannotIndex json.kind))

def elements : Json → Outputs
  | .array items => (items, none)
  | .object members => (members.map Prod.snd, none)
  | json => ([], some (.cannotIterate json.kind))

def run : PathFilter → Json → Outputs
  | identity, json => output json
  | empty, _ => ([], none)
  | member name, json => lookup name json
  | index n, json => item n json
  | iterate, json => elements json
  | attempt f, json => ((f.run json).1, none)
  | pipe f g, json => feed g.run (f.run json).2 (f.run json).1
  | both f g, json =>
    match f.run json with
    | (outputs, some e) => (outputs, some e)
    | (outputs, none) => (outputs ++ (g.run json).1, (g.run json).2)

end PathFilter

end ShapeCodec
