/-! Base-ten text of integers: no separators, no leading zeros, a minus sign before negatives. -/
namespace ShapeCodec.Decimal

def digits (n : Nat) : List Char :=
  Nat.toDigits 10 n

/-- The number that a digit stands for. -/
def digitValue (c : Char) : Nat :=
  c.toNat - '0'.toNat

def ofInt : Int → List Char
  | .ofNat n => digits n
  | .negSucc n => '-' :: digits (n + 1)

/-- The number that a run of digits denotes, continuing from the digits before it. -/
def value (before : Nat) (run : List Char) : Nat :=
  run.foldl (fun n c => 10 * n + digitValue c) before

def text (n : Int) : String :=
  String.ofList (ofInt n)

example : text (-9223372036854775808) = "-9223372036854775808" ∧ text 0 = "0" := by decide +kernel

end ShapeCodec.Decimal
