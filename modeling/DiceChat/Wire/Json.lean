/-!
This file holds JSON values and reads plain values out of them. A number that is not written as an
integer is kept apart, because no stored value is one.
-/

namespace DiceChat

/-- An object is a list of members with distinct names. -/
inductive Json where
  | null
  | bool (value : Bool)
  | int (value : Int)
  | decimal (text : String)
  | str (value : String)
  | arr (items : List Json)
  | obj (members : List (String × Json))
  deriving Repr

namespace Json

def ofNat (value : Nat) : Json := .int value

def ofInt64 (value : Int64) : Json := .int value.toInt

def ofUInt32 (value : UInt32) : Json := .int value.toNat

def ofUInt64 (value : UInt64) : Json := .int value.toNat

def toString? : Json → Option String
  | .str value => some value
  | _ => none

def toBool? : Json → Option Bool
  | .bool value => some value
  | _ => none

def toArray? : Json → Option (List Json)
  | .arr items => some items
  | _ => none

/-- An integer below the given bound is a natural number. -/
def toNatBelow? (bound : Nat) : Json → Option Nat
  | .int value => if 0 ≤ value ∧ value < bound then some value.toNat else none
  | _ => none

def toUInt32? (json : Json) : Option UInt32 :=
  (json.toNatBelow? UInt32.size).map UInt32.ofNat

def toUInt64? (json : Json) : Option UInt64 :=
  (json.toNatBelow? UInt64.size).map UInt64.ofNat

def toInt64? : Json → Option Int64
  | .int value =>
      if Int64.minValue.toInt ≤ value ∧ value ≤ Int64.maxValue.toInt then
        some (Int64.ofInt value)
      else none
  | _ => none

/-- This is the value of a member of an object. -/
def member? (name : String) : Json → Option Json
  | .obj members => members.lookup name
  | _ => none

end Json

end DiceChat
