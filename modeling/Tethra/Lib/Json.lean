import Mathlib

set_option autoImplicit false

/-! # JSON values

A value as a parser hands it on: of a number only what it is as an unsigned integer, and an object as its
members in the order of the text, where the last of a name counts. -/

inductive Json where
  | null
  | bool (b : Bool)
  /-- With its value where it is an integer of 64 bits without a sign. -/
  | number (u64 : Option Nat)
  | string (text : List Char)
  | array (items : List Json)
  | object (members : List (List Char × Json))

namespace Json

/-- The member of an object. -/
def get (name : String) : Json → Option Json
  | object members => (members.reverse.find? fun m => m.1 = name.toList).map Prod.snd
  | _ => none

def asU64 : Json → Option Nat
  | number u64 => u64
  | _ => none

def asStr : Json → Option (List Char)
  | string text => some text
  | _ => none

def isNull : Json → Bool
  | null => true
  | _ => false

end Json
