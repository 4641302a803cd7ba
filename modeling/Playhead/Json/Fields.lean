import Playhead.Json.Number
/-!
# Fields — records out of JSON values

A record is written as an object, where members with unknown keys are passed over and a known key may occur once, or
as an array of its fields in order.  `Fields` is what both come to: a place and a key give a value, no value, or a
fault.
-/
namespace Playhead
namespace Json

namespace Value

def natural? (most : Nat) : Value → Option Nat
  | .number n => n.toNat?.filter (fun k => decide (k ≤ most))
  | _ => none

def word? : Value → Option Nat := natural? maxWord

def real? : Value → Option Float
  | .number n => n.toFloat?
  | _ => none

def text? : Value → Option String
  | .string s => s
  | _ => none

/-- One of a table of names, as a string or as the only key of an object whose value is null. -/
def choice? (table : List (String × α)) : Value → Option α
  | .string (some s) => table.lookup s
  | .object [(some s, .null)] => table.lookup s
  | _ => none

def bytes? : Value → Option ByteArray
  | .array vs => (vs.mapM (natural? 255)).map (fun ns => (ns.map UInt8.ofNat).toByteArray)
  | _ => none

end Value

/-- A place and a key to the value of a field: `none` is a fault, `some none` no value. -/
structure Fields where
  find : Nat → String → Option (Option Value)

namespace Fields

/-- The value of a key among members; a key that occurs twice is a fault. -/
def member? (key : String) (members : List (Text × Value)) : Option (Option Value) :=
  match members.filter (fun m => m.1 == some key) with
  | [] => some none
  | [m] => some (some m.2)
  | _ => none

def ofMembers (members : List (Text × Value)) : Fields := ⟨fun _ key => member? key members⟩

def ofItems (items : List Value) : Fields := ⟨fun i _ => some items[i]?⟩

/-- The fields of a record of `count` fields.  Every key has to be readable, and an array may not be longer. -/
def ofValue? (count : Nat) : Value → Option Fields
  | .object members => if members.all (fun m => m.1.isSome) then some (ofMembers members) else none
  | .array items => if items.length ≤ count then some (ofItems items) else none
  | _ => none

def read (f : Fields) (i : Nat) (key : String) (reader : Value → Option α) (absent : Option α) : Option α :=
  match f.find i key with
  | none => none
  | some none => absent
  | some (some v) => reader v

end Fields
end Json
end Playhead
