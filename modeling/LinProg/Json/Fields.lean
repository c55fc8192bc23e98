import LinProg.Json.Reader

/-!
# Structures in JSON

How a structure with named fields is read: from an object, whose unknown keys are ignored and in
which no field may be repeated, or from the array of its fields in order, which may be too short
but not too long. A reader gives none for a value of another shape.

* `Json.fields?`: what a value holds for each field.
* `Json.Slot.required`, `Json.Slot.nullable`, `Json.Slot.orElse`: what a missing field means.
-/

namespace LinProg.Json

def float? : Json → Option Float
  | num n => n.float?
  | _ => none

def count? : Json → Option Nat
  | num n => n.count?
  | _ => none

/-- An array of values that all can be read. -/
def list? {β : Type} (read : Json → Option β) : Json → Option (List β)
  | arr vs => vs.mapM read
  | _ => none

/-- A value, or null for none. -/
def nullable? {β : Type} (read : Json → Option β) : Json → Option (Option β)
  | null => some none
  | v => (read v).map some

/-- What a value holds for a field. -/
inductive Slot where
  | given (v : Json)
  | absent
  /-- The array ends before the field. -/
  | cut
  deriving Repr

/-- The values of the members with a key. -/
def valuesOf (key : String) (ms : List (Option String × Json)) : List Json :=
  ms.filterMap fun m => if m.1 = some key then some m.2 else none

def slotOf? (ms : List (Option String × Json)) (key : String) : Option Slot :=
  match valuesOf key ms with
  | [] => some .absent
  | [v] => some (.given v)
  | _ => none

/-- What a value holds for each of the named fields. -/
def fields? (names : List String) : Json → Option (List Slot)
  | obj ms => if ms.all fun m => m.1.isSome then names.mapM (slotOf? ms) else none
  | arr vs =>
    if vs.length ≤ names.length then
      some (vs.map .given ++ List.replicate (names.length - vs.length) .cut)
    else none
  | _ => none

namespace Slot

variable {β : Type}

/-- A field that has to be there. -/
def required (read : Json → Option β) : Slot → Option β
  | given v => read v
  | _ => none

/-- A field that may be null, or absent from an object. -/
def nullable (read : Json → Option β) : Slot → Option (Option β)
  | given v => v.nullable? read
  | absent => some none
  | cut => none

/-- A field that may be missing, and then has a default. -/
def orElse (standard : β) (read : Json → Option β) : Slot → Option β
  | given v => read v
  | _ => some standard

end Slot

/-- The name of an alternative, with the value it carries if there is one. -/
def alternative? : Json → Option (String × Option Json)
  | str (some name) => some (name, none)
  | obj [(some name, v)] => some (name, some v)
  | _ => none

/-- An alternative that carries no value: its name alone, or with null. -/
def plainName? (v : Json) : Option String :=
  match v.alternative? with
  | some (name, none) | some (name, some null) => some name
  | _ => none

end LinProg.Json
