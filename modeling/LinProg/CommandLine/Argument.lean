/-!
# Arguments

A command takes named options: a flag stands alone, and any other option has a value, either after
an equals sign or as the next argument. `Argument.scan?` recognises them and `Argument.Given` looks
them up. Everything that is not an option of the command is refused, and so is an option that is
given twice.
-/

namespace LinProg.Argument

/-- An option that a command takes. -/
structure Known where
  /-- Its name, with the dashes. -/
  name : String
  hasValue : Bool := true
  deriving Repr

/-- The options that were given, each with its value; a flag has none. -/
abbrev Given := List (String × Option String)

/-- An argument before its first equals sign, and what comes after that if there is one. -/
def splitAtEquals (argument : String) : String × Option String :=
  let (name, rest) := argument.toList.span (· ≠ '=')
  (String.ofList name, match rest with
    | _ :: value => some (String.ofList value)
    | [] => none)

/-- The next argument can be the value of an option: a dash stands for itself only when it is
alone. -/
def isValue (argument : String) : Bool :=
  argument = "-" || argument.toList.head? ≠ some '-'

/-- Recognises options. Two dashes alone end them, and nothing may come after. -/
def scan? (known : List Known) : List String → Option Given
  | [] => some []
  | argument :: rest =>
    if argument = "--" then
      if rest.isEmpty then some [] else none
    else
      let (name, attached) := splitAtEquals argument
      match known.find? (fun k => k.name = name), attached, rest with
      | none, _, _ => none
      | some ⟨_, false⟩, none, rest => do return (name, none) :: (← scan? known rest)
      | some ⟨_, false⟩, some _, _ => none
      | some ⟨_, true⟩, some value, rest => do return (name, some value) :: (← scan? known rest)
      | some ⟨_, true⟩, none, value :: rest =>
        if isValue value then do return (name, some value) :: (← scan? known rest) else none
      | some ⟨_, true⟩, none, [] => none

/-- The options that arguments give, no two of one name. -/
def given? (known : List Known) (arguments : List String) : Option Given := do
  let given ← scan? known arguments
  if (given.map (·.1)).Nodup then some given else none

namespace Given

def flag (g : Given) (name : String) : Bool := (g.lookup name).isSome

/-- The value of an option that may be left out; none if it cannot be read. -/
def optional? {β : Type} (g : Given) (name : String) (read : String → Option β) :
    Option (Option β) :=
  match g.lookup name with
  | some (some value) => (read value).map some
  | _ => some none

/-- The value of an option that may not be left out. -/
def required? {β : Type} (g : Given) (name : String) (read : String → Option β) : Option β :=
  (g.optional? name read).bind id

end Given

end LinProg.Argument
