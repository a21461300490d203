/-!
# Arguments of a command line

Options have a long name, with two dashes, and maybe a letter; they may stand between the other
arguments. Their values follow them, in the next argument or in the same one.
-/

namespace CodeAtlas

/-- An option: its long name without dashes, its letter, and whether it has a value. -/
structure ArgumentOption where
  name : String
  letter : Option Char := none
  valued : Bool := true
deriving DecidableEq, Repr, Inhabited

/-- Arguments taken apart: options in order, with the values of those that have one, and the rest. -/
structure Arguments where
  options : List (String × String) := []
  plain : List String := []
deriving DecidableEq, Repr, Inhabited

namespace Arguments

def value? (a : Arguments) (name : String) : Option String :=
  a.options.reverse.lookup name

def has (a : Arguments) (name : String) : Bool :=
  (a.value? name).isSome

def addOption (a : Arguments) (name value : String) : Arguments :=
  { a with options := a.options ++ [(name, value)] }

def addPlain (a : Arguments) (argument : String) : Arguments :=
  { a with plain := a.plain ++ [argument] }

/-- What options an argument of letters gives: the flags in it and, if one with a value ends it, that
one with the value that is there. -/
def letters (known : List ArgumentOption) :
    List Char → Option (List String × Option (String × Option String))
  | [] => some ([], none)
  | c :: rest =>
    match known.find? (·.letter == some c) with
    | none => none
    | some o =>
      if o.valued then
        some ([], some (o.name, if rest.isEmpty then none else some (String.ofList rest)))
      else (letters known rest).map fun (names, last) => (o.name :: names, last)

/-- The same for an argument with a long name. A flag has no value behind a sign of equality. -/
def long (known : List ArgumentOption) (text : List Char) :
    Option (List String × Option (String × Option String)) :=
  let name := String.ofList (text.takeWhile (· != '='))
  let value := match text.dropWhile (· != '=') with
    | [] => none
    | _ :: rest => some (String.ofList rest)
  match known.find? (·.name == name) with
  | none => none
  | some o =>
    if o.valued then some ([], some (o.name, value))
    else if value.isSome then none
    else some ([o.name], none)

/-- Takes arguments apart. Two dashes end the options; where options come first only, so does any
other argument. None if an option is not known or lacks its value. -/
def read? (known : List ArgumentOption) (optionsFirst : Bool) (a : Arguments) :
    List String → Option Arguments
  | [] => some a
  | argument :: rest =>
    let given := match argument.toList with
      | ['-', '-'] => none
      | '-' :: '-' :: name => some (long known name)
      | '-' :: c :: name => some (letters known (c :: name))
      | _ => none
    match given with
    | none =>
      if argument == "--" then some { a with plain := a.plain ++ rest }
      else if optionsFirst then some { a with plain := a.plain ++ argument :: rest }
      else read? known optionsFirst (a.addPlain argument) rest
    | some none => none
    | some (some (names, last)) =>
      let a := names.foldl (fun a name => a.addOption name "") a
      match last with
      | none => read? known optionsFirst a rest
      | some (name, some value) => read? known optionsFirst (a.addOption name value) rest
      | some (name, none) =>
        match rest with
        | value :: rest => read? known optionsFirst (a.addOption name value) rest
        | [] => none

end Arguments

end CodeAtlas
