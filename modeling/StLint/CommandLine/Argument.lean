/-!
# Options and positional arguments

Arguments are told apart from left to right: an option with the argument that is its value, or an
argument that stands for itself. After `--` **every argument stands for itself**.

Each item is admitted or refused as soon as it is complete, so that of a refused value and a later
request for help the refusal counts.
-/

namespace StLint.CommandLine

/-- An option of a command. -/
structure OptionSpec where
  long : String
  short : Option Char
  takesValue : Bool
  /-- It may be given more than once. -/
  repeats : Bool
  /-- The values that it may have. -/
  accepts : String → Bool

/-- What may follow the name of a command. -/
structure ArgumentSpec where
  options : List OptionSpec
  /-- How many arguments may stand for themselves; any number where it is left open. -/
  maxPositionals : Option Nat

/-- Why arguments make no command. -/
inductive Stop where
  /-- The usage is not kept. -/
  | usage
  /-- Help is asked for. -/
  | help
  deriving DecidableEq, Repr

/-- An argument for itself, or an option by its long name; one without a value has an empty
    value. -/
inductive Item where
  | positional (text : String)
  | option (name value : String)
  deriving DecidableEq, Repr

namespace Item

/-- The argument that stands for itself. -/
def positional? : Item → Option String
  | positional s => some s
  | option _ _ => none

/-- The value of an option. -/
def value? (name : String) : Item → Option String
  | positional _ => none
  | option n v => if n = name then some v else none

end Item

/-- An argument that is not a value: it begins with a dash and is not the dash alone. -/
def isOption (s : String) : Bool := s.toList.head? = some '-' && s != "-"

/-- What an option argument is. -/
inductive OptionForm where
  | complete (item : Item)
  | awaitsValue (spec : OptionSpec)

/-- An option without a value, or with one that is written in the same argument. -/
def OptionSpec.form (spec : OptionSpec) (attached : Option (List Char)) : Except Stop OptionForm :=
  match spec.takesValue, attached with
  | true, some v => .ok (.complete (.option spec.long (String.ofList v)))
  | true, none => .ok (.awaitsValue spec)
  | false, some _ => .error .usage
  | false, none => .ok (.complete (.option spec.long ""))

/-- An option by its long name, with a value after an equals sign. -/
def longForm (specs : List OptionSpec) (s : List Char) : Except Stop OptionForm :=
  let name := String.ofList (s.takeWhile (· ≠ '='))
  let attached := match s.dropWhile (· ≠ '=') with
    | [] => none
    | _ :: v => some v
  if name = "help" then (if attached.isSome then .error .usage else .error .help)
  else match specs.find? (·.long = name) with
    | some spec => spec.form attached
    | none => .error .usage

/-- An option by its letter, with a value directly after it or after an equals sign. -/
def shortForm (specs : List OptionSpec) : List Char → Except Stop OptionForm
  | [] => .error .usage
  | c :: r =>
    if c = 'h' then .error .help
    else match specs.find? (·.short = some c) with
      | some spec =>
        spec.form (if r.isEmpty then none else some (if r.head? = some '=' then r.tail else r))
      | none => .error .usage

/-- What an argument that begins with a dash is. -/
def optionForm (specs : List OptionSpec) (s : String) : Except Stop OptionForm :=
  match s.toList with
  | '-' :: '-' :: r => longForm specs r
  | _ :: r => shortForm specs r
  | [] => .error .usage

/-- An item may follow those before it: an argument that stands for itself is not empty and not one
    too many, and an option has a value that it accepts and is not repeated without leave. -/
def ArgumentSpec.admits (spec : ArgumentSpec) (before : List Item) : Item → Bool
  | .positional s =>
    !s.isEmpty && spec.maxPositionals.all fun n => (before.filterMap Item.positional?).length < n
  | .option name value =>
    (spec.options.find? (·.long = name)).any fun o =>
      o.accepts value && (o.repeats || (before.filterMap (Item.value? name)).isEmpty)

/-- The items with one more, if it is admitted. -/
def ArgumentSpec.add (spec : ArgumentSpec) (before : List Item) (item : Item) :
    Except Stop (List Item) :=
  if spec.admits before item then .ok (before ++ [item]) else .error .usage

/-- Arguments as items after those before them, where an option may await its value. -/
def itemsFrom (spec : ArgumentSpec) (before : List Item) :
    Option OptionSpec → List String → Except Stop (List Item)
  | none, [] => .ok before
  | some _, [] => .error .usage
  | some o, a :: args =>
    if isOption a then .error .usage
    else (spec.add before (.option o.long a)).bind fun before => itemsFrom spec before none args
  | none, a :: args =>
    if a = "--" then (args.map .positional).foldlM spec.add before
    else if isOption a then
      match optionForm spec.options a with
      | .ok (.complete item) =>
        (spec.add before item).bind fun before => itemsFrom spec before none args
      | .ok (.awaitsValue o) => itemsFrom spec before (some o) args
      | .error e => .error e
    else (spec.add before (.positional a)).bind fun before => itemsFrom spec before none args

/-- Arguments as items. -/
def items (spec : ArgumentSpec) (args : List String) : Except Stop (List Item) :=
  itemsFrom spec [] none args

end StLint.CommandLine
