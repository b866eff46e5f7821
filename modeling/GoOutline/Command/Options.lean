/-!
# Options

* `Arguments`: what the arguments of a command say.
* `ArgumentError`: why they cannot be understood.
* `Arguments.parse`: reads arguments from left to right.

The values of an option are only looked at when the next option or path comes, or at the end; so an
unknown option is reported before a bad value that stands in front of it. A value that is joined to its
option by an equals sign is looked at at once.
-/

namespace GoOutline.Command

/-- What the arguments of a command say. -/
structure Arguments where
  paths : List String := []
  suffix : Option String := none
  toggles : List Nat := []
  isJson : Bool := false
deriving DecidableEq, Inhabited

/-- Why arguments cannot be understood; also the wish to be told about the command. -/
inductive ArgumentError where
  | unknownOption
  /-- An option without its value, or an empty path. -/
  | missingValue
  | badNumber
  | repeatedOption
  /-- A value for an option that takes none. -/
  | unwantedValue
  | help
  | version
deriving DecidableEq, Inhabited

/-- The options that take a value, and the paths. -/
inductive Target where
  | suffix | toggle | paths
deriving DecidableEq

/-- Values that have been collected for an option or as paths. -/
structure Pending where
  target : Target
  values : List String

/-- How far the arguments have been read. -/
structure State where
  args : Arguments := {}
  pending : Option Pending := none
  /-- Whether the next argument is the value of the option that is pending. -/
  needsValue : Bool := false
  /-- Whether all further arguments are paths. -/
  onlyPaths : Bool := false

/-- The greatest number that can be given. -/
def maxNumber : Nat := Nat.pow 2 64 - 1

/-- A number: decimal digits, with a plus sign or without. -/
def number? (text : String) : Option Nat :=
  let digits := match text.toList with
    | '+' :: rest => rest
    | chars => chars
  if digits.isEmpty || !digits.all Char.isDigit then none
  else
    let n := digits.foldl (fun n d => 10 * n + (d.toNat - 48)) 0
    if n ≤ maxNumber then some n else none

/-- Adds values to what the arguments say. -/
def Arguments.add (a : Arguments) : Pending → Except ArgumentError Arguments
  | ⟨.suffix, values⟩ =>
    match values with
    | [] => .error .missingValue
    | value :: _ =>
      if a.suffix.isSome then .error .repeatedOption else .ok { a with suffix := some value }
  | ⟨.toggle, values⟩ =>
    match values with
    | [] => .error .missingValue
    | value :: _ =>
      match number? value with
      | some n => .ok { a with toggles := a.toggles ++ [n] }
      | none => .error .badNumber
  | ⟨.paths, values⟩ =>
    if values.any String.isEmpty then .error .missingValue
    else .ok { a with paths := a.paths ++ values }

namespace State

/-- Adds the values that have been collected. -/
def settle (s : State) : Except ArgumentError State :=
  match s.pending with
  | none => .ok s
  | some pending => do
    .ok { s with args := ← s.args.add pending, pending := none, needsValue := false }

/-- Begins an option that takes a value, which may be joined to it. -/
def start (s : State) (target : Target) : Option String → Except ArgumentError State
  | some value => do
    let s ← s.settle
    .ok { s with args := ← s.args.add ⟨target, [value]⟩ }
  | none => do
    let s ← s.settle
    .ok { s with pending := some ⟨target, []⟩, needsValue := true }

/-- Takes an option that has no value. -/
def flag (s : State) (value : Option String) (take : Arguments → Except ArgumentError Arguments) :
    Except ArgumentError State :=
  if value.isSome then .error .unwantedValue
  else do
    let s ← s.settle
    .ok { s with args := ← take s.args }

/-- Takes an option that is written out. -/
def long (s : State) (name : String) (value : Option String) : Except ArgumentError State :=
  match name with
  | "suffix" => s.start .suffix value
  | "toggle" => s.start .toggle value
  | "json" =>
    s.flag value fun a => if a.isJson then .error .repeatedOption else .ok { a with isJson := true }
  | "help" => s.flag value fun _ => .error .help
  | "version" => s.flag value fun _ => .error .version
  | _ => .error .unknownOption

/-- Takes an option of one letter. -/
def short (s : State) (letter : Char) : Except ArgumentError State :=
  match letter with
  | 'h' => s.flag none fun _ => .error .help
  | 'V' => s.flag none fun _ => .error .version
  | _ => .error .unknownOption

/-- Takes a path. -/
def path (s : State) (value : String) : Except ArgumentError State :=
  match s.pending with
  | some ⟨.paths, values⟩ => .ok { s with pending := some ⟨.paths, values ++ [value]⟩ }
  | _ => do
    let s ← s.settle
    .ok { s with pending := some ⟨.paths, [value]⟩ }

/-- Takes an argument that is no option: the value of the option before it, or a path. -/
def plain (s : State) (value : String) : Except ArgumentError State :=
  match s.needsValue, s.pending with
  | true, some pending =>
    .ok { s with
      pending := some { pending with values := pending.values ++ [value] }, needsValue := false }
  | _, _ => s.path value

/-- Takes the next argument. -/
def next (s : State) (arg : String) : Except ArgumentError State :=
  if s.onlyPaths then s.path arg
  else
    match arg.toList with
    | ['-', '-'] => .ok { s with onlyPaths := true }
    | '-' :: '-' :: text =>
      let name := text.takeWhile (· != '=')
      let value := match text.dropWhile (· != '=') with
        | [] => none
        | _ :: rest => some (String.ofList rest)
      s.long (String.ofList name) value
    | '-' :: letter :: _ => s.short letter
    | _ => s.plain arg

end State

/-- Reads arguments from left to right. -/
def Arguments.parse (args : List String) : Except ArgumentError Arguments := do
  let s ← args.foldlM State.next {}
  let s ← s.settle
  .ok s.args

end GoOutline.Command
