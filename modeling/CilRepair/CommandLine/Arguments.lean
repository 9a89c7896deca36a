import CilRepair.Decimal.Digits
import CilRepair.Text.Split

/-!
# Arguments

The options of the command line: long ones after two dashes, short ones after one, values behind an
option, behind an equals sign, or glued to a short option.

## Main definitions

* `ValueOption`, `Switch`: the options with and without a value.
* `Arguments`: what was given.
* `Invocation`: what the arguments ask for.
* `Invocation.ofArguments`: arguments are read from left to right, and the first that is an error or
  asks for the version or for help decides.
-/

namespace CilRepair

/-- The options that have a value. -/
inductive ValueOption
  | format | file | selection | output | seed
  deriving DecidableEq

/-- The options that have none. -/
inductive Switch
  | recomputeMaxStack | pretty | json | listStages | verbose | version | help
  deriving DecidableEq

namespace ValueOption

/-- The long name of an option. -/
def ofLong? (name : String) : Option ValueOption :=
  match name with
  | "type" => some format
  | "file" => some file
  | "options" => some selection
  | "output" => some output
  | "seed" => some seed
  | _ => none

/-- The short name of an option. -/
def ofShort? (name : Char) : Option ValueOption :=
  match name with
  | 't' => some format
  | 'f' => some file
  | 'p' => some selection
  | 'o' => some output
  | _ => none

end ValueOption

namespace Switch

/-- The long name of an option. -/
def ofLong? (name : String) : Option Switch :=
  match name with
  | "recompute-max-stack" => some recomputeMaxStack
  | "pretty" => some pretty
  | "json" => some json
  | "list-stages" => some listStages
  | "verbose" => some verbose
  | "version" => some version
  | "help" => some help
  | _ => none

/-- The short name of an option. -/
def ofShort? (name : Char) : Option Switch :=
  match name with
  | 'v' => some verbose
  | 'V' => some version
  | 'h' => some help
  | _ => none

end Switch

/-- **What was given on the command line.** -/
structure Arguments where
  format : Option String := none
  file : Option String := none
  selection : Option String := none
  output : Option String := none
  seed : Option UInt64 := none
  switches : List Switch := []
  deriving DecidableEq

/-- **What the arguments ask for.** -/
inductive Invocation
  | run (arguments : Arguments)
  | version
  | help
  | misuse
  deriving DecidableEq

/-- What is known after a part of the arguments: the options so far, an option that waits for its
value, or the decision. -/
inductive Reading
  | going (arguments : Arguments)
  | waiting (option : ValueOption) (arguments : Arguments)
  | decided (invocation : Invocation)

/-- A number of 64 bits: digits, after a plus sign or none. -/
def seed? (text : String) : Option UInt64 :=
  let cs := match text.toList with
    | '+' :: rest => rest
    | cs => cs
  match cs.mapM Digit.ofChar? with
  | some (d :: digits) =>
    let value := ofDecimal (d :: digits)
    if value < UInt64.size then some (UInt64.ofNat value) else none
  | _ => none

namespace Arguments

variable (a : Arguments)

/-- The option was given. -/
def has (switch : Switch) : Bool := a.switches.contains switch

/-- A text that may be given once. -/
def once (previous : Option String) (next : Arguments) : Reading :=
  if previous.isSome then .decided .misuse else .going next

/-- **An option with its value.** It may be given once, a path may not be empty, and a seed has to
be a number. -/
def set (option : ValueOption) (value : String) : Reading :=
  match option with
  | .format => once a.format { a with format := some value }
  | .file =>
    if value.isEmpty then .decided .misuse else once a.file { a with file := some value }
  | .selection => once a.selection { a with selection := some value }
  | .output =>
    if value.isEmpty then .decided .misuse else once a.output { a with output := some value }
  | .seed =>
    match a.seed, seed? value with
    | none, some seed => .going { a with seed := some seed }
    | _, _ => .decided .misuse

/-- **An option without value.** -/
def turnOn (switch : Switch) : Reading :=
  match switch with
  | .version => .decided .version
  | .help => .decided .help
  | _ =>
    if a.has switch then .decided .misuse
    else .going { a with switches := switch :: a.switches }

/-- **Short options behind one dash.** An option with a value takes the rest as its value. -/
def readShort (a : Arguments) : List Char → Reading
  | [] => .going a
  | c :: cs =>
    match Switch.ofShort? c, ValueOption.ofShort? c with
    | some switch, _ =>
      match a.turnOn switch with
      | .going a => readShort a cs
      | reading => reading
    | none, some option =>
      match cs with
      | [] => .waiting option a
      | '=' :: value => a.set option (String.ofList value)
      | value => a.set option (String.ofList value)
    | none, none => .decided .misuse

/-- **A long option behind two dashes.** -/
def readLong (text : List Char) : Reading :=
  let name := String.ofList (text.takeWhile (· != '='))
  let value? := match text.dropWhile (· != '=') with
    | _ :: value => some (String.ofList value)
    | [] => none
  match ValueOption.ofLong? name, Switch.ofLong? name, value? with
  | some option, _, some value => a.set option value
  | some option, _, none => .waiting option a
  | none, some switch, none => a.turnOn switch
  | _, _, _ => .decided .misuse

/-- One argument. An argument that is no option is an error. -/
def readOne (argument : String) : Reading :=
  match argument.toList with
  | '-' :: '-' :: text => a.readLong text
  | '-' :: c :: cs => a.readShort (c :: cs)
  | _ => .decided .misuse

end Arguments

/-- The argument cannot be the value of the option before it. -/
def looksLikeOption (argument : String) : Bool :=
  startsWithText "-" argument && argument != "-"

namespace Invocation

/-- What the arguments ask for, given those that have been read. -/
def read (a : Arguments) : List String → Invocation
  | [] => .run a
  | ["--"] => .run a
  | argument :: rest =>
    match a.readOne argument with
    | .going a => read a rest
    | .decided invocation => invocation
    | .waiting option a =>
      match rest with
      | value :: rest =>
        if looksLikeOption value then .misuse
        else match a.set option value with
          | .going a => read a rest
          | .decided invocation => invocation
          | .waiting _ _ => .misuse
      | [] => .misuse

/-- **What the arguments ask for.** -/
def ofArguments (arguments : List String) : Invocation := read {} arguments

end Invocation

end CilRepair
