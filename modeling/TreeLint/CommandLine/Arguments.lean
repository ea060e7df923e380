/-
TreeLint/CommandLine/Arguments.lean

What a command line asks for.  Options stand before or after the command;
some belong to every command, others to one.

* `--name value`, `--name=value`, `-n value`, `-nvalue` and `-n=value` give an
  option its value, and several short options can share one dash.
* A value does not start with a dash, unless it is the dash alone.
* An option is given once before the command and once after it at most, and
  then the one after it counts.  Lists of rules can be given more often; they
  are separated by commas.
* After `--` nothing is read as an option.

Arguments are read from left to right, and the first fault, or the first call
for help or for the version, ends the reading.
-/
import TreeLint.Config.Basic

namespace TreeLint.CommandLine

/-- An option. -/
inductive Switch where
  | config | verbose | noColor | jobs | disable | select
  | format | timing | exitZero
  | riskyFixes | diff | showFixes | output
  | json
  | help | version
  deriving DecidableEq, Repr

namespace Switch

/-- The name after two dashes. -/
def long : Switch → String
  | config => "config"
  | verbose => "verbose"
  | noColor => "no-color"
  | jobs => "jobs"
  | disable => "disable"
  | select => "select"
  | format => "format"
  | timing => "timing"
  | exitZero => "exit-zero"
  | riskyFixes => "unsafe-fixes"
  | diff => "diff"
  | showFixes => "show-fixes"
  | output => "output"
  | json => "json"
  | help => "help"
  | version => "version"

/-- The letter after one dash. -/
def short? : Switch → Option Char
  | config => some 'c'
  | verbose => some 'v'
  | jobs => some 'j'
  | format => some 'f'
  | output => some 'o'
  | help => some 'h'
  | version => some 'V'
  | _ => none

/-- Whether the option has a value. -/
def takesValue : Switch → Bool
  | config | jobs | disable | select | format | output => true
  | _ => false

/-- The options of every command. -/
def general : List Switch := [config, verbose, noColor, jobs, disable, select, help]

end Switch

/-- A command. -/
inductive Command where
  | check | fix | rules | explain
  deriving DecidableEq, Repr

namespace Command

instance : Named Command where
  all := [check, fix, rules, explain]
  name
    | check => "check"
    | fix => "fix"
    | rules => "rules"
    | explain => "explain"

/-- The options that only this command has. -/
def ownSwitches : Command → List Switch
  | check => [.format, .timing, .exitZero]
  | fix => [.riskyFixes, .diff, .showFixes, .output]
  | rules => [.json]
  | explain => []

/-- Whether a command with `count` operands takes one more. -/
def takesOperand : Command → (count : Nat) → Bool
  | check, _ => true
  | fix, _ => true
  | rules, _ => false
  | explain, count => count == 0

end Command

/-- What help can be called for: the program, a command, or help itself. -/
inductive Topic where
  | program
  | command (command : Command)
  | help
  deriving DecidableEq, Repr

/-- The options of the program before its command, or of a command. -/
def Topic.switches : Topic → List Switch
  | program => Switch.general ++ [.version]
  | command c => Switch.general ++ c.ownSwitches
  | help => []

/-- How an option is written: after one dash, or after two. -/
inductive Spelling where
  | short | long
  deriving DecidableEq, Repr

/-- Why there is nothing to run. -/
inductive Stop where
  | usage
  | help (topic : Topic) (spelling : Spelling)
  | version
  deriving DecidableEq, Repr

/-- What can be given for every command. -/
structure General where
  config : Option Path := none
  verbose : Bool := false
  noColor : Bool := false
  jobs : Option Nat := none
  disable : Option (List String) := none
  select : Option (List String) := none
  deriving DecidableEq, Repr, Inhabited

namespace General

/-- What is given before the command, and after it. -/
def followedBy (before after : General) : General where
  config := after.config <|> before.config
  verbose := before.verbose || after.verbose
  noColor := before.noColor || after.noColor
  jobs := after.jobs <|> before.jobs
  disable := after.disable <|> before.disable
  select := after.select <|> before.select

/-- What the settings are overridden with. -/
def overrides (g : General) : Config.Overrides where
  verbose := some g.verbose
  jobs := g.jobs
  disabled := g.disable
  enabled := g.select

end General

/-- What is given on one side of the command. -/
structure Given extends General where
  format : Option OutputFormat := none
  timing : Bool := false
  exitZero : Bool := false
  riskyFixes : Bool := false
  diff : Bool := false
  showFixes : Bool := false
  output : Option Path := none
  json : Bool := false
  operands : List String := []
  deriving DecidableEq, Repr, Inhabited

namespace Given

/-! ### Values -/

/-- A count below 2⁶⁴: digits, perhaps after a plus sign. -/
def count? (text : String) : Option Nat :=
  let digits := match text.toList with
    | '+' :: rest => rest
    | cs => cs
  if digits.isEmpty || !digits.all Char.isDigit then none
  else
    let n := digits.foldl (fun n c => n * 10 + (c.toNat - '0'.toNat)) 0
    if n < Nat.pow 2 64 then some n else none

/-- A path, which is not empty. -/
def path? (text : String) : Option Path :=
  if text.isEmpty then none else some ⟨text⟩

/-- The entries of a list. -/
def entries (text : String) : List String :=
  (Text.splitAt ',' text.toList).map String.ofList

/-! ### Giving options -/

/-- Raises a flag that is not up yet. -/
def raise (isUp : Bool) (raised : Given) : Except Stop Given :=
  if isUp then .error .usage else .ok raised

/-- Sets what is not set yet to a value that can be read. -/
def assign (old new : Option α) (set : α → Given) : Except Stop Given :=
  match old, new with
  | none, some value => .ok (set value)
  | _, _ => .error .usage

/-- Gives an option of the program or of a command. -/
def give (g : Given) (topic : Topic) (spelling : Spelling) (value : String) :
    Switch → Except Stop Given
  | .config => assign g.config (path? value) fun p => { g with config := some p }
  | .verbose => raise g.verbose { g with verbose := true }
  | .noColor => raise g.noColor { g with noColor := true }
  | .jobs => assign g.jobs (count? value) fun n => { g with jobs := some n }
  | .disable => .ok { g with disable := some (g.disable.getD [] ++ entries value) }
  | .select => .ok { g with select := some (g.select.getD [] ++ entries value) }
  | .format => assign g.format (Named.ofName? value) fun f => { g with format := some f }
  | .timing => raise g.timing { g with timing := true }
  | .exitZero => raise g.exitZero { g with exitZero := true }
  | .riskyFixes => raise g.riskyFixes { g with riskyFixes := true }
  | .diff => raise g.diff { g with diff := true }
  | .showFixes => raise g.showFixes { g with showFixes := true }
  | .output => assign g.output (path? value) fun p => { g with output := some p }
  | .json => raise g.json { g with json := true }
  | .help => .error (.help topic spelling)
  | .version => .error .version

/-- Gives an operand of a command. -/
def giveOperand (g : Given) (command : Command) (text : String) : Except Stop Given :=
  if command.takesOperand g.operands.length then .ok { g with operands := g.operands ++ [text] }
  else .error .usage

/-- Gives the option that follows two dashes; one whose value is still to come is left over. -/
def giveLong (g : Given) (topic : Topic) (text : List Char) :
    Except Stop (Given × Option Switch) :=
  let name := String.ofList (text.takeWhile (· != '='))
  match topic.switches.find? (·.long == name), text.dropWhile (· != '=') with
  | none, _ => .error .usage
  | some s, [] => if s.takesValue then .ok (g, some s) else (g.give topic .long "" s).map (·, none)
  | some s, _ :: value =>
    if s.takesValue then (g.give topic .long (String.ofList value) s).map (·, none)
    else .error .usage

/-- Gives the options that follow one dash; one whose value is still to come is left over. -/
def giveShorts (g : Given) (topic : Topic) : List Char → Except Stop (Given × Option Switch)
  | [] => .ok (g, none)
  | c :: rest =>
    match topic.switches.find? (·.short? == some c) with
    | none => .error .usage
    | some s =>
      if s.takesValue then
        match rest with
        | [] => .ok (g, some s)
        | '=' :: value => (g.give topic .short (String.ofList value) s).map (·, none)
        | value => (g.give topic .short (String.ofList value) s).map (·, none)
      else
        match g.give topic .short "" s with
        | .error e => .error e
        | .ok given => giveShorts given topic rest

end Given

/-! ### Arguments -/

/-- What an argument looks like. -/
inductive Shape where
  | endOfOptions
  | long (text : List Char)
  | shorts (letters : List Char)
  | plain
  deriving DecidableEq, Repr

/-- The look of an argument. -/
def shapeOf (arg : String) : Shape :=
  match arg.toList with
  | ['-', '-'] => .endOfOptions
  | '-' :: '-' :: text => .long text
  | '-' :: c :: rest => .shorts (c :: rest)
  | _ => .plain

/-- Reads what follows the command; `awaited` is the option whose value comes next. -/
def readCommand (command : Command) : (awaited : Option Switch) → Given → List String →
    Except Stop Given
  | none, g, [] => .ok g
  | some _, _, [] => .error .usage
  | some s, g, arg :: rest =>
    match shapeOf arg with
    | .plain =>
      match g.give (.command command) .long arg s with
      | .error e => .error e
      | .ok given => readCommand command none given rest
    | _ => .error .usage
  | none, g, arg :: rest =>
    match shapeOf arg with
    | .endOfOptions => rest.foldlM (·.giveOperand command) g
    | .long text =>
      match g.giveLong (.command command) text with
      | .error e => .error e
      | .ok (given, awaited) => readCommand command awaited given rest
    | .shorts letters =>
      match g.giveShorts (.command command) letters with
      | .error e => .error e
      | .ok (given, awaited) => readCommand command awaited given rest
    | .plain =>
      match g.giveOperand command arg with
      | .error e => .error e
      | .ok given => readCommand command none given rest

/-! ### Requests -/

/-- What a command is to do. -/
inductive Task where
  | check (patterns : List String) (format : Option OutputFormat) (timing exitZero : Bool)
  | fix (patterns : List String) (riskyFixes diff showFixes : Bool) (output : Option Path)
  | rules (json : Bool)
  | explain (rule : String)
  deriving DecidableEq, Repr

/-- What a command line asks for. -/
structure Request where
  general : General
  task : Task
  deriving DecidableEq, Repr

/-- The task of a command with what is given after it. -/
def taskOf (g : Given) : Command → Except Stop Task
  | .check =>
    if g.operands.isEmpty then .error .usage
    else .ok (.check g.operands g.format g.timing g.exitZero)
  | .fix =>
    if g.operands.isEmpty || (g.diff && g.showFixes) then .error .usage
    else .ok (.fix g.operands g.riskyFixes g.diff g.showFixes g.output)
  | .rules => .ok (.rules g.json)
  | .explain =>
    match g.operands with
    | [rule] => .ok (.explain rule)
    | _ => .error .usage

/-- A call for help, perhaps on a command, with what follows its word. -/
def helpOn : List String → Stop
  | [] => .help .program .long
  | ["help"] => .help .help .long
  | [name] =>
    match Named.ofName? name with
    | some command => .help (.command command) .long
    | none => .usage
  | _ => .usage

/-- Reads a command line up to its command, and then the rest of it. -/
def readRequest : (awaited : Option Switch) → Given → List String → Except Stop Request
  | _, _, [] => .error .usage
  | some s, g, arg :: rest =>
    match shapeOf arg with
    | .plain =>
      match g.give .program .long arg s with
      | .error e => .error e
      | .ok given => readRequest none given rest
    | _ => .error .usage
  | none, g, arg :: rest =>
    match shapeOf arg with
    | .endOfOptions => .error .usage
    | .long text =>
      match g.giveLong .program text with
      | .error e => .error e
      | .ok (given, awaited) => readRequest awaited given rest
    | .shorts letters =>
      match g.giveShorts .program letters with
      | .error e => .error e
      | .ok (given, awaited) => readRequest awaited given rest
    | .plain =>
      if arg == "help" then .error (helpOn rest)
      else
        match Named.ofName? arg with
        | none => .error .usage
        | some command => do
          let given ← readCommand command none {} rest
          return ⟨g.toGeneral.followedBy given.toGeneral, ← taskOf given command⟩

/-- What a command line asks for. -/
def Request.ofArguments (args : List String) : Except Stop Request :=
  readRequest none {} args

end TreeLint.CommandLine
