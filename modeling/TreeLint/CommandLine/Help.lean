/-
TreeLint/CommandLine/Help.lean

What the program says about itself.  A page of help tells what the program or
one of its commands does, how it is called, and what can be given to it.

The options of every command and those of one command are listed together, by
their places in their own lists and, at the same place, by their letters or
names.  An option of the program spelt in full is for a detailed page, on
which each option has lines of its own.
-/
import TreeLint.CommandLine.Arguments
import TreeLint.CommandLine.Rules
import TreeLint.Text.Fixed

namespace TreeLint.CommandLine

/-- The name of the program. -/
def programName : String := "sharpcheck"

/-- The name and version of the program. -/
def versionText : String := programName ++ " 0.1.0\n"

namespace Help

/-! ### Pages -/

/-- Something that can be given, and what it is for. -/
structure Entry where
  label : String
  about : String
  deriving DecidableEq, Repr

/-- Entries under a heading.  Those of a stacked section have a line for what they are for, the
others have it beside them. -/
structure Section where
  heading : String
  entries : List Entry
  stacked : Bool := false
  deriving DecidableEq, Repr

/-- The lines of a section. -/
def Section.lines (s : Section) : List String :=
  let width := (s.entries.map (·.label.length)).foldl max 0
  (s.heading ++ ":") ::
    if s.stacked then
      List.intercalate [""] (s.entries.map fun e => ["  " ++ e.label, "          " ++ e.about])
    else
      s.entries.map fun e => "  " ++ Text.padRight width e.label ++ "  " ++ e.about

/-- A page of help. -/
structure Page where
  about : String
  usage : String
  sections : List Section
  deriving DecidableEq, Repr

/-- A page as it is shown. -/
def Page.text (p : Page) : String :=
  joinLines ([p.about, "", "Usage: " ++ p.usage] ++ p.sections.flatMap ("" :: ·.lines))

/-! ### What there is to say -/

/-- What a command does. -/
def commandAbout : Command → String
  | .check => "Analyze snapshots and report diagnostics"
  | .fix => "Apply code fixes to snapshots"
  | .rules => "List available rules"
  | .explain => "Show detailed information about a rule"

/-- What the command that calls for help does. -/
def helpAbout : String := "Print this message or the help of the given subcommand(s)"

/-- The operands of a command. -/
def operand? : Command → Option Entry
  | .check | .fix => some ⟨"<SNAPSHOTS>...", "Snapshot files or glob patterns"⟩
  | .rules => none
  | .explain => some ⟨"<RULE_ID>", "Rule ID or name to explain"⟩

/-- What an option does. -/
def switchAbout : Switch → String
  | .config => "Configuration file path"
  | .verbose => "Enable verbose output"
  | .noColor => "Disable colored output"
  | .jobs => "Number of parallel jobs (0 = auto)"
  | .disable => "Disable specific rules (comma-separated)"
  | .select => "Only enable specific rules (comma-separated)"
  | .format =>
    "Output format [possible values: "
      ++ ", ".intercalate ((Named.all : List OutputFormat).map Named.name) ++ "]"
  | .timing => "Show per-analyzer timing statistics"
  | .exitZero => "Exit with 0 even if diagnostics are found"
  | .riskyFixes => "Include unsafe fixes (may change code behavior)"
  | .diff => "Show diff of changes instead of the fixed text"
  | .showFixes => "Show all fixes that would be applied"
  | .output => "Write fixed sources under this directory"
  | .json => "Print descriptors as JSON"
  | .help => "Print help"
  | .version => "Print version"

/-- An option as it is listed: its letter, its name, and what its value is called. -/
def switchLabel (s : Switch) : String :=
  (match s.short? with
    | some c => String.ofList ['-', c, ',', ' ']
    | none => "    ")
    ++ "--" ++ s.long ++ (if s.takesValue then " <" ++ s.long.map Char.toUpper ++ ">" else "")

/-- What options at the same place are ordered by. -/
def sortKey (s : Switch) : String :=
  match s.short? with
  | some c => String.ofList [c]
  | none => s.long

/-- Two lists of options in one, by place and then by letter or name. -/
def interleaved (first second : List Switch) : List Switch :=
  ((first.zipIdx ++ second.zipIdx).mergeSort fun a b =>
    a.2 < b.2 || (a.2 == b.2 && !decide (sortKey b.1 < sortKey a.1))).map (·.1)

/-! ### Topics -/

/-- The section of the options of a command. -/
def commandOptions (command : Command) : Section where
  heading := "Options"
  entries := (interleaved Switch.general command.ownSwitches).map fun s =>
    ⟨switchLabel s, switchAbout s⟩

/-- The section of the options of the program.  The option for help tells how to get the other
page. -/
def programOptions (spelling : Spelling) : Section where
  heading := "Options"
  entries := Topic.program.switches.map fun s =>
    ⟨switchLabel s, match s, spelling with
      | .help, .short => "Print help (see more with '--help')"
      | .help, .long => "Print help (see a summary with '-h')"
      | s, _ => switchAbout s⟩
  stacked := spelling == .long

/-- The section of the commands. -/
def commands : Section where
  heading := "Commands"
  entries := (Named.all : List Command).map (fun c => ⟨Named.name c, commandAbout c⟩)
    ++ [⟨"help", helpAbout⟩]

/-- The page on a topic. -/
def page : Topic → Spelling → Page
  | .program, spelling =>
    { about := match spelling with
        | .short => "Analyzer and code-fix runner for C# syntax snapshots"
        | .long =>
          "Runs sharpcheck analyzers over JSON snapshots of syntax trees and symbol bindings "
            ++ "exported by a host compiler, and applies code fixes."
      usage := programName ++ " [OPTIONS] <COMMAND>"
      sections := [commands, programOptions spelling] }
  | .command c, _ =>
    let operands := (operand? c).toList
    { about := commandAbout c
      usage := " ".intercalate ([programName, Named.name c, "[OPTIONS]"] ++ operands.map (·.label))
      sections := operands.map (fun operand => { heading := "Arguments", entries := [operand] })
        ++ [commandOptions c] }
  | .help, _ =>
    let operand : Entry := ⟨"[COMMAND]...", "Print help for the subcommand(s)"⟩
    { about := helpAbout
      usage := " ".intercalate [programName, "help", operand.label]
      sections := [{ heading := "Arguments", entries := [operand] }] }

end Help

/-- What is said of a command line that cannot be read. -/
def usageText : String :=
  joinLines ["Usage: " ++ (Help.page .program .short).usage, "",
    "For more information, try '--help'."]

end TreeLint.CommandLine
