/-
TreeLint/CommandLine/Rules.lean

Rules for people: the list of all rules, and everything about one of them.
-/
import TreeLint.Fix.Plan
import TreeLint.Format.Style
import TreeLint.Registry

namespace TreeLint.CommandLine

/-- A severity in its colour. -/
def severityText (colored : Bool) (s : Severity) : String :=
  let style : Style := match s with
    | .error => .red
    | .warning => .yellow
    | .info => .blue
  style.paint colored (Named.name s)

/-- The first built-in fix of a rule. -/
def fixOf? (r : Rule) : Option FixProvider :=
  builtinFixes.find? (·.canFix r.id)

/-- Texts as lines. -/
def joinLines (lines : List String) : String :=
  String.join (lines.map (· ++ "\n"))

/-- The lines of a rule in the list. -/
def ruleLines (colored : Bool) (r : Rule) : List String :=
  ["    " ++ Style.cyan.paint colored r.id ++ " " ++ r.name ++ " ["
      ++ severityText colored r.defaultSeverity ++ "] (" ++ Named.name r.category ++ ")"
      ++ (if r.enabledByDefault then "" else Style.dimmed.paint colored " [disabled]")
      ++ (if (fixOf? r).isSome then Style.green.paint colored " [fix]" else ""),
    "      " ++ r.title]

/-- The list of rules. -/
def rulesText (colored : Bool) (rules : List Rule) : String :=
  joinLines (Style.bold.paint colored "Available rules:" :: ""
    :: rules.flatMap (ruleLines colored))

/-- The lines of an example. -/
def exampleLines (colored : Bool) (kind : String) (style : Style) : Option String → List String
  | none => []
  | some text =>
    ["", "  " ++ Style.bold.paint colored "Example" ++ " " ++ style.paint colored kind]
      ++ (Text.entries text).map ("    " ++ ·)

/-- Everything about a rule. -/
def explanation (colored : Bool) (r : Rule) : String :=
  let bold := Style.bold.paint colored
  let item (name value : String) := "  " ++ bold name ++ ": " ++ value
  joinLines ([bold "Rule Details", "",
      item "ID" (Style.cyan.paint colored r.id),
      item "Name" r.name,
      item "Title" r.title,
      item "Severity" (severityText colored r.defaultSeverity),
      item "Category" (Named.name r.category),
      item "Enabled by default" (if r.enabledByDefault then "yes" else "no"),
      item "Message" r.messageFormat,
      "", "  " ++ bold "Description", "  " ++ r.description]
    ++ exampleLines colored "(incorrect)" .red r.exampleBad
    ++ exampleLines colored "(correct)" .green r.exampleGood
    ++ ((fixOf? r).map fun f =>
        ["", "  " ++ bold "Code Fix Available" ++ " (" ++ Named.name f.safety ++ ")"]).getD []
    ++ (r.helpLink.map fun link =>
        ["", item "Documentation" (Style.blue.paint colored link)]).getD [])

end TreeLint.CommandLine
