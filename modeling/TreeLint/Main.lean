/-
TreeLint/Main.lean

The program.  It reads the files that a command line can reach, runs the
command on them, and carries out what came of it.

Two kinds of files are read: configuration files with all they build on, and
what stands where the wildcards of a pattern can lead.  The content of a file
is read only if its name fits.
-/
import TreeLint.CommandLine.Run

namespace TreeLint.Program

open CommandLine
open FileTree (placeOf)

/-! ### Places -/

/-- The places on the way along components, the last one included. -/
def wayAlong (start : List String) (components : List Component) : List (List String) :=
  (List.range (components.length + 1)).map fun n => placeOf start (components.take n)

/-- Whether a component has wildcards. -/
def isWild (c : Component) : Bool :=
  (Path.componentText c).toList.any fun c => c == '*' || c == '?' || c == '['

/-- How far down `**` is followed. -/
def maxDepth : Nat := 64

/-! ### Reading -/

/-- Adds a file; one that was added before stays, unless there is content for it now. -/
def addFile (t : FileTree) (names : List String) : Option String → FileTree
  | some content => { t with files := (names, content) :: t.files }
  | none =>
    if (t.files.lookup names).isSome then t else { t with files := (names, "") :: t.files }

/-- Adds a configuration file, and those that it builds on. -/
def addConfig (t : FileTree) : (depth : Nat) → Path → IO FileTree
  | 0, _ => return t
  | depth + 1, path => do
    let content ← try some <$> IO.FS.readFile path.text catch _ => pure none
    match content with
    | none => return t
    | some content =>
      let t := addFile t (placeOf t.here path.components) (some content)
      let t := { t with
        directories := wayAlong t.here path.components.dropLast ++ t.directories }
      match Config.ofText (path.extension?.getD "") content with
      | .error _ => return t
      | .ok config =>
        let directory := path.parent?.getD ⟨"."⟩
        let others := config.inherits.filter fun entry => (Config.preset? entry).isNone
        others.foldlM (fun t entry => addConfig t depth (directory.join ⟨entry⟩)) t

/-- Adds what stands below a directory; the content of a file is read if its name is wanted. -/
def addBelow (wanted : String → Bool) (t : FileTree) (names : List String) :
    (depth : Nat) → IO FileTree
  | 0 => return t
  | depth + 1 => do
    let place := (← IO.currentDir) / ("/" ++ "/".intercalate names)
    let entries ← try place.readDir catch _ => pure #[]
    entries.foldlM (fun t entry => do
      let names := names ++ [entry.fileName]
      if ← entry.path.isDir then
        addBelow wanted { t with directories := names :: t.directories } names depth
      else
        let content ← if wanted entry.fileName then
            try some <$> IO.FS.readFile entry.path catch _ => pure none
          else pure none
        return addFile t names content) t

/-- Adds what a pattern can lead to: what stands on the way to its first wildcard, and what stands
below that. -/
def addPattern (t : FileTree) (pattern : String) : IO FileTree := do
  let components := (Path.mk pattern).components
  let literal := (components.takeWhile (!isWild ·)).take (components.length - 1)
  let wanted (name : String) : Bool :=
    match FilePattern.parseComponents pattern with
    | .error _ => false
    | .ok patterns => FilePattern.matchesName (patterns.getLastD []) name.toList
  let depth := if components.contains (.name "**") then maxDepth
    else components.length - literal.length
  let t ← (wayAlong t.here literal).dropLast.foldlM (addBelow (fun _ => false) · · 1) t
  addBelow wanted t (placeOf t.here literal) depth

/-- The files that a request can reach. -/
def reach (here : List String) (home : Option Path) (request : Request) : IO FileTree := do
  let patterns := match request.task with
    | .check patterns _ _ _ => patterns
    | .fix patterns _ _ _ output => patterns ++ output.toList.map Path.text
    | _ => []
  if patterns.isEmpty then return { here }
  let configs := match request.general.config with
    | some path => [path]
    | none => Config.candidates (⟨"."⟩ :: home.toList)
  let t ← configs.foldlM (addConfig · Config.maxDepth ·) { here }
  patterns.foldlM addPattern t

/-- Whether output is coloured unless settings say otherwise: on a terminal, and as the environment
wants it. -/
def wantsColor : IO Bool := do
  if (← IO.getEnv "CLICOLOR_FORCE").any (· != "0") then return true
  if (← IO.getEnv "NO_COLOR").isSome then return false
  return (← (← IO.getStdout).isTty) && (← IO.getEnv "CLICOLOR") != some "0"

/-! ### Running -/

/-- Writes the files of an outcome. -/
def writeFiles (outcome : CommandLine.Outcome) : IO Unit :=
  outcome.written.forM fun (path, text) => do
    match path.parent? with
    | some parent => if parent.text != "" then IO.FS.createDirAll parent.text
    | none => pure ()
    IO.FS.writeFile path.text text

/-- Runs the program with its arguments; the result is its exit code. -/
def run (args : List String) : IO UInt32 := do
  let here := placeOf [] (Path.mk (← IO.currentDir).toString).components
  let home := (← IO.getEnv "HOME").map Path.mk
  let files ← match Request.ofArguments args with
    | .ok request => reach here home request
    | .error _ => pure { here }
  let colored ← wantsColor
  let start ← IO.monoNanosNow
  let outcome ← IO.lazyPure fun _ => CommandLine.run { files, home, colored } args
  let elapsed := (← IO.monoNanosNow) - start
  outcome.output.forM fun piece => IO.print (piece.render elapsed)
  IO.eprint outcome.messages
  try
    writeFiles outcome
    return outcome.code.toUInt32
  catch e =>
    IO.eprintln ("error: " ++ toString e)
    return 2

end TreeLint.Program

/-- The program. -/
def main (args : List String) : IO UInt32 :=
  TreeLint.Program.run args
