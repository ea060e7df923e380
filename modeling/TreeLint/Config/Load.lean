/-
TreeLint/Config/Load.lean

Loading settings from files.  A file may build on others: `extends` lists
presets by name and files by path, relative to the file that lists them.  The
result is the defaults, merged with each entry in turn and with the file
itself last.  A file without `extends` is taken as it is.

Inheritance may nest to a depth of ten files, so a file that builds on itself
is an error rather than a loop.
-/
import TreeLint.Config.Basic
import TreeLint.FileTree
import TreeLint.Glob.Set
import TreeLint.Json.Parser
import TreeLint.Yaml.Parser

namespace TreeLint

/-- Why settings cannot be loaded or used. -/
inductive ConfigError where
  | file (error : FileError)
  | yaml
  | json
  | glob (pattern : String) (fault : GlobFault)
  | globDepth (patterns : List String) (fault : Glob.DepthFault)
  | tooDeep
  | unknownFormat (extension : String)
  deriving DecidableEq, Repr

/-- What an error comes from, if it has a cause of its own. -/
def ConfigError.cause? : ConfigError → Option String
  | file e => some e.message
  | yaml => some Json.malformed
  | json => some Json.malformed
  | glob pattern fault => some ("error parsing glob '" ++ pattern ++ "': " ++ fault.message)
  | globDepth _ fault => some fault.message
  | tooDeep => none
  | unknownFormat _ => none

/-- The message shown for the error; it ends with the cause. -/
def ConfigError.message (e : ConfigError) : String :=
  (match e with
    | file _ => "IO error: "
    | yaml => "YAML parse error: "
    | json => "JSON parse error: "
    | glob pattern _ => "Invalid glob pattern '" ++ pattern ++ "': "
    | globDepth patterns _ => "Invalid glob pattern '" ++ ",".intercalate patterns ++ "': "
    | tooDeep => "Invalid configuration: Maximum config inheritance depth exceeded"
    | unknownFormat ext => "Invalid configuration: Unknown config file format: " ++ ext)
    ++ e.cause?.getD ""

namespace Config

/-- The names of configuration files, in the order in which they are looked for. -/
def fileNames : List String := [".sharpcheck.yaml", ".sharpcheck.yml", ".sharpcheck.json"]

/-- The greatest number of files on a chain of inheritance. -/
def maxDepth : Nat := 10

/-- Reads the content of a file in the format that its extension names. -/
def ofText (extension content : String) : Except ConfigError Config :=
  match extension with
  | "yaml" | "yml" => ((Yaml.parse content).bind ofYaml?).elim (.error .yaml) .ok
  | "json" =>
    match Json.parse content with
    | (v, ended) => if ended then (ofJson? v).elim (.error .json) .ok else .error .json
  | ext => .error (.unknownFormat ext)

/-- Loads a file with at most `depth` files on a chain of inheritance. -/
def loadWithin (tree : FileTree) : (depth : Nat) → Path → Except ConfigError Config
  | 0, _ => .error .tooDeep
  | depth + 1, path => do
    let content ← (tree.read path).mapError .file
    let config ← ofText (path.extension?.getD "") content
    if config.inherits.isEmpty then return config
    let directory := path.parent?.getD ⟨"."⟩
    let base ← config.inherits.foldlM (fun base entry => do
      let extended ← match preset? entry with
        | some preset => .ok preset
        | none => loadWithin tree depth (directory.join ⟨entry⟩)
      return base.merge extended) ({} : Config)
    return base.merge config

/-- Loads a file. -/
def load (tree : FileTree) (path : Path) : Except ConfigError Config :=
  loadWithin tree maxDepth path

/-- Where configuration files are looked for in the given directories, in order. -/
def candidates (directories : List Path) : List Path :=
  directories.flatMap fun directory => fileNames.map fun name => directory.join ⟨name⟩

/-- Loads the first configuration file found in the given directories; without any, the
defaults. -/
def loadFrom (tree : FileTree) (directories : List Path) : Except ConfigError Config :=
  match (candidates directories).find? tree.exists? with
  | some path => load tree path
  | none => .ok {}

/-- The patterns for generated code. -/
def generatedGlobs (c : Config) : Except ConfigError (List Glob) := do
  let patterns := c.generatedCode.patterns
  let globs ← patterns.mapM fun pattern => (Glob.parse pattern).mapError (.glob pattern)
  match Glob.depthFault? globs with
  | some fault => .error (.globDepth patterns fault)
  | none => return globs

end Config

end TreeLint
