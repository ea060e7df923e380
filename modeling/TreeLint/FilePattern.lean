/-
TreeLint/FilePattern.lean

Patterns that name files.  `?` stands for one character, `*` for any number of
them, and `[…]` or `[!…]` for one of, or none of, the listed characters and
ranges.  A component `**` stands for any number of directories.  No wildcard
crosses a separator.

`FilePattern.expand` lists what a pattern names, each directory's entries in
the order of their names.  A component without wildcards is looked up rather
than searched for.
-/
import TreeLint.FileTree

namespace TreeLint

/-- What is wrong with a pattern, and at which character. -/
inductive PatternError where
  | wildcards (position : Nat)
  | recursiveWildcards (position : Nat)
  | range (position : Nat)
  deriving DecidableEq, Repr

/-- The message shown for the error. -/
def PatternError.message : PatternError → String
  | wildcards n => located n "wildcards are either regular `*` or recursive `**`"
  | recursiveWildcards n => located n "recursive wildcards must form a single path component"
  | range n => located n "invalid range pattern"
where
  /-- The message with its position. -/
  located (position : Nat) (what : String) : String :=
    "Pattern syntax error near position " ++ toString position ++ ": " ++ what

namespace FilePattern

/-- One character or a range of them, the last included. -/
inductive CharSet where
  | single (c : Char)
  | range (first last : Char)
  deriving DecidableEq, Repr

/-- Whether a set has a character. -/
def CharSet.contains : CharSet → Char → Bool
  | single d, c => c == d
  | range first last, c => first ≤ c && c ≤ last

/-- A piece of a pattern. -/
inductive Token where
  | char (c : Char)
  | anyChar
  | anySequence
  | anyDirectories
  | within (sets : List CharSet)
  | except (sets : List CharSet)
  deriving DecidableEq, Repr

/-! ### Reading patterns -/

/-- The sets between brackets. -/
def charSets : List Char → List CharSet
  | a :: '-' :: b :: rest => .range a b :: charSets rest
  | a :: rest => .single a :: charSets rest
  | [] => []

/-- What stands before a closing bracket, at least one character, and what follows it. -/
def bracketed? : List Char → Option (List Char × List Char)
  | [] => none
  | first :: rest =>
    match rest.dropWhile (· != ']') with
    | [] => none
    | _ :: after => some (first :: rest.takeWhile (· != ']'), after)

/-- The token that follows an opening bracket, and what follows it. -/
def class? : List Char → Option (Token × List Char)
  | '!' :: rest => (bracketed? rest).map fun (body, after) => (.except (charSets body), after)
  | rest => (bracketed? rest).map fun (body, after) => (.within (charSets body), after)

/-- What follows a bracket is shorter than what stood there. -/
theorem length_bracketed_lt {cs body after : List Char} (h : bracketed? cs = some (body, after)) :
    after.length < cs.length := by
  cases cs with
  | nil => simp [bracketed?] at h
  | cons first rest =>
    have hle : (rest.dropWhile (· != ']')).length ≤ rest.length :=
      (List.dropWhile_sublist _).length_le
    simp only [bracketed?] at h
    split at h
    · simp at h
    · rename_i hd
      rw [hd] at hle
      simp only [Option.some.injEq, Prod.mk.injEq] at h
      simp only [List.length_cons] at hle ⊢
      rw [← h.2]
      omega

/-- What follows a class is shorter than what stood there. -/
theorem length_class_lt {cs after : List Char} {t : Token} (h : class? cs = some (t, after)) :
    after.length < cs.length := by
  unfold class? at h
  split at h
  · obtain ⟨⟨body, rest⟩, hb, he⟩ := Option.map_eq_some_iff.1 h
    have := length_bracketed_lt hb
    simp only [Prod.mk.injEq] at he
    rw [← he.2, List.length_cons]
    omega
  · obtain ⟨⟨body, rest⟩, hb, he⟩ := Option.map_eq_some_iff.1 h
    have := length_bracketed_lt hb
    simp only [Prod.mk.injEq] at he
    rw [← he.2]
    omega

/-- Reads a pattern from character number `position` on; `atStart` says whether a component
starts there.  A `**` that stands for directories takes the separator after it. -/
def readTokens (position : Nat) (atStart : Bool) : List Char → Except PatternError (List Token)
  | [] => .ok []
  | '?' :: rest => (readTokens (position + 1) false rest).map (.anyChar :: ·)
  | '*' :: '*' :: '*' :: _ => .error (.wildcards (position + 2))
  | '*' :: '*' :: rest =>
    if atStart then
      match rest with
      | [] => .ok [.anyDirectories]
      | '/' :: more => (readTokens (position + 3) true more).map (.anyDirectories :: ·)
      | _ => .error (.recursiveWildcards (position + 2))
    else .error (.recursiveWildcards (position - 1))
  | '*' :: rest => (readTokens (position + 1) false rest).map (.anySequence :: ·)
  | '[' :: rest =>
    match h : class? rest with
    | none => .error (.range position)
    | some (token, more) =>
      have := length_class_lt h
      (readTokens (position + 1 + (rest.length - more.length)) false more).map (token :: ·)
  | c :: rest => (readTokens (position + 1) (c == '/') rest).map (.char c :: ·)
termination_by cs => cs.length

/-- Reads a pattern. -/
def parse (text : String) : Except PatternError (List Token) :=
  readTokens 0 true text.toList

/-- The pattern of each component.  The whole is read first, so that its faults come before those
of a component. -/
def parseComponents (text : String) : Except PatternError (List (List Token)) := do
  let _ ← parse text
  let pieces := Text.splitAt '/' text.toList
  let pieces := if text.toList.head? = some '/' then pieces.drop 1 else pieces
  let pieces := if pieces.getLast? = some [] then pieces.dropLast else pieces
  let tokens ← pieces.mapM (readTokens 0 true)
  return if text.isEmpty || text == "/" then [[]] else tokens

/-! ### Matching -/

/-- Whether tokens stand for a name as a whole. -/
def matchesName : List Token → List Char → Bool
  | [], cs => cs.isEmpty
  | .anySequence :: ts, [] => matchesName ts []
  | .anySequence :: ts, c :: cs => matchesName ts (c :: cs) || matchesName (.anySequence :: ts) cs
  | .anyDirectories :: ts, cs => matchesName ts cs
  | _ :: _, [] => false
  | .char d :: ts, c :: cs => c == d && matchesName ts cs
  | .anyChar :: ts, _ :: cs => matchesName ts cs
  | .within sets :: ts, c :: cs => sets.any (·.contains c) && matchesName ts cs
  | .except sets :: ts, c :: cs => !sets.any (·.contains c) && matchesName ts cs
termination_by ts cs => (ts.length, cs.length)

/-- The character that a token always stands for. -/
def Token.char? : Token → Option Char
  | char c => some c
  | _ => none

/-- The text that tokens without wildcards stand for. -/
def literal? (tokens : List Token) : Option String :=
  (tokens.mapM Token.char?).map String.ofList

/-- Whether tokens stand for any number of directories. -/
def isRecursive (tokens : List Token) : Bool := tokens == [.anyDirectories]

/-! ### Expanding -/

/-- The path of names found from a directory; the working directory is not written. -/
def pathBelow (p : Path) (names : String) : Path :=
  if p.same ⟨"."⟩ then ⟨names⟩ else p.join ⟨names⟩

/-- The entries `..` and `.` of a directory, as far as a pattern that starts with a dot names
them. -/
def dotEntries (pattern : List Token) (p : Path) : List Path :=
  match pattern with
  | .char '.' :: _ =>
    ([[ '.', '.' ], [ '.' ]].filter (matchesName pattern)).map fun name =>
      p.join ⟨String.ofList name⟩
  | _ => []

/-- Patterns of components in which no `**` follows another. -/
def collapse : List (List Token) → List (List Token)
  | p :: q :: rest =>
    if isRecursive p && isRecursive q then collapse (q :: rest) else p :: collapse (q :: rest)
  | patterns => patterns

/-- What patterns of components name from a place on.  `onlyDirectories` is for a pattern that ends
with a separator.  Below a `**` an entry is compared with the pattern that follows; if none does,
the directories are named. -/
def expandFrom (t : FileTree) (onlyDirectories : Bool) : List (List Token) → Path → List Path
  | [], p => if onlyDirectories && !t.isDirectory p then [] else [p]
  | pattern :: rest, p =>
    match literal? pattern with
    | some name =>
      let next := pathBelow p name
      let found := if name == "." || name == ".." then t.isDirectory p else t.exists? next
      if found then expandFrom t onlyDirectories rest next else []
    | none =>
      if !t.isDirectory p then []
      else if isRecursive pattern then
        (t.below p).flatMap fun names =>
          let entry := pathBelow p ("/".intercalate names)
          match rest with
          | [] => if t.isDirectory entry then [entry] else []
          | next :: more =>
            if matchesName next (names.getLastD "").toList then
              expandFrom t onlyDirectories more entry
            else []
      else
        (dotEntries pattern p).flatMap (expandFrom t onlyDirectories rest)
          ++ ((t.children p).filter fun name => matchesName pattern name.toList).flatMap
            fun name => expandFrom t onlyDirectories rest (pathBelow p name)
termination_by patterns => patterns.length

/-- The places that a pattern names. -/
def expand (t : FileTree) (text : String) : Except PatternError (List Path) := do
  let patterns ← parseComponents text
  let start : Path := if text.toList.head? = some '/' then ⟨"/"⟩ else ⟨"."⟩
  return expandFrom t (text.toList.getLast? == some '/') (collapse patterns) start

end FilePattern

end TreeLint
