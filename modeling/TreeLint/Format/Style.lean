/-
TreeLint/Format/Style.lean

Colours and emphasis on a terminal: a text between the codes that switch its
style on and back off.  Where the text itself switches styles off, its own
style is switched on again.
-/

namespace TreeLint

/-- A style of text on a terminal. -/
inductive Style where
  | bold | boldRed | boldYellow | blue | cyan | green | red | yellow | underline | dimmed
  deriving DecidableEq, Repr

namespace Style

/-- The parameters of the code that switches the style on. -/
def parameters : Style → String
  | bold => "1"
  | boldRed => "1;31"
  | boldYellow => "1;33"
  | blue => "34"
  | cyan => "36"
  | green => "32"
  | red => "31"
  | yellow => "33"
  | underline => "4"
  | dimmed => "2"

/-- The code that switches the style on. -/
def onCode (s : Style) : String := "\x1b[" ++ s.parameters ++ "m"

/-- The code that switches all styles off. -/
def offCode : String := "\x1b[0m"

/-- The text with `on` put in wherever styles are switched off. -/
def resume (on : List Char) : List Char → List Char
  | '\x1b' :: '[' :: '0' :: 'm' :: rest => '\x1b' :: '[' :: '0' :: 'm' :: (on ++ resume on rest)
  | c :: rest => c :: resume on rest
  | [] => []

/-- The text in the style, or as it is. -/
def paint (s : Style) (on : Bool) (text : String) : String :=
  if on then s.onCode ++ String.ofList (resume s.onCode.toList text.toList) ++ offCode
  else text

end Style

end TreeLint
