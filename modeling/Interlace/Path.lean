import Interlace.Text.Basic

/-!
# Paths

Slash-separated paths. A path is compared by its components: repeated slashes and inner `.`
pieces do not count, and `..` is a component like any other. What is left of a path is given
back as it was spelled, without the slashes and `.` pieces at its ends.
-/

namespace Interlace.Path

/-- A step of a path. -/
inductive Component where
  | root
  | current
  | parent
  | normal (name : Text)
  deriving DecidableEq, Repr

/-- The slash. -/
def slash : UInt8 := 0x2F

/-- The path starts at the root. -/
def isAbsolute : Text → Bool
  | 0x2F :: _ => true
  | _ => false

/-- A piece that is no step. -/
def isIdle (piece : Text) : Bool :=
  piece = [] || piece = "."

/-- The step that a piece stands for. -/
def stepOf (piece : Text) : Component :=
  if piece = ".." then .parent else .normal piece

/-- The pieces between slashes; of an absolute path, those after the first slash. -/
def pieces : Text → List Text
  | 0x2F :: t => Text.splitWhere (· = slash) t
  | t => Text.splitWhere (· = slash) t

/-- A leading step that is no piece of the body: the root, or a `.` at the very start. -/
def leading (t : Text) : List Component :=
  if isAbsolute t then [.root]
  else if (pieces t).head? = some "." then [.current]
  else []

/-- The steps of a path. -/
def components (t : Text) : List Component :=
  leading t ++ ((pieces t).filter (! isIdle ·)).map stepOf

/-- The last component, if it is a name. -/
def fileName? (t : Text) : Option Text :=
  match (components t).getLast? with
  | some (.normal name) => some name
  | _ => none

/-- Drops idle pieces from both ends. -/
def trimIdle (l : List Text) : List Text :=
  ((l.dropWhile isIdle).reverse.dropWhile isIdle).reverse

/-- Drops the first `n` pieces that are steps, with the idle ones before each. -/
def dropSteps : Nat → List Text → List Text
  | 0, l => l
  | _ + 1, [] => []
  | n + 1, piece :: l => if isIdle piece then dropSteps (n + 1) l else dropSteps n l

/-- The path without idle pieces at its end. -/
def trimmedEnd (t : Text) : Text :=
  let body := ((pieces t).reverse.dropWhile isIdle).reverse
  if isAbsolute t then slash :: Text.join [slash] body
  else if (pieces t).head? = some "." ∧ body = [] then "."
  else Text.join [slash] body

/-- What follows `base` in `path`, when the components of `base` lead those of `path`. -/
def stripBase? (base path : Text) : Option Text :=
  let steps := components base
  if steps.isPrefixOf (components path) then
    if steps = [] then some (trimmedEnd path)
    else
      let body := dropSteps (steps.length - (leading path).length) (pieces path)
      some (Text.join [slash] (trimIdle body))
  else none

/-- Drops the last piece that is a step, and what idles after it. -/
def dropLastStep (l : List Text) : List Text :=
  (dropSteps 1 l.reverse).reverse

/-- The path without its last component; the root and the empty path have no parent. -/
def parent? (t : Text) : Option Text :=
  match (components t).getLast? with
  | none => none
  | some .root => none
  | some .current => some []
  | some _ =>
    let body := ((dropLastStep (pieces t)).reverse.dropWhile isIdle).reverse
    if isAbsolute t then some (slash :: Text.join [slash] body)
    else if (pieces t).head? = some "." ∧ body = [] then some "."
    else some (Text.join [slash] body)

/-- `path` seen from `directory`; an absolute path is seen as itself. -/
def join (directory path : Text) : Text :=
  if isAbsolute path then path
  else if directory = [] then path
  else if Text.endsWith directory "/" then directory ++ path
  else directory ++ "/" ++ path

/-- A path that cannot be used as asked. -/
inductive Fault where
  | noFileName (path : Text)
  | notUnder (path root : Text)
  deriving DecidableEq, Repr

/-- The wording of a fault. -/
def Fault.message : Fault → Text
  | noFileName path => "'" ++ path ++ "' has no file name"
  | notUnder path root => "'" ++ path ++ "' is not under '" ++ root ++ "': prefix not found"

/-- Where the woven form of a file goes: over the file itself, or under its own name into the
output directory. -/
def shadow (source : Text) (outputDir : Option Text) : Except Fault Text :=
  match outputDir with
  | none => .ok source
  | some dir =>
    match fileName? source with
    | some name => .ok (join dir name)
    | none => .error (.noFileName source)

end Interlace.Path
