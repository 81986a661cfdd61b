/-!
Paths of files, and a directory to find them in.
-/

namespace ExprLang.Console

/-- A path: where it starts, and the steps from there. -/
structure Path where
  root : String
  steps : List String
deriving DecidableEq, Repr

namespace Path

/-- Two slashes in front are a root of their own; empty steps and single dots lead nowhere. -/
def ofString (text : String) : Path :=
  let slashes := (text.toList.takeWhile (· = '/')).length
  { root := if slashes = 0 then "" else if slashes = 2 then "//" else "/"
    steps := (text.splitOn "/").filter fun step => step ≠ "" && step ≠ "." }

def text (path : Path) : String :=
  if path.root = "" && path.steps.isEmpty then "."
  else path.root ++ "/".intercalate path.steps

end Path

/-- A directory: the texts of the files in it and below, by path. -/
structure Directory where
  files : List (Path × String)

namespace Directory

def hasBelow (d : Directory) (steps : List String) : Bool :=
  d.files.any fun file => steps.isPrefixOf file.1.steps && steps.length < file.1.steps.length

/-- The steps with each `..` carried out; `passed` holds those already taken, the last first. -/
def resolve (d : Directory) (passed : List String) : List String → Option (List String)
  | [] => some passed.reverse
  | step :: steps =>
    if step = ".." then
      match passed with
      | [] => none
      | _ :: before => if d.hasBelow passed.reverse then d.resolve before steps else none
    else d.resolve (step :: passed) steps

def read (d : Directory) (path : Path) : Option String := do
  if path.root = "" then
    let steps ← d.resolve [] path.steps
    let file ← d.files.find? fun file => file.1 = { root := "", steps }
    return file.2
  else none

end Directory

end ExprLang.Console
