import MapChain.Chain.Error
import MapChain.Text.Split

/-!
# Reports of failures

A failed command says what it could not do and, below that, why. A single cause is
indented; several are numbered from zero. The lines of a cause that has more than one
stay below its first.
-/

namespace MapChain

/-- What could not be done, and the causes from the nearest on. -/
structure Report where
  context : String
  causes : List String := []
  deriving DecidableEq, Repr

namespace Report

/-- The causes that an error at a file stands for. A refusal is a cause of its own. -/
def causesOfFile (error : FileError) : List String :=
  match error.fault with
  | .refused cause => [error.message, cause.message]
  | _ => [error.message]

/-- The causes that an error stands for. -/
def causesOf : ChainError → List String
  | .file error => causesOfFile error
  | error => [error.message]

/-- A text below a heading, its further lines indented by `width`. -/
def hang (heading : List Char) (width : Nat) (text : String) : List Char :=
  heading ++
    List.intercalate ('\n' :: List.replicate width ' ') (Text.split '\n' text.toList)

/-- Numbered causes, each on a line of its own. -/
def numbered : (number : Nat) → List String → List Char
  | _, [] => []
  | number, cause :: rest =>
    let digits := Text.natural number
    let heading := List.replicate (5 - digits.length) ' ' ++ digits ++ [':', ' ']
    '\n' :: hang heading 7 cause ++ numbered (number + 1) rest

/-- The lines of a report, without a final line break. -/
def text (report : Report) : String :=
  let causes :=
    match report.causes with
    | [] => []
    | [cause] => "\n\nCaused by:\n".toList ++ hang (List.replicate 4 ' ') 4 cause
    | causes => "\n\nCaused by:".toList ++ numbered 0 causes
  "Error: " ++ report.context ++ String.ofList causes

end Report

end MapChain
