import SlopeField.Task

/-!
# Outcomes of a program

What a program prints, its exit code and the files it leaves, with the parts
that several outputs share.
-/

namespace SlopeField

structure Outcome where
  exit : Nat := 0
  stdout : String := ""
  stderr : String := ""
  workspace : Workspace := {}

namespace Outcome

def steps (steps : List Step) : String :=
  "\n".intercalate (steps.map Step.text) ++ "\n"

def journal (t : Task) (records : List Record) : String :=
  match t.verbosity with
  | .ok verbosity =>
    let shown := Trail.shown t (Trail.opening verbosity :: records)
    String.join (shown.map fun record => record.line ++ "\n")
  | .error _ => ""

end Outcome

end SlopeField
