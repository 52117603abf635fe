/-!
# Files

A workspace is the directory a run works in: texts under names. A name may
lead through directories, which exist as far as there are files in them.
-/

namespace SlopeField

inductive FileError where
  | notFound
  deriving BEq, DecidableEq, Repr

def FileError.message : FileError → String
  | notFound => "No such file or directory (os error 2)"

/-- The parts of a name, without those that stay in the same directory. -/
def pathParts (name : String) : List String :=
  (name.splitOn "/").filter fun part => part != "" && part != "."

structure Workspace where
  files : List (List String × String) := []

namespace Workspace

def ofFiles (files : List (String × String)) : Workspace :=
  ⟨files.map fun (name, content) => (pathParts name, content)⟩

def read? (w : Workspace) (name : String) : Option String :=
  w.files.lookup (pathParts name)

def hasDirectory (w : Workspace) (path : List String) : Bool :=
  path.isEmpty || w.files.any fun (file, _) => path.isPrefixOf file && path != file

def write (w : Workspace) (name content : String) : Except FileError Workspace :=
  let path := pathParts name
  if !name.startsWith "/" && !path.isEmpty && w.hasDirectory path.dropLast then
    .ok ⟨(path, content) :: w.files⟩
  else .error .notFound

end Workspace

end SlopeField
