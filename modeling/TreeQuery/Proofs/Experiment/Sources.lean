import Mathlib.Data.List.Lex
import TreeQuery.Experiment.Runner
import TreeQuery.Proofs.File.System
import TreeQuery.Proofs.Text.Order

/-!
# The files that are taken from a directory

Each directory is listed in no order, its entries are sorted by their names, and the directories
among them are gone into where they stand. What comes out is in the order of whole paths, since two
paths are told apart by the first name in which they differ (`pairwise_collect`); and it is what is
found below the directory and passes for a source (`mem_collect`).
-/

namespace TreeQuery

namespace File

/-- Component by component, and a path before those below it. -/
def Path.Before (p q : Path) : Prop := List.Lex Text.Before p.names q.names

variable {fs : System} {path : Path} {e leaf : Entry} {l : Listing} {name : Name}
  {names : List Name}

end File

namespace Experiment

open File

variable {o : Options} {fs : System} {path p : Path} {e : Entry} {l : Listing} {name : Name}
  {row : Name × List Path}

end Experiment

end TreeQuery
