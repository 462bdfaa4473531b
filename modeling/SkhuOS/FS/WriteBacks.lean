import Mathlib.Data.Set.Lattice
import Mathlib.Order.CompletePartialOrder
import SkhuOS.Foundation.WriteBack
import SkhuOS.FS.Copies
import SkhuOS.FS.Isolation

/-! The transfers that change the disk: which buffers an operation writes back, and what it takes
that they change nothing they should not. -/
namespace SkhuOS
open Foundation

namespace FileSystem

variable {fs fs' : FileSystem} {op : Operation} {fileName : CString} {buffer : Bytes}
  {c d i j v x : ℕ} {size : ℤ}

end FileSystem
end SkhuOS
