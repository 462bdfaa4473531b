import SkhuOS.FS.WriteBacks

/-! What failing transfers do to other files, and what the operations then report. The
results of most transfers are dropped, so that a stale buffer can be written back and a write
that failed can pass for one that did not. -/
namespace SkhuOS
open Foundation

namespace FileSystem

variable {fs fs' : FileSystem} {op : Operation} {fileName : CString} {buffer : Bytes}
  {c d i j k x : ℕ} {size : ℤ}

end FileSystem
end SkhuOS
