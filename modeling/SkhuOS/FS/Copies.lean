import Mathlib.Data.List.Find
import SkhuOS.FS.Faults

/-! What the operations find, told from the copies of the root directory they look at: the
disk's directory where a read succeeds, an old buffer where it fails. -/
namespace SkhuOS
open Foundation

namespace FileSystem

variable {fs : FileSystem} {fileName : CString} {copy : Bytes} {c d i j k : ℕ}

/-- The copy of the root directory behind the next read, failed or not. -/
def rootCopy (fs : FileSystem) (failed : Bool) : Bytes :=
  if failed then fs.buffer4096
  else copyBytes fs.buffer4096 0 fs.disk.data fs.rootAddress clusterSize

/-- The state in which `createFile` goes on with what it has taken. -/
def taken (fs : FileSystem) (d k : ℕ) : FileSystem :=
  { fs with
    disk := fs.disk.skip (k / linksPerSector + 3)
    buffer512 := (fs.atSearch.searchRead (k / linksPerSector)).buffer
    buffer4096 := fs.rootCopy (fs.disk.faults 0 && fs.disk.faults 1)
    bestIdx := fs.bestIdx + k + 1
    bestRootDirIdx := d }

end FileSystem
end SkhuOS
