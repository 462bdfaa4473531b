import SkhuOS.Common.String
import SkhuOS.Drivers.Disk

/-! The file system of `kernel/fs/FAT.c`: one root directory cluster, a table with one
entry for each cluster, files of one cluster. -/
namespace SkhuOS
open Foundation

def clusterSize : ℕ := 4096
def linkSize : ℕ := 4
def signatureFS : ℕ := 0x19990125
def bootLoaderSignature : ℕ := 0x55AA
def maxFileCount : ℕ := 128
def maxFileName : ℕ := clusterSize / maxFileCount - 8

/-- `SECTOR_SIZE/LINK_SIZE` and `CLUSTER_SIZE/SECTOR_SIZE`. -/
def linksPerSector : ℕ := sectorSize / linkSize
def sectorsPerCluster : ℕ := clusterSize / sectorSize

/-- Offsets of the fields in the packed `BootSector` and `FileInformation`. -/
def bootSignatureOffset : ℕ := 420
def bootFreeClusterCountOffset : ℕ := 424
def bootLinkSectorCountOffset : ℕ := 428
def bootLinkSectorAddressOffset : ℕ := 432
def bootDataAddressOffset : ℕ := 436
def bootLoaderSignatureOffset : ℕ := 440
def fileInformationSize : ℕ := 32
def fileSizeOffset : ℕ := 24
def clusterIdxOffset : ℕ := 28

@[ext]
structure FatInformation where
  freeClusterCount : ℕ
  clusterLinkSectorCount : ℕ
  clusterLinkSectorAddress : ℕ
  dataAddress : ℕ

/-- The messages the file operations print. -/
inductive Message
  | mountFailMessage1
  | mountFailMessage2
  | notMountedMessage
  | notFoundFileMessage
  | alreadyExistMessage
  deriving DecidableEq

def Message.text : Message → String
  | mountFailMessage1 => "read disk fail."
  | mountFailMessage2 => "do formatting first."
  | notMountedMessage => "do mounting disk first."
  | notFoundFileMessage => "File was not found"
  | alreadyExistMessage => "file already exists"

/-- Conversions between `int` and `DWORD`. -/
def intOf (n : ℕ) : ℤ := if n < 2 ^ 31 then n else n - 2 ^ 32
def dwordOf (z : ℤ) : ℕ := (z % 2 ^ 32).toNat

/-- The static variables of `FAT.c` and the disk. -/
structure FileSystem where
  disk : Disk
  fatInfor : FatInformation
  bestIdx : ℕ
  bestRootDirIdx : ℕ
  isMounted : Bool
  buffer512 : Bytes
  buffer4096 : Bytes

/-- The FAT size that `format` computes. -/
def linkSectorCountFor (sectorCount : ℕ) : ℕ :=
  let clusterCount := sectorCount / sectorsPerCluster
  let clusterLinkSectorCount := (clusterCount + linksPerSector - 1) / linksPerSector
  let dataSectorCount := sectorCount - 1 - clusterLinkSectorCount
  (dataSectorCount + linksPerSector - 1) / linksPerSector

/-- The loop of `format` that clears the FAT and the root directory; the first argument
bounds its rounds. -/
def clearSectors (buffer : Bytes) (initSectorCount : ℕ) : ℕ → ℕ → Disk → Bool × Disk
  | 0, _, disk => (true, disk)
  | fuel + 1, i, disk =>
    if i < initSectorCount then
      let writeCount := min (initSectorCount - i) sectorsPerCluster
      let (written, disk) := disk.writeSector writeCount (1 + i) buffer
      if written ≠ writeCount then (false, disk)
      else clearSectors buffer initSectorCount fuel (i + sectorsPerCluster) disk
    else (true, disk)

namespace FileSystem

variable (fs : FileSystem)

/-- `FALSE` is the error with the message printed. -/
def mount : Except Message Unit × FileSystem :=
  let fs := { fs with
    buffer512 := memsetZero fs.buffer512 sectorSize
    buffer4096 := memsetZero fs.buffer4096 clusterSize }
  let read := fs.disk.readSector 1 0 fs.buffer512
  let fs := { fs with buffer512 := read.buffer, disk := read.disk }
  if read.count = 0 then (.error .mountFailMessage1, fs)
  else if readLE fs.buffer512 bootSignatureOffset 4 ≠ signatureFS then
    (.error .mountFailMessage2, fs)
  else
    (.ok (), { fs with
      fatInfor :=
        { clusterLinkSectorAddress := readLE fs.buffer512 bootLinkSectorAddressOffset 4
          clusterLinkSectorCount := readLE fs.buffer512 bootLinkSectorCountOffset 4
          dataAddress := readLE fs.buffer512 bootDataAddressOffset 4
          freeClusterCount := readLE fs.buffer512 bootFreeClusterCountOffset 4 }
      bestIdx := 0
      bestRootDirIdx := 0
      isMounted := true })

/-- The boot sector `format` builds in `buffer512`. -/
def bootBuffer : Bytes :=
  let clusterLinkSectorCount := linkSectorCountFor fs.disk.totalSector
  let buffer := memsetZero fs.buffer512 bootSignatureOffset
  let buffer := writeLE buffer bootLoaderSignatureOffset 2 bootLoaderSignature
  let buffer := writeLE buffer bootSignatureOffset 4 signatureFS
  let buffer := writeLE buffer bootFreeClusterCountOffset 4 (fs.disk.totalSector / sectorsPerCluster)
  let buffer := writeLE buffer bootLinkSectorCountOffset 4 clusterLinkSectorCount
  let buffer := writeLE buffer bootLinkSectorAddressOffset 4 1
  writeLE buffer bootDataAddressOffset 4 (1 + clusterLinkSectorCount)

def format : Bool × FileSystem :=
  let clusterLinkSectorCount := linkSectorCountFor fs.disk.totalSector
  let fs := { fs with buffer512 := fs.bootBuffer }
  let (written, disk) := fs.disk.writeSector 1 0 fs.buffer512
  let fs := { fs with disk := disk }
  if written = 0 then (false, fs)
  else
    let fs := { fs with buffer4096 := memsetZero fs.buffer4096 clusterSize }
    let initSectorCount := clusterLinkSectorCount + sectorsPerCluster
    let (cleared, disk) := clearSectors fs.buffer4096 initSectorCount initSectorCount 0 fs.disk
    let fs := { fs with disk := disk }
    if !cleared then (false, fs)
    else
      let fs := { fs with buffer512 := writeLE (memsetZero fs.buffer512 sectorSize) 0 4 0xFFFFFFFF }
      (true, { fs with disk := (fs.disk.writeSector 1 1 fs.buffer512).2 })

def readCluster (offset : ℕ) (buffer : Bytes) : Bytes × FileSystem :=
  let read := fs.disk.readSector sectorsPerCluster
    (fs.fatInfor.dataAddress + offset * sectorsPerCluster) buffer
  (read.buffer, { fs with disk := read.disk })

def writeCluster (offset : ℕ) (buffer : Bytes) : FileSystem :=
  { fs with disk := (fs.disk.writeSector sectorsPerCluster
      (fs.fatInfor.dataAddress + offset * sectorsPerCluster) buffer).2 }

/-- Read the root directory into `buffer4096`. -/
def readRoot : FileSystem :=
  let (buffer, fs) := fs.readCluster 0 fs.buffer4096
  { fs with buffer4096 := buffer }

/-- `clusterIdx` of directory entry `i` in `buffer4096`. -/
def entryCluster (i : ℕ) : ℕ :=
  readLE fs.buffer4096 (fileInformationSize * i + clusterIdxOffset) 4

/-- Comparison with the name of entry `i`. -/
def entryCmp (i : ℕ) (fileName : CString) : ℤ :=
  strcmp fs.buffer4096 (fileInformationSize * i) fileName

/-- The scan of one sector: `j` is the entry looked at, the cursor counts along. -/
def scanSector (buffer : Bytes) : ℕ → ℕ → ℕ → Option ℕ × ℕ
  | 0, _, bestIdx => (none, bestIdx)
  | n + 1, j, bestIdx =>
    if readLE buffer (linkSize * j) 4 = 0 then (some bestIdx, bestIdx + 1)
    else scanSector buffer n (j + 1) (bestIdx + 1)

/-- The outer loop of `findFreeClusterAndUpdate`. -/
def findFreeClusterLoop : ℕ → FileSystem → Option ℕ × FileSystem
  | 0, fs => (none, fs)
  | n + 1, fs =>
    let offset := fs.bestIdx / linksPerSector
    let read := fs.disk.readSector 1 (fs.fatInfor.clusterLinkSectorAddress + offset) fs.buffer512
    let fs := { fs with buffer512 := read.buffer, disk := read.disk }
    match scanSector fs.buffer512 linksPerSector 0 fs.bestIdx with
    | (some cluster, bestIdx) => (some cluster, { fs with bestIdx := bestIdx })
    | (none, bestIdx) => findFreeClusterLoop n { fs with bestIdx := bestIdx }

/-- `none` stands for the result -1. -/
def findFreeClusterAndUpdate : Option ℕ × FileSystem :=
  findFreeClusterLoop fs.fatInfor.clusterLinkSectorCount fs

/-- The loop of `findFreeDirectoryEntryAndUpdate`. -/
def findFreeDirectoryEntryLoop : ℕ → FileSystem → Option ℕ × FileSystem
  | 0, fs => (none, fs)
  | n + 1, fs =>
    if fs.entryCluster fs.bestRootDirIdx = 0 then (some fs.bestRootDirIdx, fs)
    else findFreeDirectoryEntryLoop n
      { fs with bestRootDirIdx := (fs.bestRootDirIdx + 1) % maxFileCount }

def findFreeDirectoryEntryAndUpdate : Option ℕ × FileSystem :=
  findFreeDirectoryEntryLoop maxFileCount fs.readRoot

def setClusterLinkTable (idx data : ℕ) : FileSystem :=
  let offset := idx / linksPerSector
  let read := fs.disk.readSector 1 (fs.fatInfor.clusterLinkSectorAddress + offset) fs.buffer512
  let buffer := writeLE read.buffer (linkSize * (idx % linksPerSector)) 4 data
  { fs with
    buffer512 := buffer
    disk := (read.disk.writeSector 1 (fs.fatInfor.clusterLinkSectorAddress + offset) buffer).2 }

/-- The entry `createFile` builds for a new file. -/
def newEntry (fileName : CString) (cluster : ℕ) : Bytes :=
  let nameLen := min (strlen fileName) (maxFileName - 1)
  let entry := copyBytes (fun _ => 0) 0 (stringBytes fileName) 0 nameLen
  writeLE (writeLE entry clusterIdxOffset 4 cluster) fileSizeOffset 4 0

/-- `createFile` up to its call of `setClusterLinkTable`: the directory entry and the
cluster of the new file, or the message if it prints one. -/
def findRoom (fileName : CString) : Except (Option Message) (ℕ × ℕ) × FileSystem :=
  if !fs.isMounted then (.error (some .notMountedMessage), fs)
  else
    let fs := fs.readRoot
    if (List.range maxFileCount).any fun i =>
        fs.entryCluster i ≠ 0 && fs.entryCmp i fileName == 0 then
      (.error (some .alreadyExistMessage), fs)
    else
      match fs.findFreeDirectoryEntryAndUpdate with
      | (none, fs) => (.error none, fs)
      | (some dirEntry, fs) =>
        match fs.findFreeClusterAndUpdate with
        | (none, fs) => (.error none, fs)
        | (some cluster, fs) => (.ok (dirEntry, cluster), fs)

def createFile (fileName : CString) : Option Message × FileSystem :=
  match fs.findRoom fileName with
  | (.error message, fs) => (message, fs)
  | (.ok (dirEntry, cluster), fs) =>
    let fs := (fs.setClusterLinkTable cluster 0xFFFFFFFF).readRoot
    let entry := newEntry fileName cluster
    let buffer :=
      copyBytes fs.buffer4096 (fileInformationSize * dirEntry) entry 0 fileInformationSize
    (none, { fs with buffer4096 := buffer }.writeCluster 0 buffer)

/-- The first directory entry in `buffer4096` with this name. -/
def findName (fileName : CString) : Option ℕ :=
  (List.range maxFileCount).find? fun i => fs.entryCmp i fileName == 0

/-- The first one that is in use. -/
def findFile (fileName : CString) : Option ℕ :=
  (List.range maxFileCount).find? fun i => fs.entryCluster i ≠ 0 && fs.entryCmp i fileName == 0

def deleteFile (fileName : CString) : Option Message × FileSystem :=
  if !fs.isMounted then (some .notMountedMessage, fs)
  else
    let fs := fs.readRoot
    match fs.findName fileName with
    | none => (some .notFoundFileMessage, fs)
    | some i =>
      let fs := fs.setClusterLinkTable (fs.entryCluster i) 0x00000000
      let buffer := writeLE fs.buffer4096 (fileInformationSize * i + clusterIdxOffset) 4 0
      let buffer := writeLE buffer (fileInformationSize * i) 1 0xE5
      (none, { fs with buffer4096 := buffer }.writeCluster 0 buffer)

/-- The file size and the contents of `buffer`; the error with the message printed
returns -1. -/
def readFile (fileName : CString) (buffer : Bytes) : Except Message (ℤ × Bytes) × FileSystem :=
  if !fs.isMounted then (.error .notMountedMessage, fs)
  else
    let fs := fs.readRoot
    match fs.findFile fileName with
    | none => (.error .notFoundFileMessage, fs)
    | some i =>
      let (buffer, fs) := fs.readCluster (fs.entryCluster i) buffer
      (.ok (intOf (readLE fs.buffer4096 (fileInformationSize * i + fileSizeOffset) 4), buffer), fs)

def writeFile (fileName : CString) (buffer : Bytes) (size : ℤ) :
    Except Message Unit × FileSystem :=
  if !fs.isMounted then (.error .notMountedMessage, fs)
  else
    let fs := fs.readRoot
    match fs.findFile fileName with
    | none => (.error .notFoundFileMessage, fs)
    | some i =>
      let fs := fs.writeCluster (fs.entryCluster i) buffer
      let buffer :=
        writeLE fs.buffer4096 (fileInformationSize * i + fileSizeOffset) 4 (dwordOf size)
      (.ok (), { fs with buffer4096 := buffer }.writeCluster 0 buffer)

end FileSystem
end SkhuOS
