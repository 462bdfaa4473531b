import SkhuOS.Common.Type
import SkhuOS.Foundation.LittleEndian
import SkhuOS.Foundation.Program

/-! The transfer functions of `kernel/drivers/Disk.c` as programs over what they ask of the
ports, the clock and the kernel. -/
namespace SkhuOS
open Foundation

/-- `startStopwatch` is answered by the number of times the stopwatch will be read below its
limit; `timeUp` is the reading that is not. The lock is `diskMutex`. -/
inductive DiskRequest where
  | startStopwatch
  | timeUp
  | getPort (port : WORD)
  | setPort (port : WORD) (data : BYTE)
  | getPortWord (port : WORD)
  | setPortWord (port data : WORD)
  | acquireLock
  | releaseLock
  | clearDiskInterruptFlag (isPrimary : Bool)
  | waitInterrupt (isPrimary : Bool)
  deriving DecidableEq

@[reducible] def DiskRequest.Answer : DiskRequest → Type
  | .startStopwatch => ℕ
  | .getPort _ => BYTE
  | .getPortWord _ => WORD
  | .waitInterrupt _ => Bool
  | _ => Unit

abbrev Driver := Program DiskRequest.Answer

abbrev DiskEvent := Event DiskRequest.Answer

/-- The registers of a channel, the columns of `portAddress` that are used. -/
inductive DiskRegister where
  | data
  | sectorCount
  | sectorNumber
  | cylinderLsb
  | cylinderMsb
  | driveAndHeader
  | status
  | command
  deriving DecidableEq

def statusBsy : BYTE := 0x80
def statusDrdy : BYTE := 0x40
def statusDrq : BYTE := 0x08
def statusErr : BYTE := 0x01
def commandRead : BYTE := 0x20
def commandWrite : BYTE := 0x30
def commandDriveIdentify : BYTE := 0xEC

namespace DiskDriver
open Program

def portAddress (isPrimary : Bool) : DiskRegister → WORD
  | .data => if isPrimary then 0x1F0 else 0x170
  | .sectorCount => if isPrimary then 0x1F2 else 0x172
  | .sectorNumber => if isPrimary then 0x1F3 else 0x173
  | .cylinderLsb => if isPrimary then 0x1F4 else 0x174
  | .cylinderMsb => if isPrimary then 0x1F5 else 0x175
  | .driveAndHeader => if isPrimary then 0x1F6 else 0x176
  | .status => if isPrimary then 0x1F7 else 0x177
  | .command => if isPrimary then 0x1F7 else 0x177

def startStopwatch : Driver ℕ := request DiskRequest.startStopwatch

def timeUp : Driver Unit := request DiskRequest.timeUp

def getPort (isPrimary : Bool) (register : DiskRegister) : Driver BYTE :=
  request (DiskRequest.getPort (portAddress isPrimary register))

def setPort (isPrimary : Bool) (register : DiskRegister) (data : BYTE) : Driver Unit :=
  request (DiskRequest.setPort (portAddress isPrimary register) data)

def getPortWord (isPrimary : Bool) : Driver WORD :=
  request (DiskRequest.getPortWord (portAddress isPrimary .data))

def setPortWord (isPrimary : Bool) (data : WORD) : Driver Unit :=
  request (DiskRequest.setPortWord (portAddress isPrimary .data) data)

def clearDiskInterruptFlag (isPrimary : Bool) : Driver Unit :=
  request (DiskRequest.clearDiskInterruptFlag isPrimary)

def waitInterrupt (isPrimary : Bool) : Driver Bool := request (DiskRequest.waitInterrupt isPrimary)

def acquireLock : Driver Unit := request DiskRequest.acquireLock

def releaseLock : Driver Unit := request DiskRequest.releaseLock

section
variable {β : Type} {isPrimary : Bool}

@[simp] theorem startStopwatch_bind (f : ℕ → Driver β) :
    startStopwatch >>= f = .ask .startStopwatch f := rfl

@[simp] theorem timeUp_bind (f : Unit → Driver β) : timeUp >>= f = .ask .timeUp f := rfl

@[simp] theorem getPort_bind (register : DiskRegister) (f : BYTE → Driver β) :
    getPort isPrimary register >>= f = .ask (.getPort (portAddress isPrimary register)) f := rfl

@[simp] theorem setPort_bind (register : DiskRegister) (data : BYTE) (f : Unit → Driver β) :
    setPort isPrimary register data >>= f =
      .ask (.setPort (portAddress isPrimary register) data) f := rfl

@[simp] theorem getPortWord_bind (f : WORD → Driver β) :
    getPortWord isPrimary >>= f = .ask (.getPortWord (portAddress isPrimary .data)) f := rfl

@[simp] theorem setPortWord_bind (data : WORD) (f : Unit → Driver β) :
    setPortWord isPrimary data >>= f =
      .ask (.setPortWord (portAddress isPrimary .data) data) f := rfl

@[simp] theorem clearDiskInterruptFlag_bind (f : Unit → Driver β) :
    clearDiskInterruptFlag isPrimary >>= f = .ask (.clearDiskInterruptFlag isPrimary) f := rfl

@[simp] theorem waitInterrupt_bind (f : Bool → Driver β) :
    waitInterrupt isPrimary >>= f = .ask (.waitInterrupt isPrimary) f := rfl

@[simp] theorem acquireLock_bind (f : Unit → Driver β) :
    acquireLock >>= f = .ask .acquireLock f := rfl

@[simp] theorem releaseLock_bind (f : Unit → Driver β) :
    releaseLock >>= f = .ask .releaseLock f := rfl

end

/-- The polling loop of `waitStatus` and `waitDataRequest`: `verdict` is what a status makes
the function return, if anything. -/
def pollStatus (isPrimary : Bool) (verdict : BYTE → Option Bool) : ℕ → Driver Bool
  | 0 => do
    let status ← getPort isPrimary .status
    match verdict status with
    | some result => return result
    | none =>
      timeUp
      return false
  | rounds + 1 => do
    let status ← getPort isPrimary .status
    match verdict status with
    | some result => return result
    | none => pollStatus isPrimary verdict rounds

def waitStatus (isPrimary : Bool) (mask value : BYTE) : Driver Bool := do
  let rounds ← startStopwatch
  pollStatus isPrimary (fun status => if status &&& mask = value then some true else none) rounds

def waitNoBusy (isPrimary : Bool) : Driver Bool := waitStatus isPrimary statusBsy 0

def waitReady (isPrimary : Bool) : Driver Bool := waitStatus isPrimary statusDrdy statusDrdy

/-- What `waitDataRequest` makes of a status. -/
def dataRequested (status : BYTE) : Option Bool :=
  if status &&& statusBsy = statusBsy then none
  else if status &&& statusErr = statusErr then some false
  else if status &&& statusDrq = statusDrq then some true
  else none

def waitDataRequest (isPrimary : Bool) : Driver Bool := do
  let rounds ← startStopwatch
  pollStatus isPrimary dataRequested rounds

def driveFlag (isMaster : Bool) : BYTE := if isMaster then 0xE0 ||| 0x00 else 0xE0 ||| 0x10

def sendDiskCommand (isPrimary isMaster : Bool) (sectorCount : BYTE) (LBA : DWORD)
    (command : BYTE) : Driver Bool := do
  if !(← waitNoBusy isPrimary) then return false
  else
    setPort isPrimary .sectorCount sectorCount
    setPort isPrimary .sectorNumber (LBA.setWidth 8)
    setPort isPrimary .cylinderLsb ((LBA.sshiftRight 8).setWidth 8)
    setPort isPrimary .cylinderMsb ((LBA.sshiftRight 16).setWidth 8)
    setPort isPrimary .driveAndHeader
      ((driveFlag isMaster &&& 0xF0) ||| ((LBA.sshiftRight 24).setWidth 8 &&& 0x0F))
    if !(← waitReady isPrimary) then return false
    else
      clearDiskInterruptFlag isPrimary
      setPort isPrimary .command command
      return true

/-- Word `i` of a buffer. -/
def wordOf (buffer : Bytes) (i : ℕ) : WORD := BitVec.ofNat 16 (readLE buffer (2 * i) 2)

def storeWord (buffer : Bytes) (i : ℕ) (word : WORD) : Bytes :=
  writeLE buffer (2 * i) 2 word.toNat

/-- Words `i`, `i + 1`, … of the buffer are read from the data port, `n` of them. -/
def readWords (isPrimary : Bool) : ℕ → ℕ → Bytes → Driver Bytes
  | 0, _, buffer => return buffer
  | n + 1, i, buffer => do
    let word ← getPortWord isPrimary
    readWords isPrimary n (i + 1) (storeWord buffer i word)

/-- Words `i`, `i + 1`, … of the buffer are written to the data port, `n` of them. -/
def writeWords (isPrimary : Bool) (buffer : Bytes) : ℕ → ℕ → Driver Unit
  | 0, _ => return ()
  | n + 1, i => do
    setPortWord isPrimary (wordOf buffer i)
    writeWords isPrimary buffer n (i + 1)

/-- The result is TRUE or FALSE and the `DiskInformation` left behind. -/
def readInformation (isPrimary isMaster : Bool) (disk : Bytes) : Driver (Bool × Bytes) := do
  acquireLock
  if !(← waitNoBusy isPrimary) then
    releaseLock
    return (false, disk)
  else
    setPort isPrimary .driveAndHeader (driveFlag isMaster)
    if !(← waitReady isPrimary) then
      releaseLock
      return (false, disk)
    else
      clearDiskInterruptFlag isPrimary
      setPort isPrimary .command commandDriveIdentify
      if !(← waitDataRequest isPrimary) then
        releaseLock
        return (false, disk)
      else
        let disk ← readWords isPrimary 256 0 disk
        releaseLock
        return (true, disk)

/-- The loop of `readSector` from sector `i` on, `remaining` sectors before its end. -/
def readSectors (isPrimary : Bool) (sectorCount : ℤ) : ℕ → ℕ → Bytes → Driver (ℤ × Bytes)
  | 0, _, buffer => do
    releaseLock
    return (sectorCount, buffer)
  | remaining + 1, i, buffer => do
    if !(← waitInterrupt isPrimary) then
      releaseLock
      return (i, buffer)
    else
      clearDiskInterruptFlag isPrimary
      let status ← getPort isPrimary .status
      if status &&& statusErr ≠ 0 then
        releaseLock
        return (i, buffer)
      else
        let buffer ← readWords isPrimary 256 (i * 256) buffer
        readSectors isPrimary sectorCount remaining (i + 1) buffer

/-- `sectorCount` is a signed `char`; the result is the count and the buffer. -/
def readSector (isPrimary isMaster : Bool) (sectorCount : BYTE) (LBA : DWORD) (buffer : Bytes) :
    Driver (ℤ × Bytes) := do
  acquireLock
  if !(← sendDiskCommand isPrimary isMaster sectorCount LBA commandRead) then
    releaseLock
    return (0, buffer)
  else
    readSectors isPrimary sectorCount.toInt sectorCount.toInt.toNat 0 buffer

/-- The loop of `writeSector` from sector `i` on, `remaining` sectors before its end. -/
def writeSectors (isPrimary : Bool) (sectorCount : ℤ) (buffer : Bytes) : ℕ → ℕ → Driver ℤ
  | 0, _ => do
    releaseLock
    return sectorCount
  | remaining + 1, i => do
    clearDiskInterruptFlag isPrimary
    writeWords isPrimary buffer 256 (i * 256)
    if !(← waitInterrupt isPrimary) then
      releaseLock
      return i
    else
      let status ← getPort isPrimary .status
      if status &&& statusErr ≠ 0 then
        releaseLock
        return i
      else
        writeSectors isPrimary sectorCount buffer remaining (i + 1)

def writeSector (isPrimary isMaster : Bool) (sectorCount : BYTE) (LBA : DWORD) (buffer : Bytes) :
    Driver ℤ := do
  acquireLock
  if !(← sendDiskCommand isPrimary isMaster sectorCount LBA commandWrite) then
    releaseLock
    return 0
  else if !(← waitDataRequest isPrimary) then
    releaseLock
    return 0
  else
    writeSectors isPrimary sectorCount.toInt buffer sectorCount.toInt.toNat 0

end DiskDriver
end SkhuOS
