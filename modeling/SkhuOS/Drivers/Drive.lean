import Mathlib.Logic.Relation
import SkhuOS.Drivers.Disk
import SkhuOS.Drivers.DiskDriver
import SkhuOS.Foundation.Device

/-! A channel with its two drives, as the driver of `kernel/drivers/Disk.c` expects it: the
registers of the channel, what the selected drive is doing, and what is on the disks. -/
namespace SkhuOS
open Foundation DiskDriver

/-- What the selected drive is doing. While it fetches, prepares or stores it is busy; `sending`
and `receiving` move the words of one sector, from word `pos` on, of `n` sectors that are left. -/
inductive DrivePhase where
  | idle
  | failed
  | fetching (content : Bytes) (i n : ℕ)
  | sending (content : Bytes) (i n pos : ℕ)
  | preparing (isMaster : Bool) (lba n : ℕ)
  | receiving (isMaster : Bool) (lba n : ℕ) (sector : Bytes) (pos : ℕ)
  | storing (isMaster : Bool) (lba n : ℕ) (sector : Bytes)

namespace DrivePhase

def Busy : DrivePhase → Prop
  | .fetching .. | .preparing .. | .storing .. => True
  | _ => False

/-- DRQ. -/
def Requests : DrivePhase → Prop
  | .sending .. | .receiving .. => True
  | _ => False

/-- While the drive is busy, the other bits of its status mean nothing. -/
def Shows (phase : DrivePhase) (status : BYTE) : Prop :=
  (status &&& statusBsy = statusBsy ↔ phase.Busy) ∧ (¬ phase.Busy →
    (status &&& statusErr = statusErr ↔ phase = .failed) ∧
    (status &&& statusDrq = statusDrq ↔ phase.Requests))

/-- The sector that the drive is about to change. -/
def Stores (phase : DrivePhase) (isMaster : Bool) (lba : ℕ) : Prop :=
  ∃ n sector, phase = .storing isMaster lba n sector

end DrivePhase

/-- `raised` is the kernel's flag for the interrupts of the channel. -/
structure Channel where
  media : Bool → Bytes
  identity : Bool → Bytes
  sectorCount : BYTE
  sectorNumber : BYTE
  cylinderLsb : BYTE
  cylinderMsb : BYTE
  driveAndHeader : BYTE
  phase : DrivePhase
  raised : Bool

namespace Channel

variable (c : Channel)

def isMaster : Bool := !c.driveAndHeader.getLsbD 4

/-- The sector that the registers address, and the number of sectors. -/
def lba : ℕ :=
  c.sectorNumber.toNat + 2 ^ 8 * c.cylinderLsb.toNat + 2 ^ 16 * c.cylinderMsb.toNat +
    2 ^ 24 * (c.driveAndHeader.toNat % 16)

def count : ℕ := if c.sectorCount = 0 then 256 else c.sectorCount.toNat

/-- The contents of the disk from sector `lba` on. -/
def sectorsAt (isMaster : Bool) (lba : ℕ) : Bytes := fun x => c.media isMaster (sectorSize * lba + x)

/-- A command, in LBA mode. -/
def start (command : BYTE) : Channel :=
  if command = commandDriveIdentify then
    { c with phase := .fetching (c.identity c.isMaster) 0 1 }
  else if c.driveAndHeader.getLsbD 6 = false then { c with phase := .failed }
  else if command = commandRead then
    { c with phase := .fetching (c.sectorsAt c.isMaster c.lba) 0 c.count }
  else if command = commandWrite then { c with phase := .preparing c.isMaster c.lba c.count }
  else { c with phase := .failed }

/-- A write to a register. -/
def setRegister (isPrimary : Bool) (port : WORD) (data : BYTE) : Channel :=
  if port = portAddress isPrimary .sectorCount then { c with sectorCount := data }
  else if port = portAddress isPrimary .sectorNumber then { c with sectorNumber := data }
  else if port = portAddress isPrimary .cylinderLsb then { c with cylinderLsb := data }
  else if port = portAddress isPrimary .cylinderMsb then { c with cylinderMsb := data }
  else if port = portAddress isPrimary .driveAndHeader then { c with driveAndHeader := data }
  else if port = portAddress isPrimary .command then c.start data
  else c

/-- Behind word `pos` of a sector. -/
def sent : Channel :=
  match c.phase with
  | .sending content i n pos =>
    if pos < 255 then { c with phase := .sending content i n (pos + 1) }
    else if n ≤ 1 then { c with phase := .idle }
    else { c with phase := .fetching content (i + 1) (n - 1) }
  | _ => c

/-- The word that the data port has, if any. -/
def Offers (word : WORD) : Prop :=
  match c.phase with
  | .sending content i _ pos => word = wordOf content (i * 256 + pos)
  | _ => True

def received (word : WORD) : Channel :=
  match c.phase with
  | .receiving isMaster lba n sector pos =>
    let sector := storeWord sector pos word
    if pos < 255 then { c with phase := .receiving isMaster lba n sector (pos + 1) }
    else { c with phase := .storing isMaster lba n sector }
  | _ => c

/-- The disks with the sector `sector` at `lba`. -/
def stored (isMaster : Bool) (lba : ℕ) (sector : Bytes) : Bool → Bytes :=
  Function.update c.media isMaster
    (copyBytes (c.media isMaster) (sectorSize * lba) sector 0 sectorSize)

/-- What a busy drive does in its own time: it gets ready, or it fails. A sector that could not
be stored may hold anything. -/
inductive Moves : Channel → Prop
  | fetched {content : Bytes} {i n : ℕ} (h : c.phase = .fetching content i n) :
      Moves { c with phase := .sending content i n 0, raised := true }
  | prepared {isMaster : Bool} {lba n : ℕ} (h : c.phase = .preparing isMaster lba n) :
      Moves { c with phase := .receiving isMaster lba n (fun _ => 0) 0 }
  | last {isMaster : Bool} {lba n : ℕ} {sector : Bytes} (hn : n ≤ 1)
      (h : c.phase = .storing isMaster lba n sector) : Moves
        { c with media := c.stored isMaster lba sector, phase := .idle, raised := true }
  | more {isMaster : Bool} {lba n : ℕ} {sector : Bytes} (hn : 1 < n)
      (h : c.phase = .storing isMaster lba n sector) : Moves { c with
        media := c.stored isMaster lba sector
        phase := .receiving isMaster (lba + 1) (n - 1) (fun _ => 0) 0
        raised := true }
  | fails (h : c.phase.Busy) : Moves { c with phase := .failed, raised := true }
  | spoils {isMaster : Bool} {lba n : ℕ} {sector : Bytes} (torn : Bytes)
      (h : c.phase = .storing isMaster lba n sector) : Moves
        { c with media := c.stored isMaster lba torn, phase := .failed, raised := true }

abbrev Drifts : Channel → Channel → Prop := Relation.ReflTransGen Moves

/-- The answer to a request. A busy drive takes no register, and no word without DRQ. The wait for
its interrupt may end too early, also when the interrupt gets lost, but not without one. -/
def Responds (isPrimary : Bool) : (r : DiskRequest) → r.Answer → Channel → Prop
  | .getPort port, status, c' =>
    c' = c ∧ (port = portAddress isPrimary .status → c.phase.Shows status)
  | .setPort port data, _, c' =>
    c.phase.Busy ∧ c' = c ∨ ¬ c.phase.Busy ∧ c' = c.setRegister isPrimary port data
  | .getPortWord port, word, c' =>
    if port = portAddress isPrimary .data then c.Offers word ∧ c' = c.sent else c' = c
  | .setPortWord port word, _, c' =>
    c' = if port = portAddress isPrimary .data then c.received word else c
  | .clearDiskInterruptFlag b, _, c' => c' = if b = isPrimary then { c with raised := false } else c
  | .waitInterrupt b, answer, c' => c' = c ∧ (b = isPrimary → answer = true → c.raised = true)
  | _, _, c' => c' = c

/-- The channel, between whose answers the drives go on. -/
def device (isPrimary : Bool) : Device DiskRequest.Answer Channel := fun c r a c' =>
  ∃ d, c.Drifts d ∧ d.Responds isPrimary r a c'

end Channel
end SkhuOS
