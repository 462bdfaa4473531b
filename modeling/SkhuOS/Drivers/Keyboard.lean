import SkhuOS.Proc.Kernel

/-! The keyboard driver of `kernel/drivers/Keyboard.c`: decoding of scan codes, the key
queue filled by the interrupt and the blocking `getKey`. -/
namespace SkhuOS
open Foundation

def keyNone : BYTE := 0x00
def keyEnter : BYTE := 0x0A
def keyTab : BYTE := 0x09
def keyEsc : BYTE := 0x1B
def keyBackspace : BYTE := 0x08
def keyF1 : BYTE := 0x61
def keyF2 : BYTE := 0x62
def keyF3 : BYTE := 0x63
def keyF4 : BYTE := 0x64
def keyF5 : BYTE := 0x65
def keyF6 : BYTE := 0x66
def keyF7 : BYTE := 0x67
def keyF8 : BYTE := 0x68
def keyF9 : BYTE := 0x69
def keyF10 : BYTE := 0x6A
def keyF11 : BYTE := 0x6B
def keyF12 : BYTE := 0x6C
def keyCtrl : BYTE := 0x6D
def keyAlt : BYTE := 0x6E
def keyLShift : BYTE := 0x6F
def keyRShift : BYTE := 0x70
def keyCapsLock : BYTE := 0x72
def keyNumLock : BYTE := 0x73
def keyScrollLock : BYTE := 0x74
def keyIns : BYTE := 0x75
def keyHome : BYTE := 0x76
def keyDel : BYTE := 0x77
def keyEnd : BYTE := 0x78
def keyPageUp : BYTE := 0x79
def keyPageDown : BYTE := 0x7A
def keyUp : BYTE := 0x7B
def keyLeft : BYTE := 0x7C
def keyCenter : BYTE := 0x7D
def keyRight : BYTE := 0x7E
def keyDown : BYTE := 0x7F
def keyPause : BYTE := 0x80
def keyShiftDown : BYTE := 0x2A
def keyShiftUp : BYTE := 0xAA
def queueCount : ℕ := 50

def ascii (c : Char) : BYTE := BitVec.ofNat 8 c.toNat

/-- The plain and the shifted code of each scan code. -/
def keyMappingTable : List (BYTE × BYTE) :=
  [(keyNone, keyNone), (keyEsc, keyEsc), (ascii '1', ascii '!'), (ascii '2', ascii '@'),
   (ascii '3', ascii '#'), (ascii '4', ascii '$'), (ascii '5', ascii '%'),
   (ascii '6', ascii '^'), (ascii '7', ascii '&'), (ascii '8', ascii '*'),
   (ascii '9', ascii '('), (ascii '0', ascii ')'), (ascii '-', ascii '_'),
   (ascii '=', ascii '+'), (keyBackspace, keyBackspace), (keyTab, keyTab),
   (ascii 'q', ascii 'Q'), (ascii 'w', ascii 'W'), (ascii 'e', ascii 'E'),
   (ascii 'r', ascii 'R'), (ascii 't', ascii 'T'), (ascii 'y', ascii 'Y'),
   (ascii 'u', ascii 'U'), (ascii 'i', ascii 'I'), (ascii 'o', ascii 'O'),
   (ascii 'p', ascii 'P'), (ascii '[', ascii '{'), (ascii ']', ascii '}'), (0x0A, 0x0A),
   (keyCtrl, keyCtrl), (ascii 'a', ascii 'A'), (ascii 's', ascii 'S'), (ascii 'd', ascii 'D'),
   (ascii 'f', ascii 'F'), (ascii 'g', ascii 'G'), (ascii 'h', ascii 'H'),
   (ascii 'j', ascii 'J'), (ascii 'k', ascii 'K'), (ascii 'l', ascii 'L'),
   (ascii ';', ascii ':'), (0x27, 0x22), (0x60, ascii '~'), (keyLShift, keyLShift),
   (0x5C, ascii '|'), (ascii 'z', ascii 'Z'), (ascii 'x', ascii 'X'), (ascii 'c', ascii 'C'),
   (ascii 'v', ascii 'V'), (ascii 'b', ascii 'B'), (ascii 'n', ascii 'N'),
   (ascii 'm', ascii 'M'), (ascii ',', ascii '<'), (ascii '.', ascii '>'),
   (ascii '/', ascii '?'), (keyRShift, keyRShift), (ascii '*', ascii '*'), (keyAlt, keyAlt),
   (ascii ' ', ascii ' '), (keyCapsLock, keyCapsLock), (keyF1, keyF1), (keyF2, keyF2),
   (keyF3, keyF3), (keyF4, keyF4), (keyF5, keyF5), (keyF6, keyF6), (keyF7, keyF7),
   (keyF8, keyF8), (keyF9, keyF9), (keyF10, keyF10), (keyNumLock, keyNumLock),
   (keyScrollLock, keyScrollLock), (keyHome, ascii '7'), (keyUp, ascii '8'),
   (keyPageUp, ascii '9'), (ascii '-', ascii '-'), (keyLeft, ascii '4'), (keyCenter, ascii '5'),
   (keyRight, ascii '6'), (ascii '+', ascii '+'), (keyEnd, ascii '1'), (keyDown, ascii '2'),
   (keyPageDown, ascii '3'), (keyIns, ascii '0'), (keyDel, ascii '.'), (keyNone, keyNone),
   (keyNone, keyNone), (keyNone, keyNone), (keyF11, keyF11), (keyF12, keyF12)]

/-- The code of a scan code and the shift state after it. The bytes that follow the
prefixes 0xE0 and 0xE1 are read from the controller and dropped. -/
def scanToASCII (shiftOn : Bool) (scanCode : BYTE) : BYTE × Bool :=
  if scanCode = keyShiftDown then (0, true)
  else
    let shiftOn := if scanCode = keyShiftUp then false else shiftOn
    if scanCode = 0xE1 then (keyPause, shiftOn)
    else if scanCode = 0xE0 then (0, shiftOn)
    else
      match keyMappingTable[scanCode.toNat]? with
      | none => (0, shiftOn)
      | some (plain, shifted) => (if shiftOn then shifted else plain, shiftOn)

/-- How many bytes the controller must deliver for one call of `scanToASCII`. -/
def scanLength (scanCode : BYTE) : ℕ :=
  if scanCode = 0xE1 then 3 else if scanCode = 0xE0 then 2 else 1

namespace Kernel

variable (k : Kernel)

def initKeyboard : Kernel :=
  { k with keyQueue := initQueue k.keyQueue.queueArr queueCount 1, shiftOn := false }

/-- Called by the keyboard interrupt. -/
def inputQueue (scanCode : BYTE) : Kernel :=
  let (code, shiftOn) := scanToASCII k.shiftOn scanCode
  let k := { k with shiftOn := shiftOn }
  if code ≠ 0 then
    let (preIf, k) := k.setIf false
    let k := { k with keyQueue := (enQueue k.keyQueue fun _ => code).2 }
    let k := { k with sched := k.sched.wakeupProcessInInterrupt k.keyWaiter }
    (k.setIf preIf).2
  else k

/-- `none` when the output buffer of the controller is empty. -/
def keyboardInterruptHandler (scanCode : Option BYTE) : Kernel :=
  match scanCode with
  | none => k
  | some scanCode => k.inputQueue scanCode

def getQueue : Option BYTE × Kernel :=
  let (preIf, k) := k.setIf false
  let (success, data, queue) := deQueue k.keyQueue fun _ => 0
  (if success then some (data 0) else none, ({ k with keyQueue := queue }.setIf preIf).2)

/-- The loop of `getKey`; the result is `none` while the caller is blocked. -/
def getKeyLoop (preIf : Bool) (regs : ProcessContext) : Option BYTE × Kernel :=
  let (success, data, queue) := deQueue k.keyQueue fun _ => 0
  if success then
    let k := { k with keyQueue := queue }.setResumePoint k.sched.runningProcess .code
    (some (data 0), (k.setIf preIf).2)
  else
    let cur := k.sched.runningProcess
    let k := { k with keyWaiter := some cur }.setResumePoint cur (.getKey preIf)
    (none, { k with sched := k.sched.blockRunningProcess regs })

def getKey (regs : ProcessContext) : Option BYTE × Kernel :=
  let (preIf, k) := k.setIf false
  k.getKeyLoop preIf regs

end Kernel
end SkhuOS
