import SkhuOS.Common.Monitor
import SkhuOS.FS.Folder
import SkhuOS.Proc.Process
import SkhuOS.Shell.Editor
import SkhuOS.Shell.Shell

/-! A user session: `startShell` with the functions of its `commandTable`, the editor and the file
system, key by key, over restarts of the machine. -/
namespace SkhuOS
open Foundation

/-- The `usage` of the entries of `commandTable`. -/
def Command.usage : Command → CString
  | .help => cString "help"
  | .clearCommand => cString "clear"
  | .memUsed => cString "memUsed"
  | .reboot => cString "reboot"
  | .printDiskCapacity => cString "diskCapacity"
  | .multiTasking => cString "multiTasking"
  | .mountCommand => cString "mount"
  | .formatting => cString "formatting"
  | .ls => cString "ls"
  | .touch => cString "touch fileName"
  | .rm => cString "rm fileName"
  | .editor => cString "editor fileName"
  | .ring3 => cString "ring3 [attack]"

/-- `TOTAL_MEMORY`, and what `initMemoryBitmap` stores to `usingMemory`, which stays. -/
def memoryTotal : ℕ := 0x60000
def usingMemory : ℕ := 0x4000

def printMemoryRate : List Shown :=
  [.print (.printString (cString "total memory size: ")),
   .print (.printInt (BitVec.ofNat 32 (memoryTotal / 0x20000)) 10),
   .print (.printString (cString "GB")), .print (.puts []),
   .print (.printString (cString "using : ")),
   .print (.printInt (BitVec.ofNat 32 (100 * usingMemory / memoryTotal)) 10),
   .print (.printString (cString "%"))]

/-- `sizeof(bannerData)/sizeof(char*)`: one process for each line of the picture. -/
def bannerLines : ℕ := 24

/-- Who waits for the next key: `startShell`, or `runEditor`, which was called with a name; or
nobody, since the machine has been reset or `createProcess` loops for ever, with interrupts off. -/
inductive Reading where
  | prompt
  | editor (name : CString) (e : Editor)
  | stopped

/-- The shell with the static variables of the file system, of the editor (`buffer`) and of
`Print.c` (`monitor`). While the editor runs, `shell` and `fs` are as they were at its start.
`slots` counts the calls of `createProcess` that will still find a free slot. -/
structure Terminal where
  shell : Shell
  fs : FileSystem
  buffer : Bytes
  monitor : Monitor
  reading : Reading
  slots : ℕ

/-- What happens to the terminal: a key that `getKey` returns, what other processes show and how many
slots they leave, and that the machine is switched on again, with this screen and this on the stack
of the shell. -/
inductive Event where
  | key (data : BYTE)
  | others (items : List Shown) (slots : ℕ)
  | restart (screen : Screen) (stack : Bytes)

/-- The static variables of `FAT.c` behind `initFAT`. -/
def FileSystem.initFAT (disk : Disk) : FileSystem where
  disk := disk
  fatInfor := ⟨0, 0, 0, 0⟩
  bestIdx := 0
  bestRootDirIdx := 0
  isMounted := false
  buffer512 := fun _ => 0
  buffer4096 := fun _ => 0

namespace Terminal

/-- The shell of a machine that has just been switched on, with the collector and the idle process
beside it. -/
def boot (disk : Disk) (screen : Screen) (stack : Bytes) : Terminal where
  shell := .start screen stack
  fs := .initFAT disk
  buffer := fun _ => 0
  monitor := ⟨fun _ => ⟨0, 0⟩, 0⟩
  reading := .prompt
  slots := processMaxCount - 3

variable (t : Terminal)

def display (items : List Shown) : Terminal :=
  { t with shell := { t.shell with screen := t.shell.screen.applyAll items } }

@[simp] theorem display_fs (items : List Shown) : (t.display items).fs = t.fs := rfl

@[simp] theorem display_reading (items : List Shown) : (t.display items).reading = t.reading := rfl

/-- What the file operations print themselves. -/
def showMessage : Option Message → Terminal
  | none => t
  | some message => t.display [.print (.puts (cString message.text))]

def mountCommand : Terminal :=
  match t.fs.mount with
  | (.ok (), fs) => { t with fs := fs }.display [.print (.puts (cString "success Mount!"))]
  | (.error message, fs) => { t with fs := fs }.showMessage message

def formatting : Terminal :=
  match t.fs.format with
  | (true, fs) => { t with fs := fs }.display [.print (.puts (cString "success disk format!"))]
  | (false, fs) => { t with fs := fs }

def ls : Terminal :=
  match t.fs.showDir with
  | (.ok calls, fs) => { t with fs := fs }.display (calls.map .print)
  | (.error message, fs) => { t with fs := fs }.showMessage message

def touch (arg : CString) : Terminal :=
  { t with fs := (t.fs.createFile arg).2 }.showMessage (t.fs.createFile arg).1

def rm (arg : CString) : Terminal :=
  { t with fs := (t.fs.deleteFile arg).2 }.showMessage (t.fs.deleteFile arg).1

/-- `loadVideoMemory` behind the return of `runEditor`. -/
def leaveEditor (screen : Screen) (fs : FileSystem) (buffer : Bytes) : Terminal :=
  { t with
    shell := { t.shell with screen := screen.loadVideoMemory t.monitor }
    fs := fs
    buffer := buffer
    reading := .prompt }

/-- `runEditor`, which returns at once where `readFile` returns -1; `readFile` prints a message
before. -/
def runEditor (arg : CString) : Terminal :=
  match t.fs.readFile arg t.buffer with
  | (.error message, fs) =>
    t.leaveEditor (t.shell.screen.puts (cString message.text)) fs t.buffer
  | (.ok (size, buffer), fs) =>
    if size = -1 then t.leaveEditor t.shell.screen fs buffer
    else { t with fs := fs, reading := .editor arg (.start fs buffer t.shell.screen) }

def editor (arg : CString) : Terminal :=
  { t with monitor := t.shell.screen.saveVideoMemory t.monitor }.runEditor arg

/-- `n` calls of `createProcess`, and `cursorLine(24)` behind them. Without a free slot
`createProcess` does not return; the processes that are started show what they show as others. -/
def createProcesses (n : ℕ) : Terminal :=
  if n ≤ t.slots then { t with slots := t.slots - n }.display [.cursorLine 24]
  else { t.display [.print (.puts (cString "Create Process Error!"))] with
    slots := 0
    reading := .stopped }

/-- The functions of `commandTable`. The image of `ring3` is small enough for `runUserProgram`. -/
def command (arg : CString) : Command → Terminal
  | .help => t.display (commandTable.map fun entry => .print (.puts entry.2.usage))
  | .clearCommand => t.display [.clear]
  | .memUsed => t.display printMemoryRate
  | .reboot => { t with reading := .stopped }
  | .printDiskCapacity => t.display
      [.print (.printString (cString "Disk Capacity: ")),
       .print (.printInt (BitVec.ofNat 32 (t.fs.disk.totalSector / 2 / 1024)) 10),
       .print (.printString (cString "MB"))]
  | .multiTasking => (t.display [.clear]).createProcesses bannerLines
  | .mountCommand => t.mountCommand
  | .formatting => t.formatting
  | .ls => t.ls
  | .touch => t.touch arg
  | .rm => t.rm arg
  | .editor => t.editor arg
  | .ring3 => (t.display [.clear]).createProcesses 1

def executeCommand : Terminal :=
  let cmd := t.shell.commandBuffer
  let p := copyName cmd (t.shell.bufferIndex + 1) ⟨0, fun _ => 0, []⟩
  let t := { t with shell := { t.shell with
    nameStores := t.shell.nameStores ++ p.stores
    executed := t.shell.executed ++ [cmd] } }
  if p.idx = 0 then t
  else
    let arg := if cmd p.idx = 0x20 then p.idx + 1 else p.idx
    match commandTable.find? fun entry => strcmp p.name 0 entry.1 = 0 with
    | some entry =>
      t.command (stringAt cmd arg (t.shell.bufferIndex + 1 - arg)) entry.2
    | none => t.display
        [.print (.printString (stringAt cmd 0 (t.shell.bufferIndex + 1))),
         .print (.printString (cString " is not found!"))]

/-- `startShell` behind the return of `executeCommand`. -/
def newLine : Terminal :=
  let s := { t.shell with bufferIndex := 0 }.store 0 0
  { t with shell := { s with screen := (s.screen.puts []).printAccountName accountName } }

/-- A key, up to the next call of `getKey`. -/
def key (data : BYTE) : Terminal :=
  match t.reading with
  | .prompt =>
    if data = keyEnter then
      let t := (t.display [.print (.puts [])]).executeCommand
      match t.reading with
      | .prompt => t.newLine
      | _ => t
    else { t with shell := t.shell.key (fun _ _ screen => screen) data }
  | .editor name e =>
    let e := e.key name data
    match e.mode with
    | .closed _ => (t.leaveEditor e.screen e.fs e.buffer).newLine
    | _ => { t with reading := .editor name e }
  | .stopped => t

/-- The disk, with what the editor has written. -/
def disk : Disk :=
  match t.reading with
  | .editor _ e => e.fs.disk
  | _ => t.fs.disk

def event : Event → Terminal
  | .key data => t.key data
  | .others items slots =>
    match t.reading with
    | .prompt => { t with slots := slots }.display items
    | .editor name e =>
      { t with
        reading := .editor name { e with screen := e.screen.applyAll items }
        slots := slots }
    | .stopped => t
  | .restart screen stack => boot t.disk screen stack

def step (t : Terminal) (event : Event) : Option Terminal := some (t.event event)

end Terminal
end SkhuOS
