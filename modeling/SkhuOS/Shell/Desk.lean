import SkhuOS.FS.Remount
import SkhuOS.Shell.CommandLine
import SkhuOS.Shell.Terminal

/-! What the terminal is for: its user types commands, edits the files of a folder, and finds them
again when the machine has been switched on again. -/
namespace SkhuOS
open Foundation

/-- The disk: without a file system, or with a folder, which can be used once it is mounted. -/
inductive Storage where
  | raw
  | shelved (folder : Folder)
  | mounted (folder : Folder)

namespace Storage

def formatted : Storage → Storage
  | mounted _ => mounted .empty
  | _ => shelved .empty

def unmounted : Storage → Storage
  | mounted folder => shelved folder
  | medium => medium

end Storage

/-- What is on the desk: a command line, a file that is edited, or nothing until the machine is
switched on again. -/
inductive Page where
  | typing (line : List BYTE)
  | editing (name : CString) (session : Session)
  | off

/-- `screen` is what the shell has shown; nothing of the editor is on it. -/
structure Desk where
  medium : Storage
  page : Page
  screen : Screen

def Message.shown : Option Message → List Shown
  | none => []
  | some message => [.print (.puts (cString message.text))]

/-- What a command shows with which the shell may stop: the machine is reset, or there is no room for
another process. -/
def Command.lastShown : Command → Option (List Shown)
  | .reboot => some []
  | .multiTasking => some [.clear, .print (.puts (cString "Create Process Error!"))]
  | .ring3 => some [.clear, .print (.puts (cString "Create Process Error!"))]
  | _ => none

/-- What a command makes of the medium, and what it shows; `sectors` is the size of the disk. The
editor shows nothing where there is no such file, not even a message. -/
inductive Storage.Does (sectors : ℕ) : Storage → Command → CString → Storage → List Shown → Prop
  | help {medium : Storage} {arg : CString} : Does sectors medium .help arg medium
      (commandTable.map fun entry => .print (.puts entry.2.usage))
  | clear {medium : Storage} {arg : CString} : Does sectors medium .clearCommand arg medium [.clear]
  | memUsed {medium : Storage} {arg : CString} :
      Does sectors medium .memUsed arg medium printMemoryRate
  | capacity {medium : Storage} {arg : CString} : Does sectors medium .printDiskCapacity arg medium
      [.print (.printString (cString "Disk Capacity: ")),
       .print (.printInt (BitVec.ofNat 32 (sectors / 2 / 1024)) 10),
       .print (.printString (cString "MB"))]
  | processes {medium : Storage} {cmd : Command} {arg : CString}
      (hcmd : cmd = .multiTasking ∨ cmd = .ring3) :
      Does sectors medium cmd arg medium [.clear, .cursorLine 24]
  | formatting {medium : Storage} {arg : CString} : Does sectors medium .formatting arg
      medium.formatted [.print (.puts (cString "success disk format!"))]
  | mount {medium : Storage} {folder : Folder} {arg : CString}
      (hfolder : medium = .shelved folder ∨ medium = .mounted folder) :
      Does sectors medium .mountCommand arg (.mounted folder)
        [.print (.puts (cString "success Mount!"))]
  | mountRaw {arg : CString} : Does sectors .raw .mountCommand arg .raw
      (Message.shown (some .mountFailMessage2))
  | notMounted {medium : Storage} {cmd : Command} {arg : CString}
      (hcmd : cmd = .ls ∨ cmd = .touch ∨ cmd = .rm)
      (hmedium : ∀ folder, medium ≠ .mounted folder) :
      Does sectors medium cmd arg medium (Message.shown (some .notMountedMessage))
  | ls {folder : Folder} {arg : CString} {calls : List PrintCall} (hlists : folder.Lists calls) :
      Does sectors (.mounted folder) .ls arg (.mounted folder) (calls.map .print)
  | touch {folder folder' : Folder} {arg : CString} {message : Option Message}
      (hanswer : folder.Answers (.createFile arg) (.printed message) folder') :
      Does sectors (.mounted folder) .touch arg (.mounted folder') (Message.shown message)
  | rm {folder folder' : Folder} {arg : CString} {message : Option Message}
      (hanswer : folder.Answers (.deleteFile arg) (.printed message) folder') :
      Does sectors (.mounted folder) .rm arg (.mounted folder') (Message.shown message)
  | noEditor {medium : Storage} {arg : CString}
      (hnone : ∀ folder, medium = .mounted folder → folder arg = none) :
      Does sectors medium .editor arg medium []

/-- The same of a line that has been entered. -/
inductive Storage.Runs (sectors : ℕ) : Storage → List BYTE → Storage → List Shown → Prop
  | blank {medium : Storage} {line : List BYTE} (hword : commandWord line = []) :
      Runs sectors medium line medium []
  | unknown {medium : Storage} {line : List BYTE} (hword : commandWord line ≠ [])
      (hnone : commandOf line = none) : Runs sectors medium line medium
        [.print (.printString line), .print (.printString (cString " is not found!"))]
  | command {medium medium' : Storage} {line : List BYTE} {cmd : Command} {arg : CString}
      {items : List Shown} (hentered : commandOf line = some (cmd, arg))
      (hdoes : medium.Does sectors cmd arg medium' items) : Runs sectors medium line medium' items

/-- What a key shows in a command line. -/
def echo (line : List BYTE) (data : BYTE) : List Shown :=
  if data = keyBackspace ∧ line = [] then [] else [.viewCharacter data]

/-- The start of a new command line. -/
def promptItems : List Shown :=
  [.print (.puts []), .print (.printString accountName), .print (.printString (cString ">"))]

namespace Session

/-- The editor has not returned. -/
def Open (s : Session) : Prop := ∀ text saved, s ≠ .ended text saved

end Session

/-- What an event makes of the desk. -/
inductive Desk.Step (sectors : ℕ) : Desk → Event → Desk → Prop
  | typed {d : Desk} {line : List BYTE} {data : BYTE} (hpage : d.page = .typing line)
      (hdata : data ≠ keyEnter) : Step sectors d (.key data)
        { d with page := .typing (typeKey line data), screen := d.screen.applyAll (echo line data) }
  | entered {d : Desk} {line : List BYTE} {medium : Storage} {items : List Shown}
      (hpage : d.page = .typing line) (hruns : d.medium.Runs sectors line medium items) :
      Step sectors d (.key keyEnter)
        { medium := medium
          page := .typing []
          screen := d.screen.applyAll (.print (.puts []) :: items ++ promptItems) }
  | opened {d : Desk} {line text : List BYTE} {name : CString} {folder : Folder} {file : StoredFile}
      (hpage : d.page = .typing line) (hentered : commandOf line = some (.editor, name))
      (hmedium : d.medium = .mounted folder) (hfile : folder name = some file)
      (htext : Holds 0 file.contents text) : Step sectors d (.key keyEnter)
        { d with
          page := .editing name (.editing text)
          screen := d.screen.applyAll [.print (.puts [])] }
  | stopped {d : Desk} {line : List BYTE} {cmd : Command} {arg : CString} {items : List Shown}
      (hpage : d.page = .typing line) (hentered : commandOf line = some (cmd, arg))
      (hlast : cmd.lastShown = some items) : Step sectors d (.key keyEnter)
        { d with page := .off, screen := d.screen.applyAll (.print (.puts []) :: items) }
  | edited {d : Desk} {name : CString} {session : Session} {data : BYTE}
      (hpage : d.page = .editing name session) (hopen : (session.key data).Open) :
      Step sectors d (.key data) { d with page := .editing name (session.key data) }
  | left {d : Desk} {name : CString} {session : Session} {text : List BYTE} {data : BYTE}
      (hpage : d.page = .editing name session) (hended : session.key data = .ended text false) :
      Step sectors d (.key data)
        { d with page := .typing [], screen := d.screen.applyAll promptItems }
  | saved {d : Desk} {name : CString} {session : Session} {text : List BYTE} {data : BYTE}
      {folder : Folder} {contents : Bytes} (hpage : d.page = .editing name session)
      (hended : session.key data = .ended text true) (hmedium : d.medium = .mounted folder)
      (htext : Holds 0 contents text) : Step sectors d (.key data)
        { medium := .mounted (folder.set name (some ⟨text.length, contents⟩))
          page := .typing []
          screen := d.screen.applyAll promptItems }
  | others {d : Desk} {line : List BYTE} {items : List Shown} {slots : ℕ}
      (hpage : d.page = .typing line) :
      Step sectors d (.others items slots) { d with screen := d.screen.applyAll items }
  | covered {d : Desk} {name : CString} {session : Session} {items : List Shown} {slots : ℕ}
      (hpage : d.page = .editing name session) : Step sectors d (.others items slots) d
  | off {d : Desk} {event : Event} (hpage : d.page = .off)
      (hevent : ∀ screen stack, event ≠ .restart screen stack) : Step sectors d event d
  | restarted {d : Desk} {screen : Screen} {stack : Bytes} : Step sectors d (.restart screen stack)
      { medium := d.medium.unmounted
        page := .typing []
        screen := screen.printAccountName accountName }

/-- The desk behind a sequence of events, on a disk that has no file system at first. -/
inductive Desk.History (sectors : ℕ) (screen : Screen) : List Event → Desk → Prop
  | start : History sectors screen [] ⟨.raw, .typing [], screen.printAccountName accountName⟩
  | next {events : List Event} {d d' : Desk} {event : Event}
      (hpast : History sectors screen events d) (hstep : d.Step sectors event d') :
      History sectors screen (events ++ [event]) d'

end SkhuOS
