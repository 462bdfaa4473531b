import SkhuOS.Shell.Desk

/-! The terminal refines the desk, whatever is typed and whenever the machine is restarted. -/
namespace SkhuOS
open Foundation

variable {line text : List BYTE} {data : BYTE}

namespace Terminal

variable {t : Terminal}

/-- The terminal behind the parser, which has made these stores to its array. -/
def parsed (t : Terminal) (stores : List ℕ) : Terminal :=
  { t with shell := { t.shell with
    nameStores := t.shell.nameStores ++ stores
    executed := t.shell.executed ++ [t.shell.commandBuffer] } }

/-- What `executeCommand` does is decided by the word and the argument of the line. -/
theorem executeCommand_eq (h : t.shell.Typed line) : ∃ stores, (∀ i ∈ stores, i ≤ line.length) ∧
    t.executeCommand =
      if commandWord line = [] then t.parsed stores
      else match commandOf line with
        | some (cmd, arg) => (t.parsed stores).command arg cmd
        | none => (t.parsed stores).display
          [.print (.printString line), .print (.printString (cString " is not found!"))] := by
  obtain ⟨rest, hline, -, hargument, hrest⟩ := commandWord_split line
  have hlen := congrArg List.length hline
  rw [List.length_append] at hlen
  have hindex := h.index
  have hword := copyName_word h.buffer (t.shell.bufferIndex + 1) ⟨0, fun _ => 0, []⟩
    (Nat.zero_le _) (by dsimp only; omega) (fun i hi hlt => absurd hlt (Nat.not_lt_zero i))
  have hstores := (copyName_spec h.buffer.end_eq (t.shell.bufferIndex + 1) ⟨0, fun _ => 0, []⟩
    (by dsimp only; omega) (by omega) (fun i hi => absurd hi List.not_mem_nil)).2
  obtain ⟨hidx, hname⟩ := hword
  refine ⟨_, hstores, ?_⟩
  unfold executeCommand
  dsimp only
  rw [find_command hname, hidx]
  by_cases hblank : commandWord line = []
  · rw [if_pos hblank, if_pos (by rw [hblank]; rfl)]
    rfl
  rw [if_neg hblank, if_neg (fun hzero => hblank (List.eq_nil_of_length_eq_zero hzero))]
  have hread : stringAt t.shell.commandBuffer 0 (t.shell.bufferIndex + 1) = line :=
    stringAt_eq h.buffer (by omega)
  have hend := commandWord_end h.buffer hline
  have harg : stringAt t.shell.commandBuffer
      (if t.shell.commandBuffer (commandWord line).length = 0x20 then
        (commandWord line).length + 1 else (commandWord line).length)
      (t.shell.bufferIndex + 1 - if t.shell.commandBuffer (commandWord line).length = 0x20 then
        (commandWord line).length + 1 else (commandWord line).length) = argument line := by
    rw [hargument, hend]
    rcases hrest with rfl | ⟨tail, rfl⟩
    · have hno : ([] : List BYTE).headD 0 ≠ 0x20 := by decide
      rw [List.length_nil] at hlen
      rw [if_neg hno]
      exact stringAt_text (.nil hend) (show 0 < _ by omega)
    · have htail : line.drop ((commandWord line).length + 1) = tail :=
        (congrArg (List.drop _) hline).trans (List.drop_length_add_append ..)
      rw [List.length_cons] at hlen
      have hdrop := h.buffer.drop (k := (commandWord line).length + 1) (by omega)
      have hspace : (0x20 :: tail).headD 0 = 0x20 := rfl
      rw [htail] at hdrop
      rw [if_pos hspace]
      exact stringAt_text hdrop (show tail.length < _ by omega)
  rw [hread, harg, commandOf]
  cases commandTable.find? fun entry => decide (commandWord line = entry.1) with
  | none => rfl
  | some entry => rfl

end Terminal

/-- No file has a negative size. -/
def Folder.Sized (folder : Folder) : Prop := ∀ name file, folder name = some file → 0 ≤ file.size

theorem Folder.Sized.set {folder : Folder} (h : folder.Sized) (name : CString)
    {file : Option StoredFile} (hfile : ∀ stored, file = some stored → 0 ≤ stored.size) :
    (folder.set name file).Sized := by
  intro other stored hstored
  rw [Folder.set] at hstored
  split at hstored
  · exact hfile stored hstored
  · exact h other stored hstored

theorem Folder.Answers.sized {folder folder' : Folder} {op : FileSystem.Operation}
    {reply : FileSystem.Reply} (h : folder.Answers op reply folder') (hsized : folder.Sized)
    (hsize : ∀ name buffer size, op = .writeFile name buffer size → 0 ≤ size) : folder'.Sized := by
  cases h with
  | created hnew =>
    apply hsized.set
    rintro stored ⟨⟩
    exact le_rfl
  | deleted hfile =>
    apply hsized.set
    rintro stored ⟨⟩
  | written hfile =>
    apply hsized.set
    rintro stored ⟨⟩
    exact hsize _ _ _ rfl
  | _ => exact hsized

namespace FileSystem

variable {fs fs' : FileSystem} {sectors : ℕ} {medium : Storage} {folder : Folder}

/-- The file system stands on the medium, a disk of this size with room for a file system. -/
def On (fs : FileSystem) (sectors : ℕ) : Storage → Prop
  | .raw => fs.isMounted = false ∧ fs.disk.totalSector = sectors ∧ fs.disk.Reliable ∧
    1 + linkSectorCountFor fs.disk.totalSector + 8 ≤ fs.disk.totalSector ∧
    readLE fs.disk.data bootSignatureOffset 4 ≠ signatureFS
  | .shelved folder => fs.isMounted = false ∧ fs.disk.totalSector = sectors ∧ folder.Sized ∧
    ∃ fs' : FileSystem, fs'.disk = fs.disk ∧ fs'.Filed folder
  | .mounted folder => fs.disk.totalSector = sectors ∧ folder.Sized ∧ fs.Filed folder

theorem On.size (h : fs.On sectors medium) : fs.disk.totalSector = sectors := by
  cases medium with
  | raw => exact h.2.1
  | shelved folder => exact h.2.1
  | mounted folder => exact h.1

theorem On.unmounted (h : fs.On sectors medium) (hmedium : ∀ folder, medium ≠ .mounted folder) :
    fs.isMounted = false := by
  cases medium with
  | raw => exact h.1
  | shelved folder => exact h.1
  | mounted folder => exact absurd rfl (hmedium folder)

theorem On.isMounted (h : fs.On sectors (.mounted folder)) : fs.isMounted = true :=
  h.2.2.orderly.intact.mounted.isMounted

theorem On.exists_folder (h : fs.On sectors medium) (hmounted : fs.isMounted = true) :
    ∃ folder, medium = .mounted folder := by
  by_contra hnone
  rw [h.unmounted (not_exists.mp hnone)] at hmounted
  cases hmounted

/-- Switching the machine on again unmounts the disk. -/
theorem On.initFAT (h : fs.On sectors medium) : (initFAT fs.disk).On sectors medium.unmounted := by
  cases medium with
  | raw => exact ⟨rfl, h.2⟩
  | shelved folder => exact ⟨rfl, h.2⟩
  | mounted folder => exact ⟨rfl, h.1, h.2.1, fs, rfl, h.2.2⟩

theorem On.format (h : fs.On sectors medium) :
    fs.format.1 = true ∧ fs.format.2.On sectors medium.formatted := by
  have hempty : Folder.empty.Sized := by
    intro name file hfile
    cases hfile
  have hfresh (hr : fs.disk.Reliable)
      (hroom : 1 + linkSectorCountFor fs.disk.totalSector + 8 ≤ fs.disk.totalSector)
      (hmounted : fs.isMounted = false) : fs.format.1 = true ∧
        fs.format.2.On sectors (.shelved .empty) := by
    obtain ⟨htrue, fs', hdisk, hsame, hfiled⟩ := format_filed hr hroom
    refine ⟨htrue, (format_isMounted fs).trans hmounted, ?_, hempty, fs', hdisk, hfiled⟩
    rw [← hdisk, hsame, h.size]
  cases medium with
  | raw => exact hfresh h.2.2.1 h.2.2.2.1 h.1
  | shelved folder =>
    obtain ⟨hmounted, -, -, fs', hdisk, hfiled⟩ := h
    have hroom := hfiled.room
    rw [hdisk] at hroom
    exact hfresh (hdisk ▸ hfiled.orderly.intact.reliable) hroom hmounted
  | mounted folder =>
    obtain ⟨hsize, -, hfiled⟩ := h
    obtain ⟨htrue, hfiled'⟩ := hfiled.format
    refine ⟨htrue, ?_, hempty, hfiled'⟩
    obtain ⟨-, fs', hdisk, hsame, -⟩ := format_filed hfiled.orderly.intact.reliable hfiled.room
    rw [← hdisk, hsame, hsize]

/-- `mount` finds the folder, unless there is none. -/
theorem On.mount (h : fs.On sectors medium) :
    (medium = .raw ∧ fs.mount.1 = .error .mountFailMessage2 ∧ fs.mount.2.On sectors .raw) ∨
      ∃ folder, (medium = .shelved folder ∨ medium = .mounted folder) ∧ fs.mount.1 = .ok () ∧
        fs.mount.2.On sectors (.mounted folder) := by
  cases medium with
  | raw =>
    obtain ⟨hmounted, hsize, hr, hroom, hsignature⟩ := h
    obtain ⟨hreturned, hsame, hdisk⟩ := mount_unformatted hr (by omega) hsignature
    refine .inl ⟨rfl, hreturned, hsame.trans hmounted, ?_⟩
    rw [hdisk]
    exact ⟨hsize, hr, hroom, hsignature⟩
  | shelved folder =>
    obtain ⟨-, hsize, hsized, fs', hdisk, hfiled⟩ := h
    obtain ⟨hreturned, hfiled', hsame⟩ := hfiled.remount hdisk.symm
    exact .inr ⟨folder, .inl rfl, hreturned, by rw [hsame, hdisk, hsize], hsized, hfiled'⟩
  | mounted folder =>
    obtain ⟨hsize, hsized, hfiled⟩ := h
    obtain ⟨hreturned, hfiled', hsame⟩ := hfiled.remount (rfl : fs.disk = fs.disk)
    exact .inr ⟨folder, .inr rfl, hreturned, by rw [hsame, hsize], hsized, hfiled'⟩

/-- A call on the mounted disk. -/
theorem On.answers {op : Operation} (h : fs.On sectors (.mounted folder))
    (hstep : fs.FolderStep op)
    (hsize : ∀ name buffer size, op = .writeFile name buffer size → 0 ≤ size) :
    ∃ folder', folder.Answers op (fs.reply op) folder' ∧
      (fs.operate op).On sectors (.mounted folder') := by
  obtain ⟨hsectors, hsized, hfiled⟩ := h
  obtain ⟨folder', hanswer, hfiled'⟩ := hfiled.answers hstep
  obtain ⟨⟨data, hstores⟩, -⟩ := hfiled.orderly.operate_spec hstep
  refine ⟨folder', hanswer, ?_, hanswer.sized hsized hsize, hfiled'⟩
  rw [hstores.disk, ← hsectors]

/-- The call keeps to what the folder promises; a file that is edited has an end. -/
def Suits (fs : FileSystem) : Command → CString → Prop
  | .touch, arg => fs.FolderStep (.createFile arg)
  | .rm, arg => fs.FolderStep (.deleteFile arg)
  | .editor, arg => ∀ file, fs.folder arg = some file → ∃ n < clusterSize, file.contents n = 0
  | _, _ => True

theorem createFile_unmounted (h : fs.isMounted = false) (name : CString) :
    fs.createFile name = (some .notMountedMessage, fs) := by
  rw [createFile, findRoom, h]
  rfl

theorem deleteFile_unmounted (h : fs.isMounted = false) (name : CString) :
    fs.deleteFile name = (some .notMountedMessage, fs) := by
  rw [deleteFile, h]
  rfl

theorem readFile_unmounted (h : fs.isMounted = false) (name : CString) (buffer : Bytes) :
    fs.readFile name buffer = (.error .notMountedMessage, fs) := by
  rw [readFile, h]
  rfl

theorem showDir_unmounted (h : fs.isMounted = false) :
    fs.showDir = (.error .notMountedMessage, fs) := by
  rw [showDir, h]
  rfl

/-- `showDir` lists the folder. -/
theorem On.showDir (h : fs.On sectors (.mounted folder)) : ∃ calls,
    fs.showDir = (.ok calls, fs.readRoot) ∧ folder.Lists calls ∧
      fs.readRoot.On sectors (.mounted folder) := by
  obtain ⟨hsize, hsized, hfiled⟩ := h
  have hm := hfiled.orderly.intact.mounted
  have hstores := hm.readRoot_stores hfiled.orderly.intact.reliable
  obtain ⟨calls, hcalls, hlists⟩ := hfiled.orderly.showDir_lists
  rw [hfiled.holds] at hlists
  have hstate : fs.showDir.2 = fs.readRoot := by
    rw [FileSystem.showDir, hm.isMounted]
    rfl
  refine ⟨calls, Prod.ext hcalls hstate, hlists, ?_, hsized, hfiled.looked hstores⟩
  rw [hstores.disk, ← hsize]

end FileSystem

namespace Terminal

variable {t : Terminal} {sectors : ℕ} {medium : Storage} {screen : Screen} {name : CString}
  {session : Session}

/-- No store of the shell has missed its arrays. -/
structure InBounds (t : Terminal) : Prop where
  stores : ∀ i ∈ t.shell.stores, i < commandSize
  nameStores : ∀ i ∈ t.shell.nameStores, i < commandSize

/-- The shell waits for a key or runs a command; the screen looks as if only the shell had ever
shown something. -/
structure Prompts (t : Terminal) (sectors : ℕ) (medium : Storage) (screen : Screen) : Prop where
  reading : t.reading = .prompt
  fs : t.fs.On sectors medium
  screen : t.shell.screen.Same screen
  bounds : t.InBounds

/-- No key is waited for any more. -/
structure Stopped (t : Terminal) (sectors : ℕ) (medium : Storage) (screen : Screen) : Prop where
  reading : t.reading = .stopped
  fs : t.fs.On sectors medium
  screen : t.shell.screen.Same screen

/-- The editor waits for a key; the screen of the shell can be restored. -/
structure Edits (t : Terminal) (sectors : ℕ) (medium : Storage) (screen : Screen) (name : CString)
    (session : Session) : Prop where
  reading : ∃ e, t.reading = .editor name e ∧ e.Exact session ∧ e.fs = t.fs
  isOpen : session.Open
  fs : t.fs.On sectors medium
  named : ∃ folder file, medium = .mounted folder ∧ folder name = some file
  restores : ∀ s : Screen, (s.loadVideoMemory t.monitor).Same screen
  bounds : t.InBounds

namespace Prompts

variable (h : t.Prompts sectors medium screen)
include h

theorem display (items : List Shown) :
    (t.display items).Prompts sectors medium (screen.applyAll items) :=
  ⟨h.reading, h.fs, h.screen.applyAll items, h.bounds.stores, h.bounds.nameStores⟩

theorem call {fs : FileSystem} {medium' : Storage} (hfs : fs.On sectors medium') :
    Prompts { t with fs := fs } sectors medium' screen :=
  ⟨h.reading, hfs, h.screen, h.bounds.stores, h.bounds.nameStores⟩

theorem showMessage (message : Option Message) :
    (t.showMessage message).Prompts sectors medium (screen.applyAll (Message.shown message)) := by
  cases message with
  | none => exact h
  | some message => exact h.display _

theorem parsed {stores : List ℕ} (hstores : ∀ i ∈ stores, i < commandSize) :
    (t.parsed stores).Prompts sectors medium screen := by
  refine ⟨h.reading, h.fs, h.screen, h.bounds.stores, fun i hi => ?_⟩
  rcases List.mem_append.mp hi with hi | hi
  · exact h.bounds.nameStores i hi
  · exact hstores i hi

/-- A new command line. -/
theorem newLine : t.newLine.Prompts sectors medium (screen.applyAll promptItems) ∧
    t.newLine.shell.Typed [] := by
  refine ⟨⟨h.reading, h.fs, h.screen.applyAll promptItems, fun i hi => ?_, h.bounds.nameStores⟩,
    rfl, .clear 0 _⟩
  rcases List.mem_append.mp hi with hi | hi
  · exact h.bounds.stores i hi
  · rw [List.mem_singleton.mp hi]
    decide

theorem mountCommand : ∃ medium' items, medium.Does sectors .mountCommand name medium' items ∧
    t.mountCommand.Prompts sectors medium' (screen.applyAll items) := by
  unfold Terminal.mountCommand
  rcases h.fs.mount with ⟨rfl, hreturned, hon⟩ | ⟨folder, hfolder, hreturned, hon⟩
  · rw [show t.fs.mount = (.error .mountFailMessage2, t.fs.mount.2) from Prod.ext hreturned rfl]
    exact ⟨_, _, .mountRaw, (h.call hon).showMessage _⟩
  · rw [show t.fs.mount = (.ok (), t.fs.mount.2) from Prod.ext hreturned rfl]
    exact ⟨_, _, .mount hfolder, (h.call hon).display _⟩

theorem formatting : ∃ medium' items, medium.Does sectors .formatting name medium' items ∧
    t.formatting.Prompts sectors medium' (screen.applyAll items) := by
  unfold Terminal.formatting
  obtain ⟨hreturned, hon⟩ := h.fs.format
  rw [show t.fs.format = (true, t.fs.format.2) from Prod.ext hreturned rfl]
  exact ⟨_, _, .formatting, (h.call hon).display _⟩

theorem ls : ∃ medium' items, medium.Does sectors .ls name medium' items ∧
    t.ls.Prompts sectors medium' (screen.applyAll items) := by
  unfold Terminal.ls
  by_cases hmedium : ∀ folder, medium ≠ .mounted folder
  · rw [FileSystem.showDir_unmounted (h.fs.unmounted hmedium)]
    exact ⟨_, _, .notMounted (.inl rfl) hmedium, h.showMessage _⟩
  · obtain ⟨folder, rfl⟩ := not_forall_not.mp hmedium
    obtain ⟨calls, hcalls, hlists, hon⟩ := h.fs.showDir
    rw [hcalls]
    exact ⟨_, _, .ls hlists, (h.call hon).display _⟩

theorem touch (hfits : t.fs.isMounted = true → t.fs.Suits .touch name) : ∃ medium' items,
    medium.Does sectors .touch name medium' items ∧
      (t.touch name).Prompts sectors medium' (screen.applyAll items) := by
  by_cases hmedium : ∀ folder, medium ≠ .mounted folder
  · rw [Terminal.touch, FileSystem.createFile_unmounted (h.fs.unmounted hmedium)]
    exact ⟨_, _, .notMounted (.inr (.inl rfl)) hmedium, h.showMessage _⟩
  · obtain ⟨folder, rfl⟩ := not_forall_not.mp hmedium
    have hstep : t.fs.FolderStep (.createFile name) := hfits h.fs.isMounted
    obtain ⟨folder', hanswer, hon⟩ := h.fs.answers hstep (by rintro _ _ _ ⟨⟩)
    exact ⟨_, _, .touch hanswer, (h.call hon).showMessage _⟩

theorem rm (hfits : t.fs.isMounted = true → t.fs.Suits .rm name) : ∃ medium' items,
    medium.Does sectors .rm name medium' items ∧
      (t.rm name).Prompts sectors medium' (screen.applyAll items) := by
  by_cases hmedium : ∀ folder, medium ≠ .mounted folder
  · rw [Terminal.rm, FileSystem.deleteFile_unmounted (h.fs.unmounted hmedium)]
    exact ⟨_, _, .notMounted (.inr (.inr rfl)) hmedium, h.showMessage _⟩
  · obtain ⟨folder, rfl⟩ := not_forall_not.mp hmedium
    have hstep : t.fs.FolderStep (.deleteFile name) := hfits h.fs.isMounted
    obtain ⟨folder', hanswer, hon⟩ := h.fs.answers hstep (by rintro _ _ _ ⟨⟩)
    exact ⟨_, _, .rm hanswer, (h.call hon).showMessage _⟩

theorem saved : Prompts { t with monitor := t.shell.screen.saveVideoMemory t.monitor } sectors
    medium screen :=
  ⟨h.reading, h.fs, h.screen, h.bounds.stores, h.bounds.nameStores⟩

end Prompts

/-- Behind the editor the screen looks as before. -/
theorem leaveEditor_prompts {fs : FileSystem} (s : Screen) (buffer : Bytes)
    (hfs : fs.On sectors medium) (hrestores : ∀ s : Screen, (s.loadVideoMemory t.monitor).Same screen)
    (hbounds : t.InBounds) : (t.leaveEditor s fs buffer).Prompts sectors medium screen :=
  ⟨rfl, hfs, hrestores s, hbounds.stores, hbounds.nameStores⟩

/-- The editor edits the text of a file, or it shows nothing. -/
theorem Prompts.runEditor (h : t.Prompts sectors medium screen)
    (hrestores : ∀ s : Screen, (s.loadVideoMemory t.monitor).Same screen)
    (hfits : t.fs.isMounted = true → t.fs.Suits .editor name) :
    (medium.Does sectors .editor name medium [] ∧
        (t.runEditor name).Prompts sectors medium screen) ∨
      ∃ folder file text, medium = .mounted folder ∧ folder name = some file ∧
        Holds 0 file.contents text ∧
          (t.runEditor name).Edits sectors medium screen name (.editing text) := by
  unfold Terminal.runEditor
  by_cases hmedium : ∀ folder, medium ≠ .mounted folder
  · rw [FileSystem.readFile_unmounted (h.fs.unmounted hmedium)]
    exact .inl ⟨.noEditor fun folder hfolder => absurd hfolder (hmedium folder),
      leaveEditor_prompts _ _ h.fs hrestores h.bounds⟩
  obtain ⟨folder, rfl⟩ := not_forall_not.mp hmedium
  have hfits : t.fs.Suits .editor name := hfits h.fs.isMounted
  have hstep : t.fs.FolderStep (.readFile name t.buffer) := trivial
  obtain ⟨folder', hanswer, hon⟩ := h.fs.answers hstep (by rintro _ _ _ ⟨⟩)
  have hread : t.fs.readFile name t.buffer =
      ((t.fs.readFile name t.buffer).1, t.fs.operate (.readFile name t.buffer)) := rfl
  rw [hread]
  generalize t.fs.operate (.readFile name t.buffer) = fs at hon
  rw [FileSystem.reply] at hanswer
  generalize (t.fs.readFile name t.buffer).1 = result at hanswer
  cases hanswer with
  | notRead hnone =>
    refine .inl ⟨.noEditor ?_, leaveEditor_prompts _ _ hon hrestores h.bounds⟩
    rintro _ ⟨⟩
    exact hnone
  | @read _ file _ hfile =>
    have hpositive := h.fs.2.1 name file hfile
    obtain ⟨n, hn, hnul⟩ := hfits file (by rw [h.fs.2.2.holds, hfile])
    dsimp only
    rw [if_neg (show file.size ≠ -1 by omega)]
    have hsize : editorSize = clusterSize := rfl
    have hsame {i : ℕ} (hi : i < clusterSize) :
        file.contents i = if i < clusterSize then file.contents i else t.buffer i :=
      (if_pos hi).symm
    generalize hbuffer : (fun x => if x < clusterSize then file.contents x else t.buffer x) =
      buffer
    have hread {i : ℕ} (hi : i < clusterSize) : file.contents i = buffer i := by
      rw [← hbuffer]
      exact hsame hi
    have hzero : buffer n = 0 := (hread hn).symm.trans hnul
    have hexact := Editor.start_exact fs t.shell.screen ⟨n, hn, hzero⟩
    refine .inr ⟨folder, file, _, rfl, hfile, ?_, ⟨_, rfl, hexact, rfl⟩, ?_, hon,
      ⟨folder, file, rfl, hfile⟩, hrestores, h.bounds.stores, h.bounds.nameStores⟩
    · refine hexact.keeps.buffer.congr fun i hi => hread ?_
      have hlen : (stringAt buffer 0 editorSize).length ≤ 4095 :=
        hexact.keeps.index ▸ hexact.keeps.bound
      exact Nat.lt_of_le_of_lt (hi.trans hlen) (by decide)
    · rintro text saved ⟨⟩

theorem Prompts.editor (h : t.Prompts sectors medium screen)
    (hfits : t.fs.isMounted = true → t.fs.Suits .editor name) :
    (medium.Does sectors .editor name medium [] ∧
        (t.editor name).Prompts sectors medium screen) ∨
      ∃ folder file text, medium = .mounted folder ∧ folder name = some file ∧
        Holds 0 file.contents text ∧
          (t.editor name).Edits sectors medium screen name (.editing text) := by
  have hrestores (s : Screen) :
      (s.loadVideoMemory (t.shell.screen.saveVideoMemory t.monitor)).Same screen :=
    (t.shell.screen.loadVideoMemory_same s t.monitor).trans h.screen
  have hsaved := h.saved
  unfold Terminal.editor
  generalize t.shell.screen.saveVideoMemory t.monitor = monitor at hrestores hsaved
  exact hsaved.runEditor hrestores hfits

/-- Processes are started, or the shell stops. -/
theorem Prompts.createProcesses (h : t.Prompts sectors medium screen) (n : ℕ) :
    ((t.display [.clear]).createProcesses n).Prompts sectors medium
        (screen.applyAll [.clear, .cursorLine 24]) ∨
      ((t.display [.clear]).createProcesses n).Stopped sectors medium (screen.applyAll
        [.clear, .print (.puts (cString "Create Process Error!"))]) := by
  have hclear := h.display [.clear]
  have hbehind (items : List Shown) :
      screen.applyAll (.clear :: items) = (screen.applyAll [.clear]).applyAll items :=
    Screen.applyAll_append [.clear] items
  rw [hbehind, hbehind]
  unfold Terminal.createProcesses
  split
  · have hprompts : Prompts { t.display [.clear] with slots := (t.display [.clear]).slots - n }
        sectors medium (screen.applyAll [.clear]) :=
      ⟨hclear.reading, hclear.fs, hclear.screen, hclear.bounds.stores, hclear.bounds.nameStores⟩
    exact .inl (hprompts.display [.cursorLine 24])
  · generalize cString "Create Process Error!" = message
    have herror := hclear.display [.print (.puts message)]
    exact .inr ⟨rfl, hclear.fs, herror.screen⟩

/-- A command does what it is for, unless the editor opens a file or the shell stops. -/
theorem Prompts.command {arg : CString} {cmd : Command} (h : t.Prompts sectors medium screen)
    (hfits : t.fs.isMounted = true → t.fs.Suits cmd arg) :
    (∃ medium' items, medium.Does sectors cmd arg medium' items ∧
        (t.command arg cmd).Prompts sectors medium' (screen.applyAll items)) ∨
      (cmd = .editor ∧ ∃ folder file text, medium = .mounted folder ∧ folder arg = some file ∧
        Holds 0 file.contents text ∧
          (t.command arg cmd).Edits sectors medium screen arg (.editing text)) ∨
      ∃ items, cmd.lastShown = some items ∧
        (t.command arg cmd).Stopped sectors medium (screen.applyAll items) := by
  cases cmd with
  | help => exact .inl ⟨_, _, .help, h.display _⟩
  | clearCommand => exact .inl ⟨_, _, .clear, h.display _⟩
  | memUsed => exact .inl ⟨_, _, .memUsed, h.display _⟩
  | reboot => exact .inr (.inr ⟨[], rfl, rfl, h.fs, h.screen⟩)
  | printDiskCapacity =>
    obtain rfl := h.fs.size
    exact .inl ⟨_, _, .capacity, h.display _⟩
  | multiTasking =>
    rcases h.createProcesses bannerLines with hprompts | hstopped
    · exact .inl ⟨_, _, .processes (.inl rfl), hprompts⟩
    · exact .inr (.inr ⟨_, rfl, hstopped⟩)
  | ring3 =>
    rcases h.createProcesses 1 with hprompts | hstopped
    · exact .inl ⟨_, _, .processes (.inr rfl), hprompts⟩
    · exact .inr (.inr ⟨_, rfl, hstopped⟩)
  | mountCommand => exact .inl h.mountCommand
  | formatting => exact .inl h.formatting
  | ls => exact .inl h.ls
  | touch => exact .inl (h.touch hfits)
  | rm => exact .inl (h.rm hfits)
  | editor =>
    rcases h.editor hfits with ⟨hdoes, hprompts⟩ | hedits
    · exact .inl ⟨_, _, hdoes, hprompts⟩
    · exact .inr (.inl ⟨rfl, hedits⟩)

/-- The terminal is where the desk is. -/
def Follows (t : Terminal) (sectors : ℕ) (d : Desk) : Prop :=
  match d.page with
  | .typing line =>
    t.Prompts sectors d.medium d.screen ∧ t.shell.Typed line ∧ line.length < commandSize
  | .editing name session => t.Edits sectors d.medium d.screen name session
  | .off => t.Stopped sectors d.medium d.screen

/-- What has been typed. -/
def typed (t : Terminal) : List BYTE := stringAt t.shell.commandBuffer 0 commandSize

/-- A line is not longer than its array, and what is entered suits the file system. -/
def Fits (t : Terminal) : Event → Prop
  | .key data =>
    match t.reading with
    | .prompt =>
      if data = keyEnter then ∀ cmd arg, commandOf t.typed = some (cmd, arg) →
        t.fs.isMounted = true → t.fs.Suits cmd arg
      else data ≠ keyBackspace → data ≠ 0 → t.shell.bufferIndex + 1 < commandSize
    | _ => True
  | _ => True

theorem key_enter (h : t.reading = .prompt) : t.key keyEnter =
    match ((t.display [.print (.puts [])]).executeCommand).reading with
    | .prompt => ((t.display [.print (.puts [])]).executeCommand).newLine
    | _ => (t.display [.print (.puts [])]).executeCommand := by
  rw [key, h]
  exact if_pos rfl

theorem typed_eq (h : t.shell.Typed line) (hlen : line.length < commandSize) : t.typed = line :=
  stringAt_eq h.buffer hlen

/-- Enter. -/
theorem Prompts.enter (h : t.Prompts sectors medium screen) (htyped : t.shell.Typed line)
    (hlen : line.length < commandSize)
    (hfits : ∀ cmd arg, commandOf line = some (cmd, arg) → t.fs.isMounted = true →
      t.fs.Suits cmd arg) :
    ∃ d, Desk.Step sectors ⟨medium, .typing line, screen⟩ (.key keyEnter) d ∧
      (t.key keyEnter).Follows sectors d := by
  have hshown := h.display [.print (.puts [])]
  have htyped' : (t.display [.print (.puts [])]).shell.Typed line := ⟨htyped.index, htyped.buffer⟩
  obtain ⟨stores, hstores, hexecuted⟩ := executeCommand_eq htyped'
  have hparsed := hshown.parsed fun i hi => (hstores i hi).trans_lt hlen
  have hdone {medium' : Storage} {items : List Shown} (hruns : medium.Runs sectors line medium' items)
      (hprompts : (t.display [.print (.puts [])]).executeCommand.Prompts sectors medium'
        ((screen.applyAll [.print (.puts [])]).applyAll items)) :
      ∃ d, Desk.Step sectors ⟨medium, .typing line, screen⟩ (.key keyEnter) d ∧
        (t.key keyEnter).Follows sectors d := by
    refine ⟨_, .entered rfl hruns, ?_⟩
    rw [key_enter h.reading, hprompts.reading]
    obtain ⟨hnext, htyped⟩ := hprompts.newLine
    refine ⟨?_, htyped, by decide⟩
    rw [← Screen.applyAll_append, ← Screen.applyAll_append] at hnext
    exact hnext
  by_cases hblank : commandWord line = []
  · rw [if_pos hblank] at hexecuted
    exact hdone (.blank hblank) (hexecuted ▸ hparsed)
  rw [if_neg hblank] at hexecuted
  cases hentered : commandOf line with
  | none =>
    rw [hentered] at hexecuted
    exact hdone (.unknown hblank hentered) (hexecuted ▸ hparsed.display _)
  | some called =>
    obtain ⟨cmd, arg⟩ := called
    rw [hentered] at hexecuted
    dsimp only at hexecuted
    rcases hparsed.command (hfits cmd arg hentered) with
      ⟨medium', items, hdoes, hprompts⟩ | ⟨rfl, folder, file, text, rfl, hfile, htext, hedits⟩ |
        ⟨items, hlast, hstopped⟩
    · exact hdone (.command hentered hdoes) (hexecuted ▸ hprompts)
    · refine ⟨_, .opened rfl hentered rfl hfile htext, ?_⟩
      rw [← hexecuted] at hedits
      obtain ⟨e, hreading, -⟩ := hedits.reading
      rw [key_enter h.reading, hreading]
      exact hedits
    · refine ⟨_, .stopped rfl hentered hlast, ?_⟩
      rw [← hexecuted] at hstopped
      rw [key_enter h.reading, hstopped.reading]
      exact hstopped

theorem echo_screen (s : Shell) (h : s.Typed line) (hdata : data ≠ keyEnter) :
    (s.key (fun _ _ screen => screen) data).screen = s.screen.applyAll (echo line data) := by
  have hempty : s.bufferIndex = 0 ↔ line = [] := by rw [h.index, List.length_eq_zero_iff]
  unfold Shell.key echo
  rw [if_neg hdata]
  by_cases hback : data = keyBackspace
  · simp only [hback, if_true, hempty, true_and]
    split
    · rfl
    · rfl
  · simp only [hback, if_false, false_and]
    split
    · rfl
    · rfl

theorem key_type (h : t.reading = .prompt) (hdata : data ≠ keyEnter) :
    t.key data = { t with shell := t.shell.key (fun _ _ screen => screen) data } := by
  rw [key, h]
  exact if_neg hdata

/-- Any other key at the prompt. -/
theorem Prompts.type (h : t.Prompts sectors medium screen) (htyped : t.shell.Typed line)
    (hlen : line.length < commandSize) (hdata : data ≠ keyEnter)
    (hfits : data ≠ keyBackspace → data ≠ 0 → line.length + 1 < commandSize) :
    (t.key data).Prompts sectors medium (screen.applyAll (echo line data)) ∧
      (t.key data).shell.Typed (typeKey line data) ∧
        (typeKey line data).length < commandSize := by
  have hkey := key_type h.reading hdata
  have hshort : (typeKey line data).length < commandSize := by
    unfold typeKey
    rw [if_neg hdata]
    split
    · rw [List.length_dropLast]
      omega
    next hback =>
      split
      next hnul =>
        rw [List.length_append, List.length_singleton]
        exact hfits hback hnul
      · exact hlen
  obtain ⟨hnext, -, stores, nameStores, hstores, hnames, hiff⟩ :=
    htyped.key (fun _ _ screen => screen) data
  obtain ⟨hin, hnamesIn⟩ := (hiff hlen).mpr hshort
  rw [hkey]
  refine ⟨⟨h.reading, h.fs, ?_, ?_, ?_⟩, hnext, hshort⟩
  · show (t.shell.key (fun _ _ screen => screen) data).screen.Same _
    rw [echo_screen t.shell htyped hdata]
    exact h.screen.applyAll _
  · show ∀ i ∈ (t.shell.key (fun _ _ screen => screen) data).stores, i < commandSize
    rw [hstores]
    intro i hi
    rcases List.mem_append.mp hi with hi | hi
    · exact h.bounds.stores i hi
    · exact hin i hi
  · show ∀ i ∈ (t.shell.key (fun _ _ screen => screen) data).nameStores, i < commandSize
    rw [hnames]
    intro i hi
    rcases List.mem_append.mp hi with hi | hi
    · exact h.bounds.nameStores i hi
    · exact hnamesIn i hi

theorem mode_open {e : Editor} (h : e.Exact session) (hopen : session.Open) :
    ∀ saved, e.mode ≠ .closed saved := by
  intro saved hmode
  have hfollows := h.mode
  rw [hmode] at hfollows
  cases session with
  | ended text saved' => exact hopen text saved' rfl
  | _ => exact hfollows

/-- While the editor has not returned it has not written either. -/
theorem stored_open {fs : FileSystem} {e : Editor} (h : ∀ saved, e.mode ≠ .closed saved) :
    Editor.stored fs name e = fs := by
  unfold Editor.stored
  split
  next hmode => exact absurd hmode (h true)
  next => rfl

theorem key_open {e : Editor} (hreading : t.reading = .editor name e)
    (hopen : ∀ saved, (e.key name data).mode ≠ .closed saved) :
    t.key data = { t with reading := .editor name (e.key name data) } := by
  rw [key, hreading]
  dsimp only
  split
  next saved hmode => exact absurd hmode (hopen saved)
  next => rfl

theorem key_closed {e : Editor} {saved : Bool} (hreading : t.reading = .editor name e)
    (hclosed : (e.key name data).mode = .closed saved) :
    t.key data = (t.leaveEditor (e.key name data).screen (e.key name data).fs
      (e.key name data).buffer).newLine := by
  rw [key, hreading]
  dsimp only
  rw [hclosed]

/-- A key of the editor. Where it saves, the file gets the text. -/
theorem Edits.key (h : t.Edits sectors medium screen name session) (data : BYTE) :
    ∃ d, Desk.Step sectors ⟨medium, .editing name session, screen⟩ (.key data) d ∧
      (t.key data).Follows sectors d := by
  obtain ⟨e, hreading, hexact, hfs⟩ := h.reading
  obtain ⟨folder, file, rfl, hfile⟩ := h.named
  have hbefore : e.fs = Editor.stored t.fs name e := by
    rw [stored_open (mode_open hexact h.isOpen), hfs]
  have hstored := hexact.key_stored hbefore data
  have hnext := hexact.key name data
  have hleave {medium' : Storage} (hon : (e.key name data).fs.On sectors medium') {saved : Bool}
      (hclosed : (e.key name data).mode = .closed saved) :
      (t.key data).Follows sectors ⟨medium', .typing [], screen.applyAll promptItems⟩ := by
    obtain ⟨hprompts, htyped⟩ := (leaveEditor_prompts (e.key name data).screen
      (e.key name data).buffer hon h.restores h.bounds).newLine
    rw [key_closed hreading hclosed]
    exact ⟨hprompts, htyped, by decide⟩
  cases hsession : session.key data with
  | ended text saved =>
    rw [hsession] at hnext
    have hclosed := hnext.mode.ended
    rw [Editor.stored, hclosed] at hstored
    cases saved with
    | false => exact ⟨_, .left rfl hsession, hleave (hstored ▸ h.fs) hclosed⟩
    | true =>
      have hbound := hnext.keeps.bound
      have hindex := hnext.keeps.index
      have hstep : t.fs.FolderStep (.writeFile name (e.key name data).buffer
          (e.key name data).strIdx) := ⟨by omega, by omega⟩
      obtain ⟨folder', hanswer, hon⟩ := h.fs.answers hstep (by
        rintro _ _ _ ⟨⟩
        omega)
      have hon' : (e.key name data).fs.On sectors (.mounted folder') := hstored ▸ hon
      rw [FileSystem.reply] at hanswer
      generalize (t.fs.writeFile name (e.key name data).buffer (e.key name data).strIdx).1 =
        result at hanswer
      cases hanswer with
      | notWritten hnone => exact absurd (hfile.symm.trans hnone) (by simp)
      | written _ =>
        have htext : Holds 0 (fun x => if x < clusterSize then (e.key name data).buffer x else 0)
            text := hnext.keeps.buffer.congr fun i hi => if_pos (by
              have hsize : clusterSize = 4096 := rfl
              have hlen : text.length = (Session.ended text true).text.length := rfl
              omega)
        refine ⟨_, .saved rfl hsession rfl htext, ?_⟩
        have hlen : ((e.key name data).strIdx : ℤ) = (text.length : ℤ) := congrArg _ hindex
        rw [hlen] at hon'
        exact hleave hon' hclosed
  | _ =>
    rw [hsession] at hnext
    have hopen : (session.key data).Open := by
      rw [hsession]
      rintro text saved ⟨⟩
    have hmode := mode_open hnext (hsession ▸ hopen)
    rw [stored_open hmode] at hstored
    refine ⟨_, .edited rfl hopen, ?_⟩
    rw [key_open hreading hmode]
    exact ⟨⟨_, rfl, hsession ▸ hnext, hstored⟩, hopen, h.fs, ⟨folder, file, rfl, hfile⟩,
      h.restores, h.bounds.stores, h.bounds.nameStores⟩

/-- The shell of a machine that has just been switched on waits for a key. -/
theorem boot_prompts {disk : Disk} (h : (FileSystem.initFAT disk).On sectors medium)
    (screen : Screen) (stack : Bytes) : (boot disk screen stack).Prompts sectors medium
      (screen.printAccountName accountName) ∧ (boot disk screen stack).shell.Typed [] := by
  have htyped := (Shell.keys_typed (fun _ _ screen => screen) screen stack []).1
  refine ⟨⟨rfl, h, .refl _, fun i hi => List.mem_range.mp hi, fun i hi => ?_⟩, htyped⟩
  exact absurd hi List.not_mem_nil

/-- Whatever happens, the disk is as the medium says when the machine is switched on again. -/
theorem Follows.restart {d : Desk} (h : t.Follows sectors d) (screen : Screen) (stack : Bytes) :
    (boot t.disk screen stack).Follows sectors
      ⟨d.medium.unmounted, .typing [], screen.printAccountName accountName⟩ := by
  have hon : (FileSystem.initFAT t.disk).On sectors d.medium.unmounted := by
    unfold Follows at h
    cases hpage : d.page with
    | typing line =>
      rw [hpage] at h
      rw [disk, h.1.reading]
      exact h.1.fs.initFAT
    | editing name session =>
      rw [hpage] at h
      obtain ⟨e, hreading, -, hfs⟩ := h.reading
      rw [disk, hreading]
      dsimp only
      rw [hfs]
      exact h.fs.initFAT
    | off =>
      rw [hpage] at h
      rw [disk, h.reading]
      exact h.fs.initFAT
  obtain ⟨hprompts, htyped⟩ := boot_prompts hon screen stack
  exact ⟨hprompts, htyped, by decide⟩

/-- Where the shell waits for a key, a line is on the desk. -/
theorem Follows.typing {d : Desk} (h : t.Follows sectors d) (hreading : t.reading = .prompt) :
    ∃ line, d.page = .typing line ∧ t.Prompts sectors d.medium d.screen ∧ t.shell.Typed line ∧
      line.length < commandSize := by
  unfold Follows at h
  cases hpage : d.page with
  | typing line =>
    rw [hpage] at h
    exact ⟨line, rfl, h⟩
  | editing name session =>
    rw [hpage] at h
    obtain ⟨e, heditor, -⟩ := h.reading
    exact absurd (hreading.symm.trans heditor) (by rintro ⟨⟩)
  | off =>
    rw [hpage] at h
    exact absurd (hreading.symm.trans h.reading) (by rintro ⟨⟩)

/-- One event. -/
theorem Follows.event {d : Desk} {event : Event} (h : t.Follows sectors d) (hfits : t.Fits event) :
    ∃ d', d.Step sectors event d' ∧ (t.event event).Follows sectors d' := by
  cases event with
  | restart screen stack => exact ⟨_, .restarted, h.restart screen stack⟩
  | key data =>
    obtain ⟨medium, page, screen⟩ := d
    cases page with
    | typing line =>
      obtain ⟨hprompts, htyped, hlen⟩ := h
      rw [Fits, hprompts.reading] at hfits
      dsimp only at hfits
      by_cases hdata : data = keyEnter
      · subst hdata
        rw [if_pos rfl, typed_eq htyped hlen] at hfits
        exact hprompts.enter htyped hlen hfits
      · rw [if_neg hdata, htyped.index] at hfits
        exact ⟨_, .typed rfl hdata, hprompts.type htyped hlen hdata hfits⟩
    | editing name session => exact Edits.key h data
    | off =>
      have hkey : t.key data = t := by rw [Terminal.key, Stopped.reading h]
      refine ⟨_, .off rfl (by rintro _ _ ⟨⟩), ?_⟩
      rw [Terminal.event, hkey]
      exact h
  | others items slots =>
    obtain ⟨medium, page, screen⟩ := d
    cases page with
    | typing line =>
      obtain ⟨hprompts, htyped, hlen⟩ := h
      refine ⟨_, .others rfl, ?_⟩
      have hsame : Prompts { t with slots := slots } sectors medium screen :=
        ⟨hprompts.reading, hprompts.fs, hprompts.screen, hprompts.bounds.stores,
          hprompts.bounds.nameStores⟩
      have hevent : t.event (.others items slots) = { t with slots := slots }.display items := by
        simp only [Terminal.event, hprompts.reading]
      rw [hevent]
      exact ⟨hsame.display items, ⟨htyped.index, htyped.buffer⟩, hlen⟩
    | editing name session =>
      obtain ⟨e, hreading, hexact, hfs⟩ := Edits.reading h
      refine ⟨_, .covered rfl, ?_⟩
      rw [Terminal.event, hreading]
      refine ⟨⟨_, rfl, ⟨hexact.mode, ?_⟩, hfs⟩, h.isOpen, h.fs, h.named, h.restores,
        h.bounds.stores, h.bounds.nameStores⟩
      have hkeeps := hexact.keeps
      exact ⟨hkeeps.index, hkeeps.bound, hkeeps.buffer, hkeeps.accesses, hkeeps.stateAccesses⟩
    | off =>
      refine ⟨_, .off rfl (by rintro _ _ ⟨⟩), ?_⟩
      rw [Terminal.event, Stopped.reading h]
      exact h

/-- The terminal that has just been switched on is where the empty desk is. -/
theorem boot_follows {disk : Disk} (hr : disk.Reliable)
    (hroom : 1 + linkSectorCountFor disk.totalSector + 8 ≤ disk.totalSector)
    (hsignature : readLE disk.data bootSignatureOffset 4 ≠ signatureFS) (screen : Screen)
    (stack : Bytes) : (boot disk screen stack).Follows disk.totalSector
      ⟨.raw, .typing [], screen.printAccountName accountName⟩ := by
  have hraw : (FileSystem.initFAT disk).On disk.totalSector .raw :=
    ⟨rfl, rfl, hr, hroom, hsignature⟩
  obtain ⟨hprompts, htyped⟩ := boot_prompts hraw screen stack
  exact ⟨hprompts, htyped, by decide⟩

/-- A run of the terminal is a history of the desk. -/
theorem boot_run {disk : Disk} {screen : Screen} {stack : Bytes}
    {history : List (Move Terminal Event)} (hr : disk.Reliable)
    (hroom : 1 + linkSectorCountFor disk.totalSector + 8 ≤ disk.totalSector)
    (hsignature : readLE disk.data bootSignatureOffset 4 ≠ signatureFS)
    (hrun : Run step Fits (boot disk screen stack) history t) :
    ∃ d, t.Follows disk.totalSector d ∧
      Desk.History disk.totalSector screen (history.map Move.label) d := by
  refine hrun.history_invariant (P := fun past t => ∃ d, t.Follows disk.totalSector d ∧
    Desk.History disk.totalSector screen (past.map Move.label) d)
    ⟨_, boot_follows hr hroom hsignature screen stack, .start⟩ ?_
  rintro past t event u - ⟨d, hfollows, hpast⟩ hfits hstep
  obtain rfl : t.event event = u := Option.some.inj hstep
  obtain ⟨d', hdesk, hnext⟩ := hfollows.event hfits
  refine ⟨d', hnext, ?_⟩
  rw [List.map_append]
  exact .next hpast hdesk

/-- The shell waits at the start of a line, with this file system. -/
def At (t : Terminal) (sectors : ℕ) (fs : FileSystem) : Prop :=
  ∃ medium screen, t.Prompts sectors medium screen ∧ t.shell.Typed [] ∧ t.fs = fs

/-- Characters that are no keys of their own can be typed up to the end of the array. -/
theorem Prompts.typeText {ok : Terminal → Event → Prop} (h : t.Prompts sectors medium screen)
    (htyped : t.shell.Typed line) (text : List BYTE)
    (hplain : ∀ c ∈ text, c ≠ keyEnter ∧ c ≠ keyBackspace ∧ c ≠ 0)
    (hlen : line.length + text.length < commandSize)
    (hok : ∀ t data, data ≠ keyEnter → t.reading = .prompt → t.Fits (.key data) →
      ok t (.key data)) :
    ∃ history u screen', Run step ok t history u ∧ u.Prompts sectors medium screen' ∧
      u.shell.Typed (line ++ text) ∧ u.fs = t.fs := by
  induction text generalizing t line screen with
  | nil =>
    rw [List.append_nil]
    exact ⟨[], t, screen, .start, h, htyped, rfl⟩
  | cons c text ih =>
    obtain ⟨hc, hrest⟩ := List.forall_mem_cons.mp hplain
    rw [List.length_cons] at hlen
    have hfits : t.Fits (.key c) := by
      rw [Fits, h.reading]
      dsimp only
      rw [if_neg hc.1, htyped.index]
      exact fun _ _ => by omega
    obtain ⟨hnext, htyped', -⟩ := h.type htyped (by omega) hc.1 fun _ _ => by omega
    have hline : typeKey line c = line ++ [c] := by
      rw [typeKey, if_neg hc.1, if_neg hc.2.1, if_pos hc.2.2]
    rw [hline] at htyped'
    have hfs : (t.key c).fs = t.fs := by rw [key_type h.reading hc.1]
    obtain ⟨history, u, screen', hrun, hprompts, hend, hsame⟩ := ih hnext htyped' hrest
      (by rw [List.length_append, List.length_singleton]; omega)
    have hfirst : Run step ok t [⟨t, .key c, t.key c⟩] (t.key c) :=
      .next .start (hok t c hc.1 h.reading hfits) rfl
    refine ⟨_, u, screen', hfirst.trans hrun, hprompts, ?_, hsame.trans hfs⟩
    rw [List.append_assoc] at hend
    exact hend

/-- A command that returns leaves the shell at the start of the next line. -/
theorem Prompts.call_enter {cmd : Command} {arg : CString} {fs : FileSystem}
    (h : t.Prompts sectors medium screen) (htyped : t.shell.Typed line)
    (hlen : line.length < commandSize) (hentered : commandOf line = some (cmd, arg))
    (hsuits : t.fs.isMounted = true → t.fs.Suits cmd arg)
    (hcommand : ∀ t' : Terminal, t'.fs = t.fs → t'.reading = .prompt →
      (t'.command arg cmd).fs = fs ∧ (t'.command arg cmd).reading = .prompt) :
    (t.key keyEnter).At sectors fs := by
  have htyped' : (t.display [.print (.puts [])]).shell.Typed line := ⟨htyped.index, htyped.buffer⟩
  obtain ⟨stores, hstores, hexecuted⟩ := executeCommand_eq htyped'
  have hparsed := (h.display [.print (.puts [])]).parsed fun i hi => (hstores i hi).trans_lt hlen
  obtain ⟨hfs, hreading⟩ := hcommand ((t.display _).parsed stores) rfl hparsed.reading
  have hword : commandWord line ≠ [] := by
    intro hblank
    rw [commandOf_blank hblank] at hentered
    cases hentered
  rw [if_neg hword, hentered] at hexecuted
  dsimp only at hexecuted
  rw [key_enter h.reading, hexecuted, hreading]
  rcases hparsed.command hsuits with ⟨medium', items, -, hprompts⟩ | ⟨-, _, _, _, -, -, -, hedits⟩ |
    ⟨items, -, hstopped⟩
  · exact ⟨_, _, hprompts.newLine.1, hprompts.newLine.2, hfs⟩
  · obtain ⟨e, heditor, -⟩ := hedits.reading
    exact absurd (hreading.symm.trans heditor) (by rintro ⟨⟩)
  · exact absurd (hreading.symm.trans hstopped.reading) (by rintro ⟨⟩)

theorem showMessage_fs (message : Option Message) : (t.showMessage message).fs = t.fs ∧
    (t.showMessage message).reading = t.reading := by
  cases message with
  | none => exact ⟨rfl, rfl⟩
  | some message => exact ⟨display_fs t _, display_reading t _⟩

theorem mountCommand_fs (t : Terminal) :
    t.mountCommand.fs = t.fs.mount.2 ∧ t.mountCommand.reading = t.reading := by
  unfold mountCommand
  split
  next heq => simp only [display_fs, display_reading, heq, and_self]
  next heq => simp only [showMessage_fs, heq, and_self]

theorem formatting_fs (t : Terminal) :
    t.formatting.fs = t.fs.format.2 ∧ t.formatting.reading = t.reading := by
  unfold formatting
  split
  next heq => simp only [display_fs, display_reading, heq, and_self]
  next heq => simp only [heq, and_self]

/-- A command line can be typed and entered. -/
theorem At.call {ok : Terminal → Event → Prop} {fs fs' : FileSystem} {cmd : Command} {arg : CString}
    (h : t.At sectors fs) (hplain : ∀ c ∈ text, c ≠ keyEnter ∧ c ≠ keyBackspace ∧ c ≠ 0)
    (hlen : text.length < commandSize) (hentered : commandOf text = some (cmd, arg))
    (hsuits : fs.isMounted = true → fs.Suits cmd arg)
    (hcommand : ∀ t' : Terminal, t'.fs = fs → t'.reading = .prompt →
      (t'.command arg cmd).fs = fs' ∧ (t'.command arg cmd).reading = .prompt)
    (hok : ∀ t data, data ≠ keyEnter → t.reading = .prompt → t.Fits (.key data) →
      ok t (.key data))
    (henter : ∀ t, t.reading = .prompt → t.typed = text → t.Fits (.key keyEnter) →
      ok t (.key keyEnter)) : ∃ history u, Run step ok t history u ∧ u.At sectors fs' := by
  obtain ⟨medium, screen, hprompts, htyped, rfl⟩ := h
  obtain ⟨history, u, screen', hrun, hend, htext, hsame⟩ :=
    hprompts.typeText htyped text hplain (by rw [List.length_nil, Nat.zero_add]; exact hlen) hok
  rw [List.nil_append] at htext
  have heq := typed_eq htext hlen
  have hfits : u.Fits (.key keyEnter) := by
    rw [Fits, hend.reading]
    dsimp only
    rw [if_pos rfl, heq, hentered, hsame]
    rintro _ _ ⟨⟩
    exact hsuits
  have hnext := hend.call_enter htext hlen hentered (by rw [hsame]; exact hsuits)
    (by rw [hsame]; exact hcommand)
  exact ⟨_, _, hrun.next (henter u hend.reading heq hfits) rfl, hnext⟩

/-- A disk is formatted and mounted. -/
theorem small_mounted (screen : Screen) (stack : Bytes) : ∃ history t,
    Run step Fits (boot (FileSystem.blank 100 (by decide)).disk screen stack) history t ∧
      t.At 100 FileSystem.small := by
  have hraw : (FileSystem.initFAT (FileSystem.blank 100 (by decide)).disk).On 100 .raw :=
    ⟨rfl, rfl, fun _ => rfl, by decide, by decide +kernel⟩
  obtain ⟨hprompts, htyped⟩ := boot_prompts hraw screen stack
  have hstart : (boot (FileSystem.blank 100 (by decide)).disk screen stack).At 100
      (FileSystem.blank 100 (by decide)) := ⟨_, _, hprompts, htyped, rfl⟩
  have hformat : commandOf (cString "formatting") = some (.formatting, []) := by decide
  have hmount : commandOf (cString "mount") = some (.mountCommand, []) := by decide
  obtain ⟨history, t, hrun, hformatted⟩ : ∃ history t,
      Run step Fits (boot (FileSystem.blank 100 (by decide)).disk screen stack) history t ∧
        t.At 100 (FileSystem.blank 100 (by decide)).format.2 := by
    apply hstart.call (by decide) (by decide) hformat (fun _ => trivial) _
      (fun _ _ _ _ h => h) fun _ _ _ h => h
    intro t' hfs hreading
    rw [command, (formatting_fs t').1, (formatting_fs t').2, hfs]
    exact ⟨rfl, hreading⟩
  obtain ⟨later, u, hlater, hmounted⟩ : ∃ later u, Run step Fits t later u ∧
      u.At 100 FileSystem.small := by
    apply hformatted.call (by decide) (by decide) hmount (fun _ => trivial) _
      (fun _ _ _ _ h => h) fun _ _ _ h => h
    intro t' hfs hreading
    rw [command, (mountCommand_fs t').1, (mountCommand_fs t').2, hfs]
    exact ⟨rfl, hreading⟩
  exact ⟨_, u, hrun.trans hlater, hmounted⟩

end Terminal
end SkhuOS
