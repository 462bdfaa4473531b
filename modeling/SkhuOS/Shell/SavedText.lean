import SkhuOS.Shell.TerminalRun

/-! A text that has been saved stays, whatever is done to other files and however often the
machine is restarted. -/
namespace SkhuOS
open Foundation

theorem SameName.trans {s t u : CString} (h : SameName s t) (h' : SameName t u) : SameName s u :=
  ⟨h.1.trans h'.1, fun x hx => (h.2 x hx).trans (h'.2 x (h.1 ▸ hx))⟩

variable {folder folder' : Folder} {name other : CString} {line text : List BYTE}
  {file : Option StoredFile} {data : BYTE}

/-- The text is in the file. -/
def Folder.Keeps (folder : Folder) (name : CString) (text : List BYTE) : Prop :=
  ∃ file, (∀ other, SameName other name → folder other = some file) ∧ Holds 0 file.contents text

theorem Folder.Keeps.set (h : folder.Keeps name text) (hother : ¬ SameName other name) :
    (folder.set other file).Keeps name text := by
  obtain ⟨kept, hkept, htext⟩ := h
  refine ⟨kept, fun third hthird => ?_, htext⟩
  rw [Folder.set, if_neg fun hsame => hother (hsame.trans hthird)]
  exact hkept third hthird

/-- The medium has the text, be it mounted or not. -/
def Storage.Keeps (medium : Storage) (name : CString) (text : List BYTE) : Prop :=
  ∃ folder, (medium = .shelved folder ∨ medium = .mounted folder) ∧ folder.Keeps name text

/-- The event does not remove the file, nor save another text in it. -/
def Desk.Spares (name : CString) (d : Desk) (event : Event) : Prop :=
  (∀ line cmd arg, event = .key keyEnter → d.page = .typing line → commandOf line = some (cmd, arg) →
    cmd ≠ .formatting ∧ (cmd = .rm → ¬ SameName arg name)) ∧
  ∀ other session text data, event = .key data → d.page = .editing other session →
    session.key data = .ended text true → ¬ SameName other name

/-- A command that removes nothing. -/
theorem Storage.Does.keeps {sectors : ℕ} {medium medium' : Storage} {cmd : Command} {arg : CString}
    {items : List Shown} (h : medium.Does sectors cmd arg medium' items)
    (hkeeps : medium.Keeps name text) (hcmd : cmd ≠ .formatting)
    (hrm : cmd = .rm → ¬ SameName arg name) : medium'.Keeps name text := by
  cases h with
  | formatting => exact absurd rfl hcmd
  | @mount medium folder arg hfolder =>
    obtain ⟨folder', hfolder', hkept⟩ := hkeeps
    have hsame : folder' = folder := by
      rcases hfolder with rfl | rfl
      · rcases hfolder' with heq | heq <;> cases heq
        rfl
      · rcases hfolder' with heq | heq <;> cases heq
        rfl
    exact ⟨folder, .inr rfl, hsame ▸ hkept⟩
  | touch hanswer =>
    obtain ⟨folder', hfolder', hkept⟩ := hkeeps
    rcases hfolder' with heq | heq <;> cases heq
    cases hanswer with
    | created hnew =>
      refine ⟨_, .inr rfl, hkept.set fun hsame => ?_⟩
      obtain ⟨file, hfile, -⟩ := hkept
      exact absurd (hnew.symm.trans (hfile _ hsame)) (by rintro ⟨⟩)
    | full hnew hfull => exact ⟨_, .inr rfl, hkept⟩
    | known hfile => exact ⟨_, .inr rfl, hkept⟩
  | rm hanswer =>
    obtain ⟨folder', hfolder', hkept⟩ := hkeeps
    rcases hfolder' with heq | heq <;> cases heq
    cases hanswer with
    | deleted hfile => exact ⟨_, .inr rfl, hkept.set (hrm rfl)⟩
    | notDeleted hnone => exact ⟨_, .inr rfl, hkept⟩
  | _ => exact hkeeps

namespace Desk

variable {sectors : ℕ} {d d' : Desk} {event : Event} {session : Session}

/-- No event but those takes the text away. -/
theorem Step.keeps (h : d.Step sectors event d') (hkeeps : d.medium.Keeps name text)
    (hspares : d.Spares name event) : d'.medium.Keeps name text := by
  cases h with
  | entered hpage hruns =>
    cases hruns with
    | blank hword => exact hkeeps
    | unknown hword hnone => exact hkeeps
    | command hentered hdoes =>
      obtain ⟨hcmd, hrm⟩ := hspares.1 _ _ _ rfl hpage hentered
      exact hdoes.keeps hkeeps hcmd hrm
  | saved hpage hended hmedium htext =>
    obtain ⟨folder, hfolder, hkept⟩ := hkeeps
    have hother := hspares.2 _ _ _ _ rfl hpage hended
    rcases hfolder with heq | heq <;> cases hmedium.symm.trans heq
    exact ⟨_, .inr rfl, hkept.set hother⟩
  | restarted =>
    obtain ⟨folder, hfolder, hkept⟩ := hkeeps
    refine ⟨folder, .inl ?_, hkept⟩
    rcases hfolder with heq | heq <;> rw [heq] <;> rfl
  | _ => exact hkeeps

/-- The editor that saves leaves the text on the medium. -/
theorem Step.of_saved (h : d.Step sectors (.key data) d') (hpage : d.page = .editing name session)
    (hended : session.key data = .ended text true) : d'.medium.Keeps name text := by
  cases h with
  | saved hpage' hended' hmedium htext =>
    cases hpage.symm.trans hpage'
    cases hended.symm.trans hended'
    exact ⟨_, .inr rfl, _, fun other hother => if_pos hother.symm, htext⟩
  | edited hpage' hopen =>
    cases hpage.symm.trans hpage'
    exact absurd hended (hopen _ _)
  | left hpage' hended' =>
    cases hpage.symm.trans hpage'
    cases hended.symm.trans hended'
  | typed hpage' => cases hpage.symm.trans hpage'
  | entered hpage' => cases hpage.symm.trans hpage'
  | opened hpage' => cases hpage.symm.trans hpage'
  | stopped hpage' => cases hpage.symm.trans hpage'
  | off hpage' => cases hpage.symm.trans hpage'

/-- The editor of a file starts with the text that is in it. -/
theorem Step.of_opened (h : d.Step sectors (.key keyEnter) d') (hpage : d.page = .typing line)
    (hentered : commandOf line = some (.editor, name)) (hmedium : d.medium = .mounted folder)
    (hkeeps : folder.Keeps name text) : d'.page = .editing name (.editing text) := by
  obtain ⟨file, hfile, htext⟩ := hkeeps
  have hfile := hfile name ⟨rfl, fun _ _ => rfl⟩
  cases h with
  | typed hpage' hdata => exact absurd rfl hdata
  | entered hpage' hruns =>
    cases hpage.symm.trans hpage'
    rw [hmedium] at hruns
    cases hruns with
    | blank hword => cases hentered.symm.trans (commandOf_blank hword)
    | unknown hword hnone => cases hentered.symm.trans hnone
    | command hentered' hdoes =>
      cases hentered.symm.trans hentered'
      cases hdoes with
      | processes hcmd => rcases hcmd with hcmd | hcmd <;> cases hcmd
      | notMounted hcmd => rcases hcmd with hcmd | hcmd | hcmd <;> cases hcmd
      | noEditor hnone => exact absurd (hfile.symm.trans (hnone folder rfl)) (by rintro ⟨⟩)
  | opened hpage' hentered' hmedium' hfile' htext' =>
    cases hpage.symm.trans hpage'
    cases hentered.symm.trans hentered'
    cases hmedium.symm.trans hmedium'
    cases hfile.symm.trans hfile'
    rw [htext.unique htext']
  | stopped hpage' hentered' hlast =>
    cases hpage.symm.trans hpage'
    cases hentered.symm.trans hentered'
    cases hlast
  | edited hpage' => cases hpage.symm.trans hpage'
  | left hpage' => cases hpage.symm.trans hpage'
  | saved hpage' => cases hpage.symm.trans hpage'
  | off hpage' => cases hpage.symm.trans hpage'

end Desk

namespace Terminal

variable {t u : Terminal} {sectors : ℕ} {d : Desk} {event : Event}

/-- The same of the terminal. -/
def Spares (name : CString) (t : Terminal) : Event → Prop
  | .key data =>
    match t.reading with
    | .prompt => data = keyEnter → ∀ cmd arg, commandOf t.typed = some (cmd, arg) →
      cmd ≠ .formatting ∧ (cmd = .rm → ¬ SameName arg name)
    | .editor other e => (e.key other data).mode = .closed true → ¬ SameName other name
    | .stopped => True
  | _ => True

/-- Where the editor waits for a key, its session is on the desk. -/
theorem Follows.editing {e : Editor} (h : t.Follows sectors d)
    (hreading : t.reading = .editor name e) : ∃ session, d.page = .editing name session ∧
      t.Edits sectors d.medium d.screen name session ∧ e.Exact session := by
  unfold Follows at h
  cases hpage : d.page with
  | typing line =>
    rw [hpage] at h
    exact absurd (hreading.symm.trans h.1.reading) (by rintro ⟨⟩)
  | editing other session =>
    rw [hpage] at h
    obtain ⟨e', heditor, hexact, -⟩ := h.reading
    cases hreading.symm.trans heditor
    exact ⟨session, rfl, h, hexact⟩
  | off =>
    rw [hpage] at h
    exact absurd (hreading.symm.trans h.reading) (by rintro ⟨⟩)

theorem Follows.spares (h : t.Follows sectors d) (hspares : t.Spares name event) :
    d.Spares name event := by
  constructor
  · rintro line cmd arg rfl hpage hcommand
    rw [Follows, hpage] at h
    obtain ⟨hprompts, htyped, hlen⟩ := h
    rw [Spares, hprompts.reading] at hspares
    exact hspares rfl cmd arg ((typed_eq htyped hlen).symm ▸ hcommand)
  · rintro other session text data rfl hpage hended
    rw [Follows, hpage] at h
    obtain ⟨e, hreading, hexact, -⟩ := h.reading
    rw [Spares, hreading] at hspares
    have hnext := hexact.key other data
    rw [hended] at hnext
    exact hspares hnext.mode.ended

/-- The terminal still follows a desk that has the text. -/
theorem Follows.keeps {later : List (Move Terminal Event)} (h : t.Follows sectors d)
    (hkeeps : d.medium.Keeps name text)
    (hrun : Run step (fun t event => t.Fits event ∧ t.Spares name event) t later u) :
    ∃ d', u.Follows sectors d' ∧ d'.medium.Keeps name text := by
  refine hrun.invariant (P := fun u => ∃ d', u.Follows sectors d' ∧ d'.medium.Keeps name text)
    ⟨d, h, hkeeps⟩ ?_
  rintro t event u ⟨d, hfollows, hkeeps⟩ ⟨hfits, hspares⟩ hstep
  obtain rfl : t.event event = u := Option.some.inj hstep
  obtain ⟨d', hdesk, hnext⟩ := hfollows.event hfits
  exact ⟨d', hnext, hdesk.keeps hkeeps (hfollows.spares hspares)⟩

/-- The key that saves leaves the text on the disk. -/
theorem Follows.saves {e : Editor} (h : t.Follows sectors d)
    (hreading : t.reading = .editor name e) (hsaved : (e.key name data).mode = .closed true) :
    ∃ d' text, (t.key data).Follows sectors d' ∧ d'.medium.Keeps name text ∧
      Holds 0 (e.key name data).buffer text ∧ text.length < clusterSize := by
  obtain ⟨session, hpage, -, hexact⟩ := h.editing hreading
  have hnext := hexact.key name data
  have hfits : t.Fits (.key data) := by
    rw [Fits, hreading]
    trivial
  obtain ⟨d', hdesk, hfollows⟩ := h.event hfits
  have hmode := hnext.mode
  rw [hsaved] at hmode
  cases hsession : session.key data with
  | ended text saved =>
    rw [hsession] at hmode hnext
    obtain rfl : true = saved := hmode
    have hbound := hnext.keeps.bound
    rw [hnext.keeps.index] at hbound
    exact ⟨d', text, hfollows, hdesk.of_saved hpage hsession, hnext.keeps.buffer,
      Nat.lt_of_le_of_lt hbound (by decide)⟩
  | _ =>
    rw [hsession] at hmode
    exact hmode.elim

/-- The file can be opened, and the text is there. -/
theorem Follows.opens (h : u.Follows sectors d) (hkeeps : d.medium.Keeps name text)
    (hlen : text.length < clusterSize) (hprompt : u.reading = .prompt)
    (hmounted : u.fs.isMounted = true) (hcommand : commandOf u.typed = some (.editor, other))
    (hsame : SameName other name) : u.Fits (.key keyEnter) ∧
      ∃ e, (u.key keyEnter).reading = .editor other e ∧ e.Exact (.editing text) := by
  obtain ⟨line, hpage, hprompts, htyped, hshort⟩ := h.typing hprompt
  rw [typed_eq htyped hshort] at hcommand
  obtain ⟨folder, hfolder, file, hfile, htext⟩ := hkeeps
  have hmedium : d.medium = .mounted folder := by
    obtain ⟨mounted, heq⟩ := hprompts.fs.exists_folder hmounted
    rcases hfolder with hshelved | hmedium
    · cases heq.symm.trans hshelved
    · exact hmedium
  have hkept : folder.Keeps other text :=
    ⟨file, fun third hthird => hfile third (hthird.trans hsame), htext⟩
  have hfits : u.Fits (.key keyEnter) := by
    rw [Fits, hprompt]
    dsimp only
    rw [if_pos rfl, typed_eq htyped hshort, hcommand]
    rintro _ _ ⟨⟩ - stored hstored
    have hon := hprompts.fs
    rw [hmedium] at hon
    rw [hon.2.2.holds, hfile other hsame] at hstored
    cases hstored
    exact ⟨text.length, hlen, htext.end_eq⟩
  obtain ⟨d', hdesk, hnext⟩ := h.event hfits
  have hopened := hdesk.of_opened hpage hcommand hmedium hkept
  unfold Follows at hnext
  rw [hopened] at hnext
  obtain ⟨e, hreading, hexact, -⟩ := hnext.reading
  exact ⟨hfits, e, hreading, hexact⟩

/-- Keys of an editor that does not return. -/
theorem typeKeys {ok : Terminal → Event → Prop} {e : Editor} {session : Session}
    (hreading : t.reading = .editor name e) (hexact : e.Exact session) (keys : List BYTE)
    (hopen : ∀ n < keys.length, (session.keys (keys.take (n + 1))).Open)
    (hok : ∀ t data e', t.reading = .editor name e' → t.Fits (.key data) → ok t (.key data)) :
    ∃ history u e', Run step ok t history u ∧ u.reading = .editor name e' ∧
      e'.Exact (session.keys keys) := by
  induction keys generalizing t e session with
  | nil => exact ⟨[], t, e, .start, hreading, hexact⟩
  | cons data keys ih =>
    have hfits : t.Fits (.key data) := by
      rw [Fits, hreading]
      trivial
    have hnext := hexact.key name data
    have hmode := mode_open hnext (hopen 0 (Nat.zero_lt_succ _))
    have hreading' : (t.key data).reading = .editor name (e.key name data) := by
      rw [key_open hreading hmode]
    obtain ⟨history, u, e', hrun, hend, hlast⟩ := ih hreading' hnext fun n hn =>
      hopen (n + 1) (Nat.succ_lt_succ hn)
    have hfirst : Run step ok t [⟨t, .key data, t.key data⟩] (t.key data) :=
      .next .start (hok t data e hreading hfits) rfl
    exact ⟨_, u, e', hfirst.trans hrun, hend, hlast⟩

/-- A file is created on the small disk. -/
theorem small_touched (screen : Screen) (stack : Bytes) : ∃ history t,
    Run step Fits (boot (FileSystem.blank 100 (by decide)).disk screen stack) history t ∧
      t.At 100 (FileSystem.small.operate (.createFile [0x61])) := by
  obtain ⟨history, t, hrun, hmounted⟩ := small_mounted screen stack
  have htouch : commandOf (cString "touch a") = some (.touch, [0x61]) := by decide
  obtain ⟨later, u, hlater, hfile⟩ : ∃ later u, Run step Fits t later u ∧
      u.At 100 (FileSystem.small.operate (.createFile [0x61])) := by
    apply hmounted.call (by decide) (by decide) htouch (fun _ => FileSystem.small_touch) _
      (fun _ _ _ _ h => h) fun _ _ _ h => h
    intro t' hfs hreading
    rw [command, touch, (showMessage_fs _).1, (showMessage_fs _).2, hfs]
    exact ⟨rfl, hreading⟩
  exact ⟨_, u, hrun.trans hlater, hfile⟩

/-- It is empty: the cluster was zero. -/
theorem small_keeps {folder : Folder}
    (h : (FileSystem.small.operate (.createFile [0x61])).On 100 (.mounted folder)) :
    folder.Keeps [0x61] [] := by
  have hraw : (FileSystem.blank 100 (by decide)).On 100 .raw :=
    ⟨rfl, rfl, fun _ => rfl, by decide, by decide +kernel⟩
  have hempty : FileSystem.small.On 100 (.mounted .empty) := by
    rcases hraw.format.2.mount with ⟨hnone, -⟩ | ⟨folder, hfolder, -, hmounted⟩
    · cases hnone
    · rcases hfolder with heq | heq <;> cases heq
      exact hmounted
  obtain ⟨folder', hanswer, hon⟩ := hempty.answers FileSystem.small_touch (by
    rintro _ _ _ ⟨⟩)
  have hzero : ((FileSystem.small.operate (.createFile [0x61])).folder [0x61]).map
      (fun file => file.contents 0) = some 0 := by decide +kernel
  obtain rfl : folder' = folder := hon.2.2.holds.symm.trans h.2.2.holds
  rw [h.2.2.holds] at hzero
  cases hanswer with
  | created hnew =>
    rw [Folder.set, if_pos ⟨rfl, fun _ _ => rfl⟩] at hzero
    exact ⟨_, fun other hother => if_pos hother.symm, .nil (Option.some.inj hzero)⟩
  | full hnew hfull => cases hzero

/-- The editor of the new file, with a text, before the key that saves it. -/
theorem small_typed (screen : Screen) (stack : Bytes) : ∃ history t e,
    Run step Fits (boot (FileSystem.blank 100 (by decide)).disk screen stack) history t ∧
      t.reading = .editor [0x61] e ∧ e.Exact (.commanding [ascii 'h'] [ascii 'w']) := by
  have hcommand : commandOf (cString "editor a") = some (.editor, [0x61]) := by decide
  have hmounted : (FileSystem.small.operate (.createFile [0x61])).isMounted = true := by
    decide +kernel
  obtain ⟨history, t, hrun, medium, shown, hprompts, htyped, hfs⟩ := small_touched screen stack
  obtain ⟨folder, rfl⟩ := hprompts.fs.exists_folder (by rw [hfs, hmounted])
  have hkeeps := small_keeps (hfs ▸ hprompts.fs)
  obtain ⟨opening, t', shown', hopening, hprompts', htyped', hfs'⟩ :=
    hprompts.typeText htyped (cString "editor a") (by decide) (by decide) fun _ _ _ _ h => h
  have hfollows : t'.Follows 100 ⟨.mounted folder, .typing (cString "editor a"), shown'⟩ :=
    ⟨hprompts', htyped', by decide⟩
  have htext : t'.typed = cString "editor a" := typed_eq htyped' (by decide)
  obtain ⟨hfits, e, hreading, hexact⟩ := hfollows.opens ⟨folder, .inr rfl, hkeeps⟩ (by decide)
    hprompts'.reading (by rw [hfs', hfs, hmounted]) (htext ▸ hcommand) ⟨rfl, fun _ _ => rfl⟩
  have hopen : ∀ n < 3, ((Session.editing []).keys
      ([ascii 'h', keyEsc, ascii 'w'].take (n + 1))).Open := by
    intro n hn text saved heq
    rcases n with _ | _ | _ | n
    · cases heq
    · cases heq
    · cases heq
    · omega
  obtain ⟨typing, u, e', htyping, hedited, hlast⟩ :=
    typeKeys hreading hexact [ascii 'h', keyEsc, ascii 'w'] hopen fun _ _ _ _ h => h
  exact ⟨_, u, e', ((hrun.trans hopening).next hfits rfl).trans htyping, hedited, hlast⟩

/-- A machine with a file can be restarted, and its editor asked for. -/
theorem Follows.remounts (h : t.Follows sectors d) (hkeeps : d.medium.Keeps name text) :
    ∃ later u, Run step (fun t event => t.Fits event ∧ t.Spares name event) t later u ∧
      u.reading = .prompt ∧ u.fs.isMounted = true ∧
      commandOf u.typed = some (.editor, [0x61]) := by
  have hmount : commandOf (cString "mount") = some (.mountCommand, []) := by decide
  have heditor : commandOf (cString "editor a") = some (.editor, [0x61]) := by decide
  have hother (t : Terminal) (data : BYTE) (hdata : data ≠ keyEnter) (hreading : t.reading = .prompt)
      (hfits : t.Fits (.key data)) : t.Fits (.key data) ∧ t.Spares name (.key data) := by
    refine ⟨hfits, ?_⟩
    rw [Spares, hreading]
    exact fun heq => absurd heq hdata
  obtain ⟨hprompts, htyped, -⟩ := h.restart ⟨0, fun _ => ⟨0, 0⟩⟩ fun _ => 0
  have hmounted : (FileSystem.initFAT t.disk).mount.2.isMounted = true := by
    obtain ⟨folder, hfolder, -⟩ := hkeeps
    rcases hprompts.fs.mount with ⟨hraw, -⟩ | ⟨folder', -, -, hon⟩
    · rcases hfolder with heq | heq <;> rw [heq] at hraw <;> cases hraw
    · exact hon.isMounted
  obtain ⟨later, u, hlater, medium, screen, hprompts', htyped', hfs⟩ : ∃ later u,
      Run step (fun t event => t.Fits event ∧ t.Spares name event)
        (boot t.disk ⟨0, fun _ => ⟨0, 0⟩⟩ fun _ => 0) later u ∧
        u.At sectors (FileSystem.initFAT t.disk).mount.2 := by
    apply At.call ⟨_, _, hprompts, htyped, rfl⟩ (by decide) (by decide) hmount (fun _ => trivial) _
      hother
    · intro u hreading hline hfits
      refine ⟨hfits, ?_⟩
      rw [Spares, hreading]
      rintro - cmd arg hentered
      cases (hline ▸ hmount).symm.trans hentered
      exact ⟨by decide, by rintro ⟨⟩⟩
    · intro t' hfs hreading
      rw [command, (mountCommand_fs t').1, (mountCommand_fs t').2, hfs]
      exact ⟨rfl, hreading⟩
  obtain ⟨typing, v, screen', htyping, hend, hline, hsame⟩ : ∃ typing v screen',
      Run step (fun t event => t.Fits event ∧ t.Spares name event) u typing v ∧
        v.Prompts sectors medium screen' ∧ v.shell.Typed (cString "editor a") ∧ v.fs = u.fs :=
    hprompts'.typeText htyped' (cString "editor a") (by decide) (by decide) hother
  have hrestart : Run step (fun t event => t.Fits event ∧ t.Spares name event) t
      [⟨t, .restart ⟨0, fun _ => ⟨0, 0⟩⟩ fun _ => 0, boot t.disk _ _⟩] (boot t.disk _ _) :=
    .next .start ⟨trivial, trivial⟩ rfl
  have htext : v.typed = cString "editor a" := typed_eq hline (by decide)
  exact ⟨_, v, (hrestart.trans hlater).trans htyping, hend.reading, by rw [hsame, hfs, hmounted],
    htext ▸ heditor⟩

/-- From power-on with an unformatted disk: what the editor of a file has saved is the text that it
starts with when the file is opened the next time, whatever is typed in between, also in other
files, and however often the machine is restarted, unless the file is removed, the disk formatted,
or another text saved in it. -/
theorem saved_text_survives {disk : Disk} {screen : Screen} {stack : Bytes} {e : Editor}
    {history later : List (Move Terminal Event)} (hr : disk.Reliable)
    (hroom : 1 + linkSectorCountFor disk.totalSector + 8 ≤ disk.totalSector)
    (hsignature : readLE disk.data bootSignatureOffset 4 ≠ signatureFS)
    (hrun : Run step Fits (boot disk screen stack) history t)
    (hreading : t.reading = .editor name e) (hsaved : (e.key name data).mode = .closed true)
    (hlater : Run step (fun t event => t.Fits event ∧ t.Spares name event) (t.key data) later u)
    (hprompt : u.reading = .prompt) (hmounted : u.fs.isMounted = true)
    (hcommand : commandOf u.typed = some (.editor, other)) (hsame : SameName other name) :
    ∃ e' text, (u.key keyEnter).reading = .editor other e' ∧ e'.Exact (.editing text) ∧
      Holds 0 (e.key name data).buffer text := by
  obtain ⟨d, hfollows, -⟩ := boot_run hr hroom hsignature hrun
  obtain ⟨d', text, hfollows', hkeeps, htext, hlen⟩ := hfollows.saves hreading hsaved
  obtain ⟨d'', hfollows'', hkeeps'⟩ := hfollows'.keeps hkeeps hlater
  obtain ⟨-, e', hopened, hexact⟩ :=
    hfollows''.opens hkeeps' hlen hprompt hmounted hcommand hsame
  exact ⟨e', text, hopened, hexact, htext⟩

/-- A text is typed into a new file, the machine is restarted, and the disk mounted again. -/
theorem saved_text_survives_restart : ∃ history u e',
    Run step Fits (boot (FileSystem.blank 100 (by decide)).disk ⟨0, fun _ => ⟨0, 0⟩⟩ fun _ => 0)
      history u ∧
      (u.key keyEnter).reading = .editor [0x61] e' ∧ e'.Exact (.editing [ascii 'h']) := by
  obtain ⟨history, t, e, hrun, hreading, hexact⟩ := small_typed ⟨0, fun _ => ⟨0, 0⟩⟩ fun _ => 0
  have hnext := hexact.key [0x61] keyEnter
  have hsaved : (e.key [0x61] keyEnter).mode = .closed true := hnext.mode.ended
  obtain ⟨later, u, hlater, hprompt, hmounted, hcommand⟩ : ∃ later u,
      Run step (fun t event => t.Fits event ∧ t.Spares [0x61] event) (t.key keyEnter) later u ∧
        u.reading = .prompt ∧ u.fs.isMounted = true ∧
        commandOf u.typed = some (.editor, [0x61]) := by
    obtain ⟨d, hfollows, -⟩ := boot_run (fun _ => rfl) (by decide) (by decide +kernel) hrun
    obtain ⟨d', text, hfollows', hkeeps, -⟩ := hfollows.saves hreading hsaved
    exact hfollows'.remounts hkeeps
  obtain ⟨e', text, hopened, hedits, htext⟩ := saved_text_survives (fun _ => rfl) (by decide)
    (by decide +kernel) hrun hreading hsaved hlater hprompt hmounted hcommand ⟨rfl, fun _ _ => rfl⟩
  obtain rfl : text = [ascii 'h'] := htext.unique hnext.keeps.buffer
  have hfits : t.Fits (.key keyEnter) := by
    rw [Fits, hreading]
    trivial
  refine ⟨_, u, e', (hrun.next hfits rfl).trans (hlater.mono ?_), hopened, hedits⟩
  exact fun _ _ h => h.1

end Terminal
end SkhuOS
