import SkhuOS.Drivers.DiskDriver

/-! What the transfer functions of the disk driver do on every branch: which words they
move, what they report, and that they put back the lock they took. -/
namespace SkhuOS
open Foundation

namespace DiskRequest

/-- The request moves a word over a data port. -/
def MovesWord : DiskRequest → Prop
  | .getPortWord _ | .setPortWord _ _ => True
  | _ => False

/-- The request leaves the lock alone. -/
def Plain : DiskRequest → Prop
  | .acquireLock | .releaseLock => False
  | _ => True

/-- The request neither moves a word nor touches the lock. -/
def Quiet (r : DiskRequest) : Prop := r.Plain ∧ ¬ r.MovesWord

end DiskRequest

namespace DiskDriver
open Program

/-- No word is moved. -/
def Silent (t : List DiskEvent) : Prop := ∀ e ∈ t, ¬ e.1.MovesWord

/-- A wait ran out of time: for a status, or for the completion interrupt. -/
def TimedOut (t : List DiskEvent) : Prop :=
  ⟨.timeUp, ()⟩ ∈ t ∨ ∃ isPrimary, ⟨.waitInterrupt isPrimary, false⟩ ∈ t

/-- The device showed ERR in a status that was read. -/
def ErrShown (isPrimary : Bool) (t : List DiskEvent) : Prop :=
  ∃ status : BYTE, ⟨.getPort (portAddress isPrimary .status), status⟩ ∈ t ∧
    status &&& statusErr ≠ 0

def Failed (isPrimary : Bool) (t : List DiskEvent) : Prop := TimedOut t ∨ ErrShown isPrimary t

/-- The words of sector `i` of a buffer. -/
def sectorOf (buffer : Bytes) (i : ℕ) : List WORD :=
  (List.range 256).map fun j => wordOf buffer (i * 256 + j)

/-- A sector of `readSector`: its completion is signalled, and its words are read. -/
def received (isPrimary : Bool) (status : BYTE) (words : List WORD) : List DiskEvent :=
  [⟨.waitInterrupt isPrimary, true⟩, ⟨.clearDiskInterruptFlag isPrimary, ()⟩,
    ⟨.getPort (portAddress isPrimary .status), status⟩] ++
    words.map fun word => ⟨.getPortWord (portAddress isPrimary .data), word⟩

/-- The words of a sector of `writeSector` are sent. -/
def sent (isPrimary : Bool) (words : List WORD) : List DiskEvent :=
  ⟨.clearDiskInterruptFlag isPrimary, ()⟩ ::
    words.map fun word => ⟨.setPortWord (portAddress isPrimary .data) word, ()⟩

/-- The completion of a sector is signalled, with the status read behind it. -/
def signalled (isPrimary : Bool) (status : BYTE) : List DiskEvent :=
  [⟨.waitInterrupt isPrimary, true⟩, ⟨.getPort (portAddress isPrimary .status), status⟩]

/-- The events `t` read `n` sectors behind `before`, or stop early: `sectors` holds the
status and the words of every sector that was read. -/
structure Receives (isPrimary : Bool) (n : ℕ) (before t : List DiskEvent)
    (sectors : List (BYTE × List WORD)) : Prop where
  events : ∃ last, Silent last ∧
    t = before ++ sectors.flatMap (fun s => received isPrimary s.1 s.2) ++ last
  clean : ∀ s ∈ sectors, s.1 &&& statusErr = 0 ∧ s.2.length = 256
  length_le : sectors.length ≤ n
  short : sectors.length < n → Failed isPrimary t

/-- The buffer holds the words of the sectors that were read and is otherwise unchanged. -/
structure Stores (i : ℕ) (sectors : List (BYTE × List WORD)) (buffer buffer' : Bytes) : Prop where
  stored : (List.range sectors.length).map (fun j => sectorOf buffer' (i + j)) = sectors.map Prod.snd
  kept : ∀ x, x < 512 * i ∨ 512 * (i + sectors.length) ≤ x → buffer' x = buffer x

def ReadExact (isPrimary : Bool) (n : ℕ) (buffer : Bytes) (t : List DiskEvent)
    (result : ℤ × Bytes) : Prop :=
  ∃ before sectors, Silent before ∧ Receives isPrimary n before t sectors ∧
    result.1 = sectors.length ∧ Stores 0 sectors buffer result.2

/-- Behind the last sector that was completed: nothing more is sent, or one more sector,
whose completion is not signalled or shows ERR. -/
def Closes (isPrimary : Bool) (words : List WORD) (room : Prop) (t : List DiskEvent) : Prop :=
  Silent t ∨ room ∧ ∃ rest, t = sent isPrimary words ++ rest ∧ Silent rest ∧
    (rest = [⟨.waitInterrupt isPrimary, false⟩, ⟨.releaseLock, ()⟩] ∨
      ∃ status : BYTE, status &&& statusErr ≠ 0 ∧
        rest = signalled isPrimary status ++ [⟨.releaseLock, ()⟩])

/-- The events `t` send `n` sectors of the buffer behind `before`, from sector `i` on, or stop
early: `statuses` holds the status of every sector whose completion was signalled without
ERR. -/
structure Sends (isPrimary : Bool) (buffer : Bytes) (i n : ℕ) (before t : List DiskEvent)
    (statuses : List BYTE) : Prop where
  events : ∃ last, t = before ++ (statuses.zipIdx i).flatMap
      (fun s => sent isPrimary (sectorOf buffer s.2) ++ signalled isPrimary s.1) ++ last ∧
    Closes isPrimary (sectorOf buffer (i + statuses.length)) (statuses.length < n) last
  clean : ∀ status ∈ statuses, status &&& statusErr = 0
  length_le : statuses.length ≤ n
  short : statuses.length < n → Failed isPrimary t

def WriteExact (isPrimary : Bool) (n : ℕ) (buffer : Bytes) (t : List DiskEvent)
    (result : ℤ) : Prop :=
  ∃ before statuses, Silent before ∧ Sends isPrimary buffer 0 n before t statuses ∧
    result = statuses.length

variable {isPrimary isMaster : Bool} {t t' : List DiskEvent} {buffer buffer' : Bytes}
  {sectors : List (BYTE × List WORD)} {words : List WORD} {i n : ℕ}

theorem Silent.append (h : Silent t) (h' : Silent t') : Silent (t ++ t') := by
  intro e he
  rcases List.mem_append.mp he with he | he
  · exact h e he
  · exact h' e he

theorem silent_cons {e : DiskEvent} : Silent (e :: t) ↔ ¬ e.1.MovesWord ∧ Silent t :=
  List.forall_mem_cons

theorem silent_nil : Silent [] := fun _ he => absurd he List.not_mem_nil

theorem Failed.of_subset (h : Failed isPrimary t) (hsub : t ⊆ t') : Failed isPrimary t' := by
  rcases h with (h | ⟨c, h⟩) | ⟨status, h, herr⟩
  · exact .inl (.inl (hsub h))
  · exact .inl (.inr ⟨c, hsub h⟩)
  · exact .inr ⟨status, hsub h, herr⟩

theorem pollStatus_asks {verdict : BYTE → Option Bool} {rounds : ℕ} :
    (pollStatus isPrimary verdict rounds).Asks DiskRequest.Quiet := by
  induction rounds with
  | zero =>
    refine ⟨⟨trivial, id⟩, fun status => ?_⟩
    dsimp only [Program.bind]
    split
    · trivial
    · exact ⟨⟨trivial, id⟩, fun _ => trivial⟩
  | succ rounds ih =>
    refine ⟨⟨trivial, id⟩, fun status => ?_⟩
    dsimp only [Program.bind]
    split
    · trivial
    · exact ih

/-- A poll that fails saw a status that says so, or ran out of time. -/
theorem pollStatus_every {verdict : BYTE → Option Bool} {rounds : ℕ} :
    (pollStatus isPrimary verdict rounds).Every fun t ok => ok = false → TimedOut t ∨
      ∃ status : BYTE, ⟨.getPort (portAddress isPrimary .status), status⟩ ∈ t ∧
        verdict status = some false := by
  induction rounds with
  | zero =>
    intro status
    dsimp only [Program.bind]
    split
    next result heq =>
      rintro rfl
      exact .inr ⟨status, List.mem_cons_self, heq⟩
    · intro _ _
      exact .inl (.inl (List.mem_cons_of_mem _ List.mem_cons_self))
  | succ rounds ih =>
    intro status
    dsimp only [Program.bind]
    split
    next result heq =>
      rintro rfl
      exact .inr ⟨status, List.mem_cons_self, heq⟩
    · refine ih.mono fun t ok h hok => ?_
      rcases h hok with (h | ⟨c, h⟩) | ⟨seen, h, hseen⟩
      · exact .inl (.inl (List.mem_cons_of_mem _ h))
      · exact .inl (.inr ⟨c, List.mem_cons_of_mem _ h⟩)
      · exact .inr ⟨seen, List.mem_cons_of_mem _ h, hseen⟩

theorem waitStatus_asks {mask value : BYTE} :
    (waitStatus isPrimary mask value).Asks DiskRequest.Quiet :=
  ⟨⟨trivial, id⟩, fun _ => pollStatus_asks⟩

theorem waitStatus_every {mask value : BYTE} :
    (waitStatus isPrimary mask value).Every fun t ok => ok = false → Failed isPrimary t := by
  intro rounds
  refine pollStatus_every.mono fun t ok h hok => ?_
  rcases h hok with h | ⟨status, -, hstatus⟩
  · exact Failed.of_subset (.inl h) (List.subset_cons_self _ _)
  · split at hstatus <;> simp at hstatus

theorem waitDataRequest_asks : (waitDataRequest isPrimary).Asks DiskRequest.Quiet :=
  ⟨⟨trivial, id⟩, fun _ => pollStatus_asks⟩

theorem waitDataRequest_fails :
    (waitDataRequest isPrimary).Every fun t ok => ok = false → Failed isPrimary t := by
  intro rounds
  refine pollStatus_every.mono fun t ok h hok => ?_
  rcases h hok with h | ⟨status, hmem, hstatus⟩
  · exact Failed.of_subset (.inl h) (List.subset_cons_self _ _)
  · refine .inr ⟨status, List.mem_cons_of_mem _ hmem, fun hzero => ?_⟩
    unfold dataRequested at hstatus
    rw [hzero] at hstatus
    split at hstatus
    · cases hstatus
    · rw [if_neg (by decide)] at hstatus
      split at hstatus <;> cases hstatus

theorem waitDataRequest_every : (waitDataRequest isPrimary).Every fun t ok =>
    Silent t ∧ (ok = false → Failed isPrimary t) :=
  (waitDataRequest_asks.every.and waitDataRequest_fails).mono fun _ _ h =>
    ⟨fun e he => (h.1 e he).2, h.2⟩

theorem sendDiskCommand_asks {sectorCount : BYTE} {LBA : DWORD} {command : BYTE} :
    (sendDiskCommand isPrimary isMaster sectorCount LBA command).Asks DiskRequest.Quiet := by
  unfold sendDiskCommand
  refine waitStatus_asks.bind fun ready => ?_
  split
  · trivial
  · refine ⟨⟨trivial, id⟩, fun _ => ⟨⟨trivial, id⟩, fun _ => ⟨⟨trivial, id⟩, fun _ =>
      ⟨⟨trivial, id⟩, fun _ => ⟨⟨trivial, id⟩, fun _ => ?_⟩⟩⟩⟩⟩
    refine waitStatus_asks.bind fun ready => ?_
    split
    · trivial
    · exact ⟨⟨trivial, id⟩, fun _ => ⟨⟨trivial, id⟩, fun _ => trivial⟩⟩

theorem sendDiskCommand_fails {sectorCount : BYTE} {LBA : DWORD} {command : BYTE} :
    (sendDiskCommand isPrimary isMaster sectorCount LBA command).Every fun t ok =>
      ok = false → Failed isPrimary t := by
  unfold sendDiskCommand
  refine Every.bind (waitStatus_every.mono fun t ready h => ?_)
  cases ready with
  | false => exact fun _ => (h rfl).of_subset (List.subset_append_left _ _)
  | true =>
    simp only [setPort_bind, Bool.not_true, Bool.false_eq_true, if_false]
    intro _ _ _ _ _
    refine Every.bind (waitStatus_every.mono fun t' ready h' => ?_)
    cases ready with
    | false =>
      intro _
      refine (h' rfl).of_subset fun e he => ?_
      simp [he]
    | true => exact fun _ _ hok => nomatch hok

/-- Sending a command moves no word. -/
theorem sendDiskCommand_every {sectorCount : BYTE} {LBA : DWORD} {command : BYTE} :
    (sendDiskCommand isPrimary isMaster sectorCount LBA command).Every fun t ok =>
      Silent t ∧ (ok = false → Failed isPrimary t) :=
  (sendDiskCommand_asks.every.and sendDiskCommand_fails).mono fun _ _ h =>
    ⟨fun e he => (h.1 e he).2, h.2⟩

/-- The words `words` are stored from word `i` on. -/
def storeWords (buffer : Bytes) (i : ℕ) : List WORD → Bytes
  | [] => buffer
  | word :: words => storeWords (storeWord buffer i word) (i + 1) words

theorem storeWord_of_not_mem {word : WORD} {x : ℕ} (h : x < 2 * i ∨ 2 * (i + 1) ≤ x) :
    storeWord buffer i word x = buffer x :=
  writeLE_of_not_mem (by omega)

theorem wordOf_congr (h : ∀ x, 2 * i ≤ x → x < 2 * (i + 1) → buffer' x = buffer x) :
    wordOf buffer' i = wordOf buffer i := by
  unfold wordOf
  rw [readLE_congr fun x hx hx' => h x hx (by omega)]

theorem wordOf_storeWord {word : WORD} : wordOf (storeWord buffer i word) i = word := by
  unfold wordOf storeWord
  rw [readLE_writeLE, show 256 ^ 2 = 2 ^ 16 from rfl, Nat.mod_eq_of_lt word.isLt,
    BitVec.ofNat_toNat, BitVec.setWidth_eq]

theorem storeWords_of_not_mem {x : ℕ} (h : x < 2 * i ∨ 2 * (i + words.length) ≤ x) :
    storeWords buffer i words x = buffer x := by
  induction words generalizing buffer i with
  | nil => rfl
  | cons word words ih =>
    rw [List.length_cons] at h
    rw [storeWords, ih (by omega), storeWord_of_not_mem (by omega)]

theorem wordOf_storeWords : (List.range words.length).map
    (fun j => wordOf (storeWords buffer i words) (i + j)) = words := by
  induction words generalizing buffer i with
  | nil => rfl
  | cons word words ih =>
    have hrest := @ih (storeWord buffer i word) (i + 1)
    have hfirst : wordOf (storeWords buffer i (word :: words)) i = word := by
      have hkept : wordOf (storeWords buffer i (word :: words)) i =
          wordOf (storeWord buffer i word) i := by
        refine wordOf_congr fun x hx hx' => ?_
        rw [storeWords, storeWords_of_not_mem (by omega)]
      exact hkept.trans wordOf_storeWord
    rw [List.length_cons, List.range_succ_eq_map, List.map_cons, List.map_map, Nat.add_zero, hfirst]
    congr 1
    refine Eq.trans (List.map_congr_left fun j _ => ?_) hrest
    simp only [Function.comp_apply, storeWords]
    congr 1
    omega

theorem readWords_asks : (readWords isPrimary n i buffer).Asks DiskRequest.Plain := by
  induction n generalizing i buffer with
  | zero => trivial
  | succ n ih => exact ⟨trivial, fun _ => ih⟩

theorem readWords_every : (readWords isPrimary n i buffer).Every fun t buffer' =>
    ∃ words : List WORD, words.length = n ∧ buffer' = storeWords buffer i words ∧
      t = words.map fun word => ⟨.getPortWord (portAddress isPrimary .data), word⟩ := by
  induction n generalizing i buffer with
  | zero => exact ⟨[], rfl, rfl, rfl⟩
  | succ n ih =>
    intro word
    refine ih.mono fun t buffer' h => ?_
    obtain ⟨words, rfl, rfl, rfl⟩ := h
    exact ⟨word :: words, rfl, rfl, rfl⟩

theorem writeWords_asks : (writeWords isPrimary buffer n i).Asks DiskRequest.Plain := by
  induction n generalizing i with
  | zero => trivial
  | succ n ih => exact ⟨trivial, fun _ => ih⟩

theorem writeWords_every : (writeWords isPrimary buffer n i).Every fun t _ =>
    t = ((List.range n).map fun j => wordOf buffer (i + j)).map fun word =>
      ⟨.setPortWord (portAddress isPrimary .data) word, ()⟩ := by
  induction n generalizing i with
  | zero => rfl
  | succ n ih =>
    intro _
    refine ih.mono fun t _ h => ?_
    subst h
    have hrange : (List.range (n + 1)).map (fun j => wordOf buffer (i + j)) =
        wordOf buffer i :: (List.range n).map fun j => wordOf buffer (i + 1 + j) := by
      rw [List.range_succ_eq_map, List.map_cons, List.map_map]
      refine congrArg (wordOf buffer i :: ·) (List.map_congr_left fun j _ => ?_)
      rw [Function.comp_apply, Nat.add_assoc, Nat.add_comm 1]
    rw [hrange, List.map_cons]

theorem sectorOf_congr (h : ∀ x, 512 * i ≤ x → x < 512 * (i + 1) → buffer' x = buffer x) :
    sectorOf buffer' i = sectorOf buffer i := by
  unfold sectorOf
  refine List.map_congr_left fun j hj => wordOf_congr fun x hx hx' => ?_
  have hj := List.mem_range.mp hj
  exact h x (by omega) (by omega)

theorem sectorOf_storeWords (hlength : words.length = 256) :
    sectorOf (storeWords buffer (i * 256) words) i = words := by
  unfold sectorOf
  rw [← hlength]
  exact wordOf_storeWords

theorem Stores.nil : Stores i [] buffer buffer := ⟨rfl, fun _ _ => rfl⟩

/-- The words of one more sector are stored first. -/
theorem Stores.cons {status : BYTE} (hlength : words.length = 256)
    (h : Stores (i + 1) sectors (storeWords buffer (i * 256) words) buffer') :
    Stores i ((status, words) :: sectors) buffer buffer' := by
  constructor
  · have hfirst : sectorOf buffer' i = words := by
      have hkept : sectorOf buffer' i = sectorOf (storeWords buffer (i * 256) words) i :=
        sectorOf_congr fun x hx hx' => h.kept x (.inl hx')
      exact hkept.trans (sectorOf_storeWords hlength)
    rw [List.length_cons, List.range_succ_eq_map, List.map_cons, List.map_map, Nat.add_zero, hfirst,
      List.map_cons, ← h.stored]
    refine congrArg (words :: ·) (List.map_congr_left fun j _ => ?_)
    rw [Function.comp_apply, Nat.add_assoc, Nat.add_comm 1]
  · intro x hx
    rw [List.length_cons] at hx
    rw [h.kept x (by omega), storeWords_of_not_mem (by omega)]

variable {before : List DiskEvent} {statuses : List BYTE} {status : BYTE}

/-- A transfer that stops at once. -/
theorem Receives.stop (hsilent : Silent t) (hfail : 0 < n → Failed isPrimary t) :
    Receives isPrimary n [] t [] :=
  ⟨⟨t, hsilent, rfl⟩, List.forall_mem_nil _, Nat.zero_le n, hfail⟩

/-- One more sector is received first. -/
theorem Receives.cons (hclean : status &&& statusErr = 0) (hlength : words.length = 256)
    (h : Receives isPrimary n [] t sectors) : Receives isPrimary (n + 1) []
      (received isPrimary status words ++ t) ((status, words) :: sectors) := by
  obtain ⟨last, hlast, ht⟩ := h.events
  constructor
  · refine ⟨last, hlast, ?_⟩
    rw [ht, List.flatMap_cons, List.nil_append, List.nil_append, List.append_assoc]
  · rw [List.forall_mem_cons]
    exact ⟨⟨hclean, hlength⟩, h.clean⟩
  · exact Nat.succ_le_succ h.length_le
  · intro hshort
    exact (h.short (Nat.lt_of_succ_lt_succ hshort)).of_subset (List.subset_append_right _ _)

theorem Receives.after (h : Receives isPrimary n [] t sectors) :
    Receives isPrimary n before (before ++ t) sectors := by
  obtain ⟨last, hlast, ht⟩ := h.events
  refine ⟨⟨last, hlast, ?_⟩, h.clean, h.length_le, fun hshort => ?_⟩
  · rw [ht, List.nil_append, List.append_assoc]
  · exact (h.short hshort).of_subset (List.subset_append_right _ _)

/-- The loop of `readSector`. -/
theorem readSectors_every {sectorCount : ℤ} (hcount : sectorCount = i + n) :
    (readSectors isPrimary sectorCount n i buffer).Every fun t result => ∃ sectors,
      Receives isPrimary n [] t sectors ∧ result.1 = i + sectors.length ∧
        Stores i sectors buffer result.2 := by
  induction n generalizing i buffer with
  | zero =>
    intro _
    refine ⟨[], .stop ?_ (absurd · (Nat.lt_irrefl 0)), by simpa using hcount, .nil⟩
    exact silent_cons.mpr ⟨id, silent_nil⟩
  | succ n ih =>
    unfold readSectors
    rw [waitInterrupt_bind]
    intro ok
    cases ok with
    | false =>
      intro _
      refine ⟨[], .stop ?_ fun _ => ?_, (Int.add_zero _).symm, .nil⟩
      · exact silent_cons.mpr ⟨id, silent_cons.mpr ⟨id, silent_nil⟩⟩
      · exact .inl (.inr ⟨isPrimary, List.mem_cons_self⟩)
    | true =>
      simp only [clearDiskInterruptFlag_bind, getPort_bind, Bool.not_true, Bool.false_eq_true,
        if_false]
      intro _ status
      dsimp only
      by_cases herr : status &&& statusErr = 0
      · rw [if_neg (not_not_intro herr)]
        refine Every.bind (readWords_every.mono fun t' buffer' hread => ?_)
        obtain ⟨words, hlength, rfl, rfl⟩ := hread
        refine (ih (by omega)).mono fun t result h => ?_
        obtain ⟨sectors, hreceives, hresult, hstores⟩ := h
        refine ⟨(status, words) :: sectors, hreceives.cons herr hlength, ?_, hstores.cons hlength⟩
        rw [hresult, List.length_cons]
        omega
      · rw [if_pos herr]
        intro _
        refine ⟨[], .stop ?_ fun _ => ?_, (Int.add_zero _).symm, .nil⟩
        · refine silent_cons.mpr ⟨id, silent_cons.mpr ⟨id, silent_cons.mpr ⟨id, ?_⟩⟩⟩
          exact silent_cons.mpr ⟨id, silent_nil⟩
        · exact .inr ⟨status, by simp, herr⟩

theorem silent_released : Silent [⟨.releaseLock, ()⟩] := silent_cons.mpr ⟨id, silent_nil⟩

theorem readSector_exact {sectorCount : BYTE} {LBA : DWORD} (hcount : sectorCount.toInt = n) :
    (readSector isPrimary isMaster sectorCount LBA buffer).Every (ReadExact isPrimary n buffer) := by
  unfold readSector
  rw [acquireLock_bind]
  intro _
  refine Every.bind (sendDiskCommand_every.mono fun t ok h => ?_)
  obtain ⟨hquiet, hfail⟩ := h
  have hsilent : Silent (⟨.acquireLock, ()⟩ :: t) := silent_cons.mpr ⟨id, hquiet⟩
  cases ok with
  | false =>
    intro _
    refine ⟨[], [], silent_nil, .stop (hsilent.append silent_released) fun _ => ?_, rfl, .nil⟩
    refine (hfail rfl).of_subset fun e he => ?_
    exact List.mem_cons_of_mem _ (List.mem_append_left _ he)
  | true =>
    have hloop : (n : ℤ) = (0 : ℕ) + n := by omega
    simp only [Bool.not_true, Bool.false_eq_true, if_false, hcount, Int.toNat_natCast]
    refine (readSectors_every hloop).mono fun t' result h => ?_
    obtain ⟨sectors, hreceives, hresult, hstores⟩ := h
    exact ⟨_, sectors, hsilent, hreceives.after, by omega, hstores⟩

/-- A transfer that stops at once, perhaps with a sector that is not completed. -/
theorem Sends.stop (hcloses : Closes isPrimary (sectorOf buffer i) (0 < n) t)
    (hfail : 0 < n → Failed isPrimary t) : Sends isPrimary buffer i n [] t [] :=
  ⟨⟨t, rfl, hcloses⟩, List.forall_mem_nil _, Nat.zero_le n, hfail⟩

/-- One more sector is sent and completed first. -/
theorem Sends.cons (hclean : status &&& statusErr = 0)
    (h : Sends isPrimary buffer (i + 1) n [] t statuses) : Sends isPrimary buffer i (n + 1) []
      (sent isPrimary (sectorOf buffer i) ++ signalled isPrimary status ++ t)
      (status :: statuses) := by
  obtain ⟨last, ht, hcloses⟩ := h.events
  constructor
  · refine ⟨last, ?_, ?_⟩
    · simp only [ht, List.zipIdx_cons, List.flatMap_cons, List.nil_append, List.append_assoc]
    · rw [List.length_cons, Nat.add_lt_add_iff_right]
      rwa [Nat.add_right_comm] at hcloses
  · rw [List.forall_mem_cons]
    exact ⟨hclean, h.clean⟩
  · exact Nat.succ_le_succ h.length_le
  · intro hshort
    exact (h.short (Nat.lt_of_succ_lt_succ hshort)).of_subset (List.subset_append_right _ _)

theorem Sends.after (h : Sends isPrimary buffer i n [] t statuses) :
    Sends isPrimary buffer i n before (before ++ t) statuses := by
  obtain ⟨last, ht, hcloses⟩ := h.events
  refine ⟨⟨last, ?_, hcloses⟩, h.clean, h.length_le, fun hshort => ?_⟩
  · rw [ht, List.nil_append, List.append_assoc]
  · exact (h.short hshort).of_subset (List.subset_append_right _ _)

/-- The loop of `writeSector`. -/
theorem writeSectors_every {sectorCount : ℤ} (hcount : sectorCount = i + n) :
    (writeSectors isPrimary sectorCount buffer n i).Every fun t result => ∃ statuses,
      Sends isPrimary buffer i n [] t statuses ∧ result = i + statuses.length := by
  induction n generalizing i with
  | zero =>
    intro _
    refine ⟨[], .stop (.inl ?_) (absurd · (Nat.lt_irrefl 0)), by simpa using hcount⟩
    exact silent_cons.mpr ⟨id, silent_nil⟩
  | succ n ih =>
    unfold writeSectors
    rw [clearDiskInterruptFlag_bind]
    intro _
    refine Every.bind (writeWords_every.mono fun t' _ hwrite => ?_)
    have hsent : sent isPrimary (sectorOf buffer i) = ⟨.clearDiskInterruptFlag isPrimary, ()⟩ :: t' :=
      congrArg (_ :: ·) hwrite.symm
    rw [waitInterrupt_bind]
    intro ok
    cases ok with
    | false =>
      intro _
      refine ⟨[], .stop (.inr ⟨Nat.succ_pos n, _, ?_, ?_, .inl rfl⟩) fun _ => ?_,
        (Int.add_zero _).symm⟩
      · rw [hsent, List.cons_append]
      · exact silent_cons.mpr ⟨id, silent_cons.mpr ⟨id, silent_nil⟩⟩
      · exact .inl (.inr ⟨isPrimary, by simp⟩)
    | true =>
      simp only [getPort_bind, Bool.not_true, Bool.false_eq_true, if_false]
      intro status
      dsimp only
      by_cases herr : status &&& statusErr = 0
      · rw [if_neg (not_not_intro herr)]
        refine (ih (by omega)).mono fun t result h => ?_
        obtain ⟨statuses, hsends, hresult⟩ := h
        refine ⟨status :: statuses, ?_, ?_⟩
        · have hcons := hsends.cons herr
          rw [hsent] at hcons
          simpa [signalled] using hcons
        · rw [hresult, List.length_cons]
          omega
      · rw [if_pos herr]
        intro _
        refine ⟨[], .stop (.inr ⟨Nat.succ_pos n, _, ?_, ?_, .inr ⟨status, herr, rfl⟩⟩) fun _ => ?_,
          (Int.add_zero _).symm⟩
        · rw [hsent]
          rfl
        · refine silent_cons.mpr ⟨id, silent_cons.mpr ⟨id, ?_⟩⟩
          exact silent_cons.mpr ⟨id, silent_nil⟩
        · exact .inr ⟨status, by simp, herr⟩

theorem writeSector_exact {sectorCount : BYTE} {LBA : DWORD} (hcount : sectorCount.toInt = n) :
    (writeSector isPrimary isMaster sectorCount LBA buffer).Every
      (WriteExact isPrimary n buffer) := by
  unfold writeSector
  rw [acquireLock_bind]
  intro _
  refine Every.bind (sendDiskCommand_every.mono fun t ok h => ?_)
  obtain ⟨hquiet, hfail⟩ := h
  have hsilent : Silent (⟨.acquireLock, ()⟩ :: t) := silent_cons.mpr ⟨id, hquiet⟩
  cases ok with
  | false =>
    intro _
    have hall := hsilent.append silent_released
    refine ⟨[], [], silent_nil, .stop (.inl hall) fun _ => ?_, rfl⟩
    refine (hfail rfl).of_subset fun e he => ?_
    exact List.mem_cons_of_mem _ (List.mem_append_left _ he)
  | true =>
    simp only [Bool.not_true, Bool.false_eq_true, if_false]
    refine Every.bind (waitDataRequest_every.mono fun t' ok h => ?_)
    obtain ⟨hquiet', hfail'⟩ := h
    have hsilent' : Silent (⟨.acquireLock, ()⟩ :: (t ++ t')) :=
      silent_cons.mpr ⟨id, hquiet.append hquiet'⟩
    cases ok with
    | false =>
      intro _
      have hall := hsilent'.append silent_released
      rw [List.cons_append, List.append_assoc] at hall
      refine ⟨[], [], silent_nil, .stop (.inl hall) fun _ => ?_, rfl⟩
      refine (hfail' rfl).of_subset fun e he => ?_
      simp [he]
    | true =>
      have hloop : (n : ℤ) = (0 : ℕ) + n := by omega
      simp only [Bool.not_true, Bool.false_eq_true, if_false, hcount, Int.toNat_natCast]
      refine (writeSectors_every hloop).mono fun t'' result h => ?_
      obtain ⟨statuses, hsends, hresult⟩ := h
      have hafter : Sends isPrimary buffer 0 n (⟨.acquireLock, ()⟩ :: (t ++ t'))
          (⟨.acquireLock, ()⟩ :: (t ++ t') ++ t'') statuses := hsends.after
      rw [List.cons_append, List.append_assoc] at hafter
      exact ⟨_, statuses, hsilent', hafter, by omega⟩

/-- The program takes the lock first, and gives it back at the end of every branch. -/
def Guarded {α : Type} (program : Driver α) : Prop :=
  ∃ rest, program = .ask .acquireLock rest ∧ (rest ()).Ends DiskRequest.Plain .releaseLock

theorem readSectors_ends {sectorCount : ℤ} :
    (readSectors isPrimary sectorCount n i buffer).Ends DiskRequest.Plain .releaseLock := by
  induction n generalizing i buffer with
  | zero => exact ends_last
  | succ n ih =>
    unfold readSectors
    rw [waitInterrupt_bind]
    refine .inr ⟨trivial, fun ok => ?_⟩
    cases ok with
    | false => exact ends_last
    | true =>
      refine .inr ⟨trivial, fun _ => .inr ⟨trivial, fun status => ?_⟩⟩
      dsimp only [Program.bind]
      split
      · exact ends_last
      · exact .bind readWords_asks fun _ => ih

theorem writeSectors_ends {sectorCount : ℤ} :
    (writeSectors isPrimary sectorCount buffer n i).Ends DiskRequest.Plain .releaseLock := by
  induction n generalizing i with
  | zero => exact ends_last
  | succ n ih =>
    unfold writeSectors
    rw [clearDiskInterruptFlag_bind]
    refine .inr ⟨trivial, fun _ => .bind writeWords_asks fun _ => .inr ⟨trivial, fun ok => ?_⟩⟩
    cases ok with
    | false => exact ends_last
    | true =>
      refine .inr ⟨trivial, fun status => ?_⟩
      dsimp only [Program.bind]
      split
      · exact ends_last
      · exact ih

theorem sendDiskCommand_plain {sectorCount : BYTE} {LBA : DWORD} {command : BYTE} :
    (sendDiskCommand isPrimary isMaster sectorCount LBA command).Asks DiskRequest.Plain :=
  sendDiskCommand_asks.mono fun _ h => h.1

theorem waitStatus_plain {mask value : BYTE} :
    (waitStatus isPrimary mask value).Asks DiskRequest.Plain :=
  waitStatus_asks.mono fun _ h => h.1

theorem waitDataRequest_plain : (waitDataRequest isPrimary).Asks DiskRequest.Plain :=
  waitDataRequest_asks.mono fun _ h => h.1

theorem readSector_guarded {sectorCount : BYTE} {LBA : DWORD} :
    Guarded (readSector isPrimary isMaster sectorCount LBA buffer) := by
  unfold readSector
  refine ⟨_, acquireLock_bind _, .bind sendDiskCommand_plain fun ok => ?_⟩
  cases ok with
  | false => exact ends_last
  | true => exact readSectors_ends

theorem writeSector_guarded {sectorCount : BYTE} {LBA : DWORD} :
    Guarded (writeSector isPrimary isMaster sectorCount LBA buffer) := by
  unfold writeSector
  refine ⟨_, acquireLock_bind _, .bind sendDiskCommand_plain fun ok => ?_⟩
  cases ok with
  | false => exact ends_last
  | true =>
    refine .bind waitDataRequest_plain fun ok => ?_
    cases ok with
    | false => exact ends_last
    | true => exact writeSectors_ends

theorem readInformation_guarded : Guarded (readInformation isPrimary isMaster buffer) := by
  unfold readInformation
  simp only [setPort_bind, clearDiskInterruptFlag_bind]
  refine ⟨_, acquireLock_bind _, .bind waitStatus_plain fun ok => ?_⟩
  cases ok with
  | false => exact ends_last
  | true =>
    refine .inr ⟨trivial, fun _ => .bind waitStatus_plain fun ok => ?_⟩
    cases ok with
    | false => exact ends_last
    | true =>
      refine .inr ⟨trivial, fun _ => .inr ⟨trivial, fun _ => .bind waitDataRequest_plain ?_⟩⟩
      intro ok
      cases ok with
      | false => exact ends_last
      | true => exact .bind readWords_asks fun _ => ends_last

end DiskDriver
end SkhuOS
