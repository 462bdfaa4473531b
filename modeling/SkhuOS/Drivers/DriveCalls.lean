import Mathlib.Data.List.Induction
import SkhuOS.Drivers.DriveTransfers

/-! Sequences of calls of the driver, on the disks of a channel: the driver refines the disks that
its callers know, and the disk that the file system is written for. -/
namespace SkhuOS
open Foundation DiskDriver Program

namespace Channel

variable {c c' : Channel} {isPrimary isMaster : Bool}

section Prompt

variable {content sector : Bytes} {i n pos lba : ℕ} {sectorCount : BYTE} {LBA : DWORD}
  {buffer : Bytes} {β : Type}

theorem exists_shows (phase : DrivePhase) : ∃ status, phase.Shows status := by
  have hbits (busy err drq : Prop) [Decidable busy] [Decidable err] [Decidable drq] :
      ∃ status : BYTE, (status &&& statusBsy = statusBsy ↔ busy) ∧
        (status &&& statusErr = statusErr ↔ err) ∧ (status &&& statusDrq = statusDrq ↔ drq) := by
    by_cases busy <;> by_cases err <;> by_cases drq <;> simp only [*] <;> decide
  classical
  obtain ⟨status, hbusy, herr, hdrq⟩ := hbits phase.Busy (phase = .failed) phase.Requests
  exact ⟨status, hbusy, fun _ => ⟨herr, hdrq⟩⟩

/-- The channel answers every request. -/
theorem device_answers (c : Channel) (r : DiskRequest) :
    ∃ answer c', device isPrimary c r answer c' := by
  cases r with
  | startStopwatch => exact ⟨(0 : ℕ), c, c, .refl, rfl⟩
  | timeUp => exact ⟨(), c, c, .refl, rfl⟩
  | getPort port =>
    obtain ⟨status, hshows⟩ := exists_shows c.phase
    exact ⟨status, c, c, .refl, rfl, fun _ => hshows⟩
  | setPort port data =>
    by_cases hbusy : c.phase.Busy
    · exact ⟨(), c, c, .refl, .inl ⟨hbusy, rfl⟩⟩
    · exact ⟨(), _, c, .refl, .inr ⟨hbusy, rfl⟩⟩
  | getPortWord port =>
    obtain ⟨word, hoffers⟩ : ∃ word, c.Offers word := by
      unfold Offers
      split
      · exact ⟨_, rfl⟩
      · exact ⟨(0 : WORD), trivial⟩
    by_cases hport : port = portAddress isPrimary .data
    · refine ⟨word, c.sent, c, .refl, ?_⟩
      rw [Responds, if_pos hport]
      exact ⟨hoffers, rfl⟩
    · refine ⟨word, c, c, .refl, ?_⟩
      rw [Responds, if_neg hport]
  | setPortWord port word => exact ⟨(), _, c, .refl, rfl⟩
  | acquireLock => exact ⟨(), c, c, .refl, rfl⟩
  | releaseLock => exact ⟨(), c, c, .refl, rfl⟩
  | clearDiskInterruptFlag b => exact ⟨(), _, c, .refl, rfl⟩
  | waitInterrupt b => exact ⟨c.raised, c, c, .refl, rfl, fun _ => id⟩

theorem waitStatus_prompt {mask value status : BYTE} (hshows : c.phase.Shows status)
    (hmask : status &&& mask = value) :
    (waitStatus isPrimary mask value).Runs (device isPrimary) c true c := by
  have hpoll : (pollStatus isPrimary
      (fun status => if status &&& mask = value then some true else none) 0).Runs
      (device isPrimary) c true c := by
    unfold pollStatus
    rw [getPort_bind]
    have hstatus : device isPrimary c (.getPort (portAddress isPrimary .status)) status c :=
      ⟨c, .refl, rfl, fun _ => hshows⟩
    refine .ask hstatus ?_
    rw [if_pos hmask]
    exact .ret
  have hstart : device isPrimary c .startStopwatch (0 : ℕ) c := ⟨c, .refl, rfl⟩
  unfold waitStatus
  rw [startStopwatch_bind]
  exact .ask hstart hpoll

theorem waitDataRequest_prompt {d : Channel} (hmoves : Moves c d) (hrequests : d.phase.Requests)
    (hstill : ¬ d.phase.Busy) :
    (waitDataRequest isPrimary).Runs (device isPrimary) c true d := by
  have hok : d.phase ≠ .failed := by
    intro hfailed
    rw [hfailed] at hrequests
    exact hrequests
  obtain ⟨status, hshows⟩ := exists_shows d.phase
  have hverdict : dataRequested status = some true := by
    unfold dataRequested
    rw [if_neg (hshows.1.not.mpr hstill), if_neg ((hshows.2 hstill).1.not.mpr hok),
      if_pos ((hshows.2 hstill).2.mpr hrequests)]
  have hpoll : (pollStatus isPrimary dataRequested 0).Runs (device isPrimary) d true d := by
    have hstatus : device isPrimary d (.getPort (portAddress isPrimary .status)) status d :=
      ⟨d, .refl, rfl, fun _ => hshows⟩
    unfold pollStatus
    rw [getPort_bind]
    refine .ask hstatus ?_
    rw [hverdict]
    exact .ret
  have hstart : device isPrimary c .startStopwatch (0 : ℕ) d := ⟨d, .single hmoves, rfl⟩
  unfold waitDataRequest
  rw [startStopwatch_bind]
  exact .ask hstart hpoll

theorem idle_shows : DrivePhase.Shows .idle 0x40 :=
  ⟨⟨fun h => absurd h (by decide), False.elim⟩, fun _ =>
    ⟨⟨fun h => absurd h (by decide), fun h => by cases h⟩,
      ⟨fun h => absurd h (by decide), False.elim⟩⟩⟩

theorem setPort_prompt {register : DiskRegister} {data : BYTE} {rest : Unit → Driver β} {x : β}
    (hbusy : ¬ c.phase.Busy) (h : (rest ()).Runs (device isPrimary)
      (c.setRegister isPrimary (portAddress isPrimary register) data) x c') :
    (setPort isPrimary register data >>= rest).Runs (device isPrimary) c x c' :=
  .ask ⟨c, .refl, .inr ⟨hbusy, rfl⟩⟩ h

theorem sendDiskCommand_prompt {command : BYTE} (hidle : c.phase = .idle) :
    (sendDiskCommand isPrimary isMaster sectorCount LBA command).Runs (device isPrimary) c true
      ({ c.addressed isMaster sectorCount LBA with raised := false }.start command) := by
  have hstill : ¬ c.phase.Busy := by
    rw [hidle]
    exact id
  have hshows : c.phase.Shows 0x40 := by
    rw [hidle]
    exact idle_shows
  have hready : (waitReady isPrimary).Runs (device isPrimary)
      (c.addressed isMaster sectorCount LBA) true (c.addressed isMaster sectorCount LBA) :=
    waitStatus_prompt hshows (by decide)
  unfold sendDiskCommand
  refine Runs.bind (waitStatus_prompt hshows (by decide)) ?_
  have hclear (c : Channel) : device isPrimary c (.clearDiskInterruptFlag isPrimary) ()
      { c with raised := false } := ⟨c, .refl, (if_pos rfl).symm⟩
  cases isPrimary with
  | true =>
    exact setPort_prompt hstill (setPort_prompt hstill (setPort_prompt hstill (setPort_prompt hstill
      (setPort_prompt hstill (Runs.bind hready (.ask (hclear _) (setPort_prompt hstill .ret)))))))
  | false =>
    exact setPort_prompt hstill (setPort_prompt hstill (setPort_prompt hstill (setPort_prompt hstill
      (setPort_prompt hstill (Runs.bind hready (.ask (hclear _) (setPort_prompt hstill .ret)))))))

theorem readSectorWords_runs (hphase : c.phase = .sending content i n 0) :
    (readWords isPrimary 256 (i * 256) buffer).Runs (device isPrimary) c
      (copyBytes buffer (512 * i) content (512 * i) 512)
      { c with phase := if n ≤ 1 then .idle else .fetching content (i + 1) (n - 1) } := by
  have hserved : (readWords isPrimary 256 (i * 256) buffer).Served (device isPrimary) c
      fun x w => x = _ ∧ w = _ := readSectorWords_served hphase ⟨rfl, rfl⟩
  obtain ⟨x, w, hrun, rfl, rfl⟩ := hserved.runs device_answers
  exact hrun

theorem status_prompt {fail rest : Driver β} {x : β} (hbusy : ¬ c.phase.Busy)
    (hok : c.phase ≠ .failed) (h : rest.Runs (device isPrimary) c x c') :
    (getPort isPrimary .status >>= fun status =>
      if status &&& statusErr ≠ 0 then fail else rest).Runs (device isPrimary) c x c' := by
  obtain ⟨status, hshows⟩ := exists_shows c.phase
  have herr : ¬ status &&& statusErr ≠ 0 :=
    (err_bit status).not.mpr ((hshows.2 hbusy).1.not.mpr hok)
  have hstatus : device isPrimary c (.getPort (portAddress isPrimary .status)) status c :=
    ⟨c, .refl, rfl, fun _ => hshows⟩
  rw [getPort_bind]
  refine .ask hstatus ?_
  rw [if_neg herr]
  exact h

/-- Behind `remaining` more sectors the drive is idle. -/
theorem readSectors_prompt {k : ℤ} {remaining : ℕ} (hidle : remaining = 0 → c.phase = .idle)
    (hnext : 0 < remaining → c.phase = .fetching content i remaining) :
    ∃ r c', (readSectors isPrimary k remaining i buffer).Runs (device isPrimary) c r c' ∧
      r.1 = k ∧ c'.phase = .idle := by
  have hrelease (d : Channel) : device isPrimary d .releaseLock () d := ⟨d, .refl, rfl⟩
  induction remaining generalizing c i buffer with
  | zero => exact ⟨_, c, .ask (hrelease c) .ret, rfl, hidle rfl⟩
  | succ remaining ih =>
    have hphase := hnext (Nat.succ_pos _)
    let d := { c with phase := .sending content i (remaining + 1) 0, raised := true }
    have hwait : device isPrimary c (.waitInterrupt isPrimary) true d :=
      ⟨d, .single (.fetched hphase), rfl, fun _ _ => rfl⟩
    have hclear : device isPrimary d (.clearDiskInterruptFlag isPrimary) ()
        { d with raised := false } := ⟨d, .refl, (if_pos rfl).symm⟩
    have hwords : (readWords isPrimary 256 (i * 256) buffer).Runs (device isPrimary)
        { d with raised := false } _ _ := readSectorWords_runs rfl
    obtain ⟨r, c', hrest, hr, hidle⟩ := @ih { d with
      phase := if remaining + 1 ≤ 1 then .idle else .fetching content (i + 1) (remaining + 1 - 1)
      raised := false } (i + 1) (copyBytes buffer (512 * i) content (512 * i) 512)
      (fun h => if_pos (by omega)) (fun h => if_neg (by omega))
    exact ⟨r, c', .ask hwait (.ask hclear (status_prompt id (fun heq => by cases heq)
      (Runs.bind hwords hrest))), hr, hidle⟩

theorem writeSectorWords_runs (hphase : c.phase = .receiving isMaster lba n sector 0) :
    (writeWords isPrimary buffer 256 (i * 256)).Runs (device isPrimary) c ()
      { c with phase := .storing isMaster lba n (copyBytes sector 0 buffer (512 * i) 512) } := by
  have hserved : (writeWords isPrimary buffer 256 (i * 256)).Served (device isPrimary) c
      fun _ w => w = _ := writeSectorWords_served hphase rfl
  obtain ⟨x, w, hrun, rfl⟩ := hserved.runs device_answers
  exact hrun

theorem writeSectors_prompt {k : ℤ} {remaining : ℕ} (hidle : remaining = 0 → c.phase = .idle)
    (hnext : 0 < remaining → c.phase = .receiving isMaster lba remaining (fun _ => 0) 0) :
    ∃ c', (writeSectors isPrimary k buffer remaining i).Runs (device isPrimary) c k c' ∧
      c'.phase = .idle := by
  have hrelease (d : Channel) : device isPrimary d .releaseLock () d := ⟨d, .refl, rfl⟩
  induction remaining generalizing c i lba with
  | zero => exact ⟨c, .ask (hrelease c) .ret, hidle rfl⟩
  | succ remaining ih =>
    have hphase := hnext (Nat.succ_pos _)
    have hstill : ¬ c.phase.Busy := by
      rw [hphase]
      exact id
    have hclear : device isPrimary c (.clearDiskInterruptFlag isPrimary) ()
        { c with raised := false } := ⟨c, .refl, (if_pos rfl).symm⟩
    have hwords : (writeWords isPrimary buffer 256 (i * 256)).Runs (device isPrimary)
        { c with raised := false } () _ := writeSectorWords_runs hphase
    obtain ⟨d, hmoves, hraised, hnext⟩ : ∃ d, Moves { c with
        phase := .storing isMaster lba (remaining + 1)
          (copyBytes (fun _ => 0) 0 buffer (512 * i) 512)
        raised := false } d ∧ d.raised = true ∧ d.phase =
          if remaining = 0 then .idle else .receiving isMaster (lba + 1) remaining (fun _ => 0) 0 := by
      cases remaining with
      | zero => exact ⟨_, .last le_rfl rfl, rfl, rfl⟩
      | succ remaining => exact ⟨_, .more (by omega) rfl, rfl, rfl⟩
    have hwait : device isPrimary _ (.waitInterrupt isPrimary) true d :=
      ⟨d, .single hmoves, rfl, fun _ _ => hraised⟩
    have hstill' : ¬ d.phase.Busy := by
      rw [hnext]
      split <;> exact id
    have hok : d.phase ≠ .failed := by
      rw [hnext]
      split <;> exact fun heq => by cases heq
    obtain ⟨c', hrest, hidle⟩ := ih (i := i + 1) (fun h => by rw [hnext, if_pos h])
      (fun h => by rw [hnext, if_neg (by omega)])
    refine ⟨c', ?_, hidle⟩
    unfold writeSectors
    rw [clearDiskInterruptFlag_bind]
    refine .ask hclear (Runs.bind hwords ?_)
    exact .ask hwait (status_prompt hstill' hok hrest)

/-- The channel behind a command to an idle drive. -/
def commanded (c : Channel) (isMaster : Bool) (sectorCount : BYTE) (LBA : DWORD) : Channel :=
  { c.addressed isMaster sectorCount LBA with raised := false }

theorem commanded_spec (c : Channel) (isMaster : Bool) (sectorCount : BYTE) (LBA : DWORD) :
    Addressed isMaster sectorCount LBA (c.commanded isMaster sectorCount LBA) := by
  have h := c.addressed_spec isMaster sectorCount LBA
  exact ⟨h.1, h.2, h.3, h.4⟩

/-- A prompt drive that is idle completes each transfer. -/
theorem readSector_prompt (hidle : c.phase = .idle) (hpos : 0 < sectorCount.toInt) :
    ∃ r c', (readSector isPrimary isMaster sectorCount LBA buffer).Runs (device isPrimary) c r c' ∧
      r.1 = sectorCount.toInt ∧ c'.phase = .idle := by
  have hspec := c.commanded_spec isMaster sectorCount LBA
  have hsent : (sendDiskCommand isPrimary isMaster sectorCount LBA commandRead).Runs
      (device isPrimary) c true ((c.commanded isMaster sectorCount LBA).start commandRead) :=
    sendDiskCommand_prompt hidle
  have hphase := congrArg phase hspec.start_read
  rw [hspec.count hpos] at hphase
  obtain ⟨r, c', hloop, hr, hidle'⟩ := readSectors_prompt (fun h => by omega) fun _ => hphase
  have hacquire : device isPrimary c .acquireLock () c := ⟨c, .refl, rfl⟩
  refine ⟨r, c', ?_, hr, hidle'⟩
  unfold readSector
  rw [acquireLock_bind]
  exact .ask hacquire (Runs.bind hsent hloop)

theorem writeSector_prompt (hidle : c.phase = .idle) (hpos : 0 < sectorCount.toInt) :
    ∃ c', (writeSector isPrimary isMaster sectorCount LBA buffer).Runs (device isPrimary) c
      sectorCount.toInt c' ∧ c'.phase = .idle := by
  have hspec := c.commanded_spec isMaster sectorCount LBA
  have hsent : (sendDiskCommand isPrimary isMaster sectorCount LBA commandWrite).Runs
      (device isPrimary) c true ((c.commanded isMaster sectorCount LBA).start commandWrite) :=
    sendDiskCommand_prompt hidle
  have hphase := congrArg phase hspec.start_write
  rw [hspec.count hpos] at hphase
  generalize (c.commanded isMaster sectorCount LBA).start commandWrite = d at hsent hphase
  obtain ⟨e, hready, hphase'⟩ : ∃ e, (waitDataRequest isPrimary).Runs (device isPrimary) d true e ∧
      e.phase = .receiving isMaster (lbaOf LBA.toNat) sectorCount.toInt.toNat (fun _ => 0) 0 :=
    ⟨_, waitDataRequest_prompt (.prepared hphase) trivial id, rfl⟩
  obtain ⟨c', hloop, hidle'⟩ : ∃ c', (writeSectors isPrimary sectorCount.toInt buffer
      sectorCount.toInt.toNat 0).Runs (device isPrimary) e sectorCount.toInt c' ∧ c'.phase = .idle :=
    writeSectors_prompt (fun h => by omega) fun _ => hphase'
  have hacquire : device isPrimary c .acquireLock () c := ⟨c, .refl, rfl⟩
  refine ⟨c', ?_, hidle'⟩
  unfold writeSector
  rw [acquireLock_bind]
  exact .ask hacquire (Runs.bind hsent (Runs.bind hready hloop))

end Prompt

end Channel

/-- A call of the driver with its result. -/
inductive DiskCall where
  | readSector (isMaster : Bool) (sectorCount : BYTE) (LBA : DWORD) (buffer : Bytes) (r : ℤ × Bytes)
  | writeSector (isMaster : Bool) (sectorCount : BYTE) (LBA : DWORD) (buffer : Bytes) (r : ℤ)
  | readInformation (isMaster : Bool) (disk : Bytes) (r : Bool × Bytes)

namespace DiskCall

/-- The call is served by the channel `c`, which it leaves as `c'`. -/
def Happens (isPrimary : Bool) (c : Channel) (c' : Channel) : DiskCall → Prop
  | .readSector isMaster sectorCount LBA buffer r =>
    (DiskDriver.readSector isPrimary isMaster sectorCount LBA buffer).Runs
      (Channel.device isPrimary) c r c'
  | .writeSector isMaster sectorCount LBA buffer r =>
    (DiskDriver.writeSector isPrimary isMaster sectorCount LBA buffer).Runs
      (Channel.device isPrimary) c r c'
  | .readInformation isMaster disk r =>
    (DiskDriver.readInformation isPrimary isMaster disk).Runs (Channel.device isPrimary) c r c'

end DiskCall

/-- The calls of any number of processes, one behind the other as the lock serves them. -/
inductive DiskCalls (isPrimary : Bool) (c : Channel) : List DiskCall → Channel → Prop
  | none : DiskCalls isPrimary c [] c
  | next {calls : List DiskCall} {call : DiskCall} {d e : Channel}
      (hcalls : DiskCalls isPrimary c calls d) (hcall : call.Happens isPrimary d e) :
      DiskCalls isPrimary c (calls ++ [call]) e

namespace Medium

variable (a : Medium)

/-- The disks behind a call. -/
def behind : DiskCall → Medium
  | .writeSector isMaster sectorCount LBA buffer r =>
    a.written isMaster (lbaOf LBA.toNat) r.toNat buffer sectorCount.toInt.toNat
  | _ => a

/-- The result of the call is right for the disks `a`. -/
def Right : DiskCall → Prop
  | .readSector isMaster sectorCount LBA buffer r => a.Reads isMaster sectorCount LBA buffer r
  | .writeSector _ sectorCount _ _ r => r.toNat ≤ sectorCount.toInt.toNat
  | .readInformation isMaster disk r =>
    r.2 = if r.1 then copyBytes disk 0 (a.identity isMaster) 0 512 else disk

end Medium

namespace Channel

variable {c c' : Channel} {a : Medium} {isPrimary : Bool} {calls : List DiskCall}

/-- The disks of a channel at any time. -/
def medium (c : Channel) : Medium := ⟨c.media, c.identity, c.phase.Stores⟩

theorem medium_reflects (c : Channel) : Reflects c.medium c := ⟨fun _ _ _ => rfl, rfl, fun _ _ h => h⟩

theorem Reflects.call (h : Reflects a c) {call : DiskCall} (hcall : call.Happens isPrimary c c') :
    a.Right call ∧ Reflects (a.behind call) c' := by
  cases call with
  | readSector isMaster sectorCount LBA buffer r =>
    exact (Runs.served hcall (readSector_served h)).symm
  | writeSector isMaster sectorCount LBA buffer r =>
    have hserved : WroteUpTo a isMaster (lbaOf LBA.toNat) sectorCount.toInt.toNat buffer r c' :=
      Runs.served hcall (writeSector_served h)
    exact hserved
  | readInformation isMaster disk r =>
    exact (Runs.served hcall (readInformation_served h)).symm

/-- The calls on a channel that reflects some disks. -/
theorem Reflects.run (h : Reflects a c) (hcalls : DiskCalls isPrimary c calls c') :
    (∀ before call after, calls = before ++ call :: after →
      (before.foldl Medium.behind a).Right call) ∧ Reflects (calls.foldl Medium.behind a) c' := by
  induction hcalls with
  | none =>
    refine ⟨fun before call after heq => ?_, h⟩
    exact absurd heq.symm (by simp)
  | @next calls call d e hcalls hcall ih =>
    obtain ⟨hright, hreflects⟩ := ih
    obtain ⟨hlast, hafter⟩ := hreflects.call hcall
    rw [List.foldl_append]
    refine ⟨fun before call' after heq => ?_, hafter⟩
    rcases List.eq_nil_or_concat after with rfl | ⟨init, last, rfl⟩
    · obtain ⟨rfl, heq'⟩ := List.append_inj' heq rfl
      cases heq'
      exact hlast
    · rw [List.concat_eq_append, ← List.cons_append, ← List.append_assoc] at heq
      exact hright before call' init (List.append_inj' heq rfl).1

/-- Whatever the drives do: each call returns what the calls before it have left on the disks, but
for the sectors at which one of them failed. -/
theorem transfers_refine (hcalls : DiskCalls isPrimary c calls c') :
    (∀ before call after, calls = before ++ call :: after →
      (before.foldl Medium.behind c.medium).Right call) ∧
    Reflects (calls.foldl Medium.behind c.medium) c' := c.medium_reflects.run hcalls

/-- The disks are full of zeros, and a drive is idle. -/
def blank : Channel := ⟨fun _ _ => 0, fun _ _ => 0, 0, 0, 0, 0, 0, .idle, false⟩

/-- Two sectors are written from sector 100 on, and read back. -/
theorem exists_calls (buffer : Bytes) : ∃ r c', r.1 = 2 ∧ DiskCalls true blank
    [.writeSector true 2 100 buffer 2, .readSector true 2 100 (fun _ => 0) r] c' := by
  obtain ⟨c', hwrite, hidle⟩ := @writeSector_prompt blank true true 2 100 buffer rfl (by decide)
  obtain ⟨r, c'', hread, hr, -⟩ := @readSector_prompt c' true true 2 100 (fun _ => 0) hidle
    (by decide)
  have hcalls : DiskCalls true blank [.writeSector true 2 100 buffer 2] c' :=
    DiskCalls.none.next hwrite
  exact ⟨r, c'', hr, hcalls.next hread⟩

theorem transfers_refine_readback : ∃ r c', DiskCalls true blank
    [.writeSector true 2 100 (fun _ => 7) 2, .readSector true 2 100 (fun _ => 0) r] c' ∧
      ∀ x < 1024, r.2 x = 7 := by
  obtain ⟨r, c', hr, hcalls⟩ := exists_calls fun _ => 7
  refine ⟨r, c', hcalls, fun x hx => ?_⟩
  obtain ⟨-, hread, -⟩ := (transfers_refine hcalls).1 [_] _ [] rfl
  rw [hr] at hread
  have hdata : (blank.medium.behind (.writeSector true 2 100 (fun _ => 7) 2)).data true =
      copyBytes (fun _ => 0) (512 * 100) (fun _ => 7) 0 1024 := rfl
  have hsure (s : ℕ) : ¬ (blank.medium.behind (.writeSector true 2 100 (fun _ => 7) 2)).doubt true s := by
    rintro ⟨⟨n, sector, hphase⟩, -⟩
    cases hphase
  refine (hread x hx (hsure _)).trans ?_
  rw [List.foldl_cons, List.foldl_nil, hdata]
  exact copyBytes_of_mem hx

end Channel

namespace DiskCall

/-- The call lies inside the disk, and moved all its sectors. -/
def Complete (isMaster : Bool) (totalSector : ℕ) : DiskCall → Prop
  | .readSector m sectorCount LBA _ r => m = isMaster ∧ 0 < sectorCount.toInt ∧
    LBA.toNat + sectorCount.toInt.toNat ≤ totalSector ∧ r.1 = sectorCount.toInt
  | .writeSector m sectorCount LBA _ r => m = isMaster ∧ 0 < sectorCount.toInt ∧
    LBA.toNat + sectorCount.toInt.toNat ≤ totalSector ∧ r = sectorCount.toInt
  | .readInformation .. => True

end DiskCall

namespace Disk

variable (disk : Disk)

/-- The disk of the file system behind a call. -/
def behind : DiskCall → Disk
  | .readSector _ sectorCount LBA buffer _ =>
    (disk.readSector sectorCount.toInt.toNat LBA.toNat buffer).disk
  | .writeSector _ sectorCount LBA buffer _ =>
    (disk.writeSector sectorCount.toInt.toNat LBA.toNat buffer).2
  | .readInformation .. => disk

/-- The result of the call is the one of the disk. -/
def Gives : DiskCall → Prop
  | .readSector _ sectorCount LBA buffer r =>
    let transfer := disk.readSector sectorCount.toInt.toNat LBA.toNat buffer
    r.1 = transfer.count ∧ r.2 = transfer.buffer
  | .writeSector _ sectorCount LBA buffer r =>
    r = (disk.writeSector sectorCount.toInt.toNat LBA.toNat buffer).1
  | .readInformation .. => True

end Disk

namespace Channel

variable {c c' : Channel} {a : Medium} {isPrimary isMaster : Bool} {calls : List DiskCall}
  {call : DiskCall} {disk : Disk}

/-- The disk of the file system is the medium, and nothing is in doubt. -/
structure Sure (isMaster : Bool) (totalSector : ℕ) (disk : Disk) (a : Medium) : Prop where
  reliable : disk.Reliable
  size : disk.totalSector = totalSector
  data : a.data isMaster = disk.data
  sure : ∀ m s, ¬ a.doubt m s

theorem Sure.follows {totalSector : ℕ} (h : Sure isMaster totalSector disk a) (hright : a.Right call)
    (hcomplete : call.Complete isMaster totalSector) :
    disk.Gives call ∧ Sure isMaster totalSector (disk.behind call) (a.behind call) := by
  obtain ⟨hreliable, rfl, hdata, hsure⟩ := h
  cases call with
  | readSector m sectorCount LBA buffer r =>
    obtain ⟨rfl, hpos, hroom, hcount⟩ := hcomplete
    have hread : disk.readSector _ _ buffer = _ := hreliable.readSector_eq hroom (by omega)
    have hlba : lbaOf LBA.toNat = LBA.toNat := disk.lbaOf_eq (by omega)
    obtain ⟨hmost, hin, hrest⟩ := hright
    have hgives : disk.Gives (.readSector m sectorCount LBA buffer r) := by
      show r.1 = _ ∧ r.2 = _
      rw [hread, hcount]
      dsimp only
      refine ⟨(Int.toNat_of_nonneg (by omega)).symm, funext fun x => ?_⟩
      rw [hcount, hlba] at hin
      rw [hcount] at hrest
      unfold copyBytes
      split
      next hx => rw [hin x (by omega) (hsure _ _), hdata, Nat.sub_zero]
      next hx => exact hrest x (by omega)
    have hbehind : disk.behind (.readSector m sectorCount LBA buffer r) = disk := by
      show (disk.readSector _ _ _).disk = disk
      rw [hread]
    rw [hbehind]
    exact ⟨hgives, hreliable, rfl, hdata, hsure⟩
  | writeSector m sectorCount LBA buffer r =>
    obtain ⟨rfl, hpos, hroom, rfl⟩ := hcomplete
    have hwrite : disk.writeSector _ _ buffer = _ := hreliable.writeSector_eq hroom (by omega)
    have hlba : lbaOf LBA.toNat = LBA.toNat := disk.lbaOf_eq (by omega)
    have hgives : disk.Gives (.writeSector m sectorCount LBA buffer sectorCount.toInt) := by
      show _ = _
      rw [hwrite]
      exact (Int.toNat_of_nonneg (by omega)).symm
    have hbehind : disk.behind (.writeSector m sectorCount LBA buffer sectorCount.toInt) =
        { disk with
          data := copyBytes disk.data (512 * LBA.toNat) buffer 0
            (512 * sectorCount.toInt.toNat) } := congrArg Prod.snd hwrite
    have hafter : a.behind (.writeSector m sectorCount LBA buffer sectorCount.toInt) =
        a.wrote m LBA.toNat sectorCount.toInt.toNat buffer := by
      show a.written _ _ _ _ _ = _
      rw [hlba]
      exact if_neg (lt_irrefl _)
    rw [hbehind, hafter]
    refine ⟨hgives, hreliable, rfl, ?_, fun m s hdoubt => hsure m s hdoubt.1⟩
    have hwrote : (a.wrote m LBA.toNat sectorCount.toInt.toNat buffer).data m =
        copyBytes (a.data m) (512 * LBA.toNat) buffer 0 (512 * sectorCount.toInt.toNat) :=
      Function.update_self _ _ _
    rw [hwrote, hdata]
  | readInformation => exact ⟨trivial, hreliable, rfl, hdata, hsure⟩

/-- Complete transfers are those of the disk that the file system is written for. -/
theorem calls_exact (hreliable : disk.Reliable) (hdata : c.media isMaster = disk.data)
    (hready : ¬ c.phase.Busy) (hcalls : DiskCalls isPrimary c calls c')
    (hcomplete : ∀ call ∈ calls, call.Complete isMaster disk.totalSector) :
    (∀ before call after, calls = before ++ call :: after →
      (before.foldl Disk.behind disk).Gives call) ∧
    c'.media isMaster = (calls.foldl Disk.behind disk).data := by
  obtain ⟨hright, hreflects⟩ := c.medium_reflects.run hcalls
  have hstart : Sure isMaster disk.totalSector disk c.medium :=
    ⟨hreliable, rfl, hdata, fun m s ⟨n, sector, hphase⟩ => hready (by rw [hphase]; trivial)⟩
  have hfold : ∀ done rest, calls = done ++ rest → Sure isMaster disk.totalSector
      (done.foldl Disk.behind disk) (done.foldl Medium.behind c.medium) := by
    intro done
    induction done using List.reverseRecOn with
    | nil => exact fun _ _ => hstart
    | append_singleton done call ih =>
      intro rest heq
      rw [List.append_assoc] at heq
      rw [List.foldl_append, List.foldl_append]
      refine ((ih _ heq).follows (hright done call rest heq) (hcomplete call ?_)).2
      rw [heq]
      simp
  refine ⟨fun before call after heq => ?_, ?_⟩
  · refine ((hfold before _ heq).follows (hright before call after heq) (hcomplete call ?_)).1
    rw [heq]
    simp
  · have hlast := hfold calls [] (List.append_nil _).symm
    rw [← hlast.data]
    exact funext fun x => hreflects.data isMaster x (hlast.sure _ _)

theorem calls_exact_readback : ∃ r c', DiskCalls true blank
    [.writeSector true 2 100 (fun _ => 7) 2, .readSector true 2 100 (fun _ => 0) r] c' ∧
      ∀ x < 1024, r.2 x = 7 := by
  obtain ⟨r, c', hr, hcalls⟩ := exists_calls fun _ => 7
  let disk : Disk := ⟨1000, by decide, fun _ => 0, fun _ => false⟩
  have hcomplete : ∀ call ∈ [DiskCall.writeSector true 2 100 (fun _ => 7) 2,
      .readSector true 2 100 (fun _ => 0) r], call.Complete true disk.totalSector := by
    rintro call (_ | ⟨_, _ | ⟨_, hcall⟩⟩)
    · exact ⟨rfl, by decide, by decide, rfl⟩
    · exact ⟨rfl, by decide, by decide, hr⟩
    · cases hcall
  obtain ⟨-, hbuffer⟩ :=
    (calls_exact (fun _ => rfl) rfl id hcalls hcomplete).1 [_] _ [] rfl
  have hread : r.2 = copyBytes (fun _ => 0) 0
      (copyBytes (fun _ => 0) (512 * 100) (fun _ => 7) 0 1024) (512 * 100) 1024 := hbuffer
  refine ⟨r, c', hcalls, fun x hx => ?_⟩
  have hcopied := @copyBytes_of_mem (copyBytes (fun _ => 0) (512 * 100) (fun _ => 7) 0 1024)
    (fun _ => 0) 1024 0 (512 * 100) x hx
  rw [Nat.zero_add] at hcopied
  rw [hread, hcopied]
  exact copyBytes_of_mem hx

end Channel
end SkhuOS
