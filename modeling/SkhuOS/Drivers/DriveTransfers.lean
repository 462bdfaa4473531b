import SkhuOS.Drivers.Drive

/-! The driver on a channel: what its transfers leave on the disks and in their buffers, whatever
the drives do in between. -/
namespace SkhuOS
open Foundation DiskDriver Program

/-- The disks as the callers of the driver know them: a sector is in doubt when a transfer has
failed at it. -/
structure Medium where
  data : Bool → Bytes
  identity : Bool → Bytes
  doubt : Bool → ℕ → Prop

namespace Medium

variable (a : Medium) (isMaster : Bool) (lba n : ℕ) (buffer : Bytes)

def wrote : Medium :=
  { a with
    data := Function.update a.data isMaster
      (copyBytes (a.data isMaster) (sectorSize * lba) buffer 0 (sectorSize * n))
    doubt := fun m s => a.doubt m s ∧ ¬ (m = isMaster ∧ lba ≤ s ∧ s < lba + n) }

def doubting : Medium := { a with doubt := fun m s => m = isMaster ∧ s = lba ∨ a.doubt m s }

/-- What a transfer that wrote `n` of `total` sectors leaves. -/
def written (total : ℕ) : Medium :=
  if n < total then (a.wrote isMaster lba n buffer).doubting isMaster (lba + n)
  else a.wrote isMaster lba n buffer

end Medium

namespace Channel

/-- The disks hold what `a` says, and the drives change nothing that is not in doubt. -/
structure Reflects (a : Medium) (c : Channel) : Prop where
  data : ∀ m x, ¬ a.doubt m (x / sectorSize) → c.media m x = a.data m x
  identity : c.identity = a.identity
  stores : ∀ m lba, c.phase.Stores m lba → a.doubt m lba

variable {c c' d : Channel} {a : Medium} {isPrimary isMaster : Bool} {content : Bytes}
  {i n pos lba : ℕ} {β : Type}

theorem Moves.busy (h : Moves c d) : c.phase.Busy := by
  cases h with
  | fetched h => rw [h]; trivial
  | prepared h => rw [h]; trivial
  | last _ h => rw [h]; trivial
  | more _ h => rw [h]; trivial
  | fails h => exact h
  | spoils _ h => rw [h]; trivial

/-- A drive that is not busy waits for the driver. -/
theorem Drifts.eq (h : c.Drifts d) (hbusy : ¬ c.phase.Busy) : d = c := by
  rcases Relation.ReflTransGen.cases_head h with rfl | ⟨e, hmove, -⟩
  · rfl
  · exact absurd hmove.busy hbusy

theorem stored_outside {sector : Bytes} {m : Bool} {x : ℕ}
    (h : m = isMaster → x / sectorSize ≠ lba) : c.stored isMaster lba sector m x = c.media m x := by
  unfold stored
  by_cases hm : m = isMaster
  · subst hm
    have hne := h rfl
    unfold sectorSize at hne ⊢
    rw [Function.update_self, copyBytes_of_not_mem (by omega)]
  · rw [Function.update_of_ne hm]

theorem Reflects.stored (h : Reflects a c) {sector : Bytes} (hlba : a.doubt isMaster lba) (m : Bool)
    (x : ℕ) (hx : ¬ a.doubt m (x / sectorSize)) :
    c.stored isMaster lba sector m x = a.data m x := by
  rw [stored_outside, h.data m x hx]
  rintro rfl heq
  exact hx (heq ▸ hlba)

theorem Reflects.congr (h : Reflects a c) (hmedia : d.media = c.media)
    (hidentity : d.identity = c.identity) (hphase : d.phase = c.phase) : Reflects a d :=
  ⟨fun m x hx => hmedia ▸ h.data m x hx, hidentity.trans h.identity,
    fun m lba hstores => h.stores m lba (hphase ▸ hstores)⟩

theorem Reflects.still (h : Reflects a c) (hmedia : d.media = c.media)
    (hidentity : d.identity = c.identity)
    (hphase : ∀ m lba n sector, d.phase ≠ .storing m lba n sector) : Reflects a d :=
  ⟨fun m x hx => hmedia ▸ h.data m x hx, hidentity.trans h.identity,
    fun m lba ⟨n, sector, hstores⟩ => absurd hstores (hphase m lba n sector)⟩

/-- The drive stops storing, and has changed nothing, or a sector in doubt. -/
theorem Reflects.moves (h : Reflects a c) (hmove : Moves c d) : Reflects a d := by
  cases hmove with
  | fetched => exact ⟨h.data, h.identity, fun m lba ⟨n, sector, hphase⟩ => by cases hphase⟩
  | prepared => exact ⟨h.data, h.identity, fun m lba ⟨n, sector, hphase⟩ => by cases hphase⟩
  | last _ hphase =>
    exact ⟨h.stored (h.stores _ _ ⟨_, _, hphase⟩), h.identity,
      fun m lba ⟨n, sector, hphase⟩ => by cases hphase⟩
  | more _ hphase =>
    exact ⟨h.stored (h.stores _ _ ⟨_, _, hphase⟩), h.identity,
      fun m lba ⟨n, sector, hphase⟩ => by cases hphase⟩
  | fails => exact ⟨h.data, h.identity, fun m lba ⟨n, sector, hphase⟩ => by cases hphase⟩
  | spoils _ hphase =>
    exact ⟨h.stored (h.stores _ _ ⟨_, _, hphase⟩), h.identity,
      fun m lba ⟨n, sector, hphase⟩ => by cases hphase⟩

theorem Reflects.drifts (h : Reflects a c) (hdrift : c.Drifts d) : Reflects a d := by
  induction hdrift with
  | refl => exact h
  | tail _ hmove ih => exact ih.moves hmove

section Waiting

/-- A drive that is not busy answers as it is. -/
theorem served_still {r : DiskRequest} {rest : r.Answer → Driver β} {Q : β → Channel → Prop}
    (hbusy : ¬ c.phase.Busy) : (ask r rest).Served (device isPrimary) c Q ↔
      ∀ answer c', c.Responds isPrimary r answer c' → (rest answer).Served (device isPrimary) c' Q := by
  constructor
  · exact fun h answer c' hresponds => h answer c' ⟨c, .refl, hresponds⟩
  · rintro h answer c' ⟨d, hdrift, hresponds⟩
    rw [hdrift.eq hbusy] at hresponds
    exact h answer c' hresponds

theorem releaseLock_served {x : β} {Q : β → Channel → Prop} (hQ : ∀ d, c.Drifts d → Q x d) :
    (ask .releaseLock fun _ => ret x : Driver β).Served (device isPrimary) c Q := by
  rintro _ c' ⟨d, hdrift, rfl⟩
  exact hQ _ hdrift

theorem pollStatus_served {verdict : BYTE → Option Bool} {rounds : ℕ} {Q : Bool → Channel → Prop}
    (hlate : ∀ d, c.Drifts d → Q false d)
    (hdone : ∀ d status result, c.Drifts d → d.phase.Shows status → verdict status = some result →
      Q result d) : (pollStatus isPrimary verdict rounds).Served (device isPrimary) c Q := by
  induction rounds generalizing c with
  | zero =>
    unfold pollStatus
    rw [getPort_bind]
    rintro status c' ⟨d, hdrift, rfl, hshows⟩
    dsimp only
    cases hverdict : verdict status with
    | some result => exact hdone _ status result hdrift (hshows rfl) hverdict
    | none =>
      simp only [timeUp_bind, pure_eq]
      rintro _ c'' ⟨e, hdrift', rfl⟩
      exact hlate _ (hdrift.trans hdrift')
  | succ rounds ih =>
    unfold pollStatus
    rw [getPort_bind]
    rintro status c' ⟨d, hdrift, rfl, hshows⟩
    dsimp only
    cases hverdict : verdict status with
    | some result => exact hdone _ status result hdrift (hshows rfl) hverdict
    | none =>
      exact ih (fun e hdrift' => hlate e (hdrift.trans hdrift')) fun e status result hdrift' =>
        hdone e status result (hdrift.trans hdrift')

theorem waitStatus_served {mask value : BYTE} {Q : Bool → Channel → Prop}
    (hlate : ∀ d, c.Drifts d → Q false d)
    (hdone : ∀ d status, c.Drifts d → d.phase.Shows status → status &&& mask = value → Q true d) :
    (waitStatus isPrimary mask value).Served (device isPrimary) c Q := by
  unfold waitStatus
  rw [startStopwatch_bind]
  rintro rounds c' ⟨d, hdrift, rfl⟩
  refine pollStatus_served (fun e hdrift' => hlate e (hdrift.trans hdrift'))
    fun e status result hdrift' hshows hverdict => ?_
  split at hverdict
  next hvalue =>
    cases hverdict
    exact hdone e status (hdrift.trans hdrift') hshows hvalue
  · cases hverdict

theorem waitNoBusy_served {Q : Bool → Channel → Prop} (hlate : ∀ d, c.Drifts d → Q false d)
    (hdone : ∀ d, c.Drifts d → ¬ d.phase.Busy → Q true d) :
    (waitNoBusy isPrimary).Served (device isPrimary) c Q :=
  waitStatus_served hlate fun d status hdrift hshows hvalue => hdone d hdrift fun hbusy => by
    rw [hshows.1.mpr hbusy] at hvalue
    exact absurd hvalue (by decide)

theorem waitReady_served {Q : Bool → Channel → Prop} (hbusy : ¬ c.phase.Busy) (hlate : Q false c)
    (hdone : Q true c) : (waitReady isPrimary).Served (device isPrimary) c Q :=
  waitStatus_served (fun _ hdrift => hdrift.eq hbusy ▸ hlate)
    fun _ _ hdrift _ _ => hdrift.eq hbusy ▸ hdone

/-- The driver goes on when the drive has set DRQ. -/
theorem waitDataRequest_served {Q : Bool → Channel → Prop} (hlate : ∀ d, c.Drifts d → Q false d)
    (hdone : ∀ d, c.Drifts d → d.phase.Requests → Q true d) :
    (waitDataRequest isPrimary).Served (device isPrimary) c Q := by
  unfold waitDataRequest
  rw [startStopwatch_bind]
  rintro rounds c' ⟨d, hdrift, rfl⟩
  refine pollStatus_served (fun e hdrift' => hlate e (hdrift.trans hdrift'))
    fun e status result hdrift' hshows hverdict => ?_
  unfold dataRequested at hverdict
  split at hverdict
  · cases hverdict
  next hbusy =>
    have hbits := hshows.2 (hshows.1.not.mp hbusy)
    split at hverdict
    · cases hverdict
      exact hlate e (hdrift.trans hdrift')
    · split at hverdict
      next hdrq =>
        cases hverdict
        exact hdone e (hdrift.trans hdrift') (hbits.2.mp hdrq)
      · cases hverdict

theorem setPort_served {register : DiskRegister} {data : BYTE} {rest : Unit → Driver β}
    {Q : β → Channel → Prop} (hbusy : ¬ c.phase.Busy)
    (h : (rest ()).Served (device isPrimary)
      (c.setRegister isPrimary (portAddress isPrimary register) data) Q) :
    (setPort isPrimary register data >>= rest).Served (device isPrimary) c Q := by
  rw [setPort_bind, served_still hbusy]
  rintro _ c' (⟨hbusy', -⟩ | ⟨-, rfl⟩)
  · exact absurd hbusy' hbusy
  · exact h

theorem clearDiskInterruptFlag_served {rest : Unit → Driver β} {Q : β → Channel → Prop}
    (hbusy : ¬ c.phase.Busy)
    (h : (rest ()).Served (device isPrimary) { c with raised := false } Q) :
    (clearDiskInterruptFlag isPrimary >>= rest).Served (device isPrimary) c Q := by
  rw [clearDiskInterruptFlag_bind, served_still hbusy]
  rintro _ c' rfl
  rw [if_pos rfl]
  exact h

/-- The registers hold what a command is to work on. -/
structure Addressed (isMaster : Bool) (sectorCount : BYTE) (LBA : DWORD) (d : Channel) : Prop where
  sectorCount : d.sectorCount = sectorCount
  lba : d.lba = lbaOf LBA.toNat
  isMaster : d.isMaster = isMaster
  mode : d.driveAndHeader.getLsbD 6 = true

/-- The registers as `sendDiskCommand` fills them. -/
def addressed (c : Channel) (isMaster : Bool) (sectorCount : BYTE) (LBA : DWORD) : Channel :=
  { c with
    sectorCount := sectorCount
    sectorNumber := LBA.setWidth 8
    cylinderLsb := (LBA.sshiftRight 8).setWidth 8
    cylinderMsb := (LBA.sshiftRight 16).setWidth 8
    driveAndHeader := (driveFlag isMaster &&& 0xF0) ||| ((LBA.sshiftRight 24).setWidth 8 &&& 0x0F) }

theorem sshiftRight_byte (LBA : DWORD) {k : ℕ} (hk : k ≤ 24) :
    ((LBA.sshiftRight k).setWidth 8).toNat = LBA.toNat / 2 ^ k % 2 ^ 8 := by
  have hbyte : (LBA.sshiftRight k).setWidth 8 = (LBA >>> k).setWidth 8 := by
    apply BitVec.eq_of_getLsbD_eq
    intro i hi
    rw [BitVec.getLsbD_setWidth, BitVec.getLsbD_setWidth, BitVec.getLsbD_sshiftRight,
      BitVec.getLsbD_ushiftRight, if_pos (by omega)]
    rw [decide_eq_false (show ¬ 32 ≤ i by omega), Bool.not_false, Bool.true_and]
  rw [hbyte, BitVec.toNat_setWidth, BitVec.toNat_ushiftRight, Nat.shiftRight_eq_div_pow]

theorem addressed_spec (c : Channel) (isMaster : Bool) (sectorCount : BYTE) (LBA : DWORD) :
    Addressed isMaster sectorCount LBA (c.addressed isMaster sectorCount LBA) := by
  have hhead (x : BYTE) : let head := (driveFlag isMaster &&& 0xF0) ||| (x &&& 0x0F)
      head.toNat % 16 = x.toNat % 16 ∧ (!head.getLsbD 4) = isMaster ∧ head.getLsbD 6 = true := by
    revert x
    cases isMaster <;> decide
  obtain ⟨hlow, hmaster, hmode⟩ := hhead ((LBA.sshiftRight 24).setWidth 8)
  refine ⟨rfl, ?_, hmaster, hmode⟩
  have hlba : (c.addressed isMaster sectorCount LBA).lba =
      LBA.toNat % 2 ^ 8 + 2 ^ 8 * (LBA.toNat / 2 ^ 8 % 2 ^ 8) +
        2 ^ 16 * (LBA.toNat / 2 ^ 16 % 2 ^ 8) + 2 ^ 24 * (LBA.toNat / 2 ^ 24 % 2 ^ 8 % 16) := by
    rw [← sshiftRight_byte LBA (show 8 ≤ 24 by decide),
      ← sshiftRight_byte LBA (show 16 ≤ 24 by decide),
      ← sshiftRight_byte LBA (show 24 ≤ 24 by decide), ← hlow]
    rfl
  rw [hlba, lbaOf]
  omega

theorem setPort_addresses {sectorCount : BYTE} {LBA : DWORD} {rest : Driver β}
    {Q : β → Channel → Prop} (hbusy : ¬ c.phase.Busy)
    (h : rest.Served (device isPrimary) (c.addressed isMaster sectorCount LBA) Q) :
    (setPort isPrimary .sectorCount sectorCount >>= fun _ =>
      setPort isPrimary .sectorNumber (LBA.setWidth 8) >>= fun _ =>
      setPort isPrimary .cylinderLsb ((LBA.sshiftRight 8).setWidth 8) >>= fun _ =>
      setPort isPrimary .cylinderMsb ((LBA.sshiftRight 16).setWidth 8) >>= fun _ =>
      setPort isPrimary .driveAndHeader
        ((driveFlag isMaster &&& 0xF0) ||| ((LBA.sshiftRight 24).setWidth 8 &&& 0x0F)) >>= fun _ =>
      rest).Served (device isPrimary) c Q := by
  cases isPrimary with
  | true => exact setPort_served hbusy (setPort_served hbusy (setPort_served hbusy
      (setPort_served hbusy (setPort_served hbusy h))))
  | false => exact setPort_served hbusy (setPort_served hbusy (setPort_served hbusy
      (setPort_served hbusy (setPort_served hbusy h))))

theorem sendDiskCommand_served {sectorCount : BYTE} {LBA : DWORD} {command : BYTE}
    {Q : Bool → Channel → Prop} (h : Reflects a c) (hfail : ∀ d, Reflects a d → Q false d)
    (hsent : ∀ d, Reflects a d → Addressed isMaster sectorCount LBA d → d.raised = false →
      Q true (d.start command)) :
    (sendDiskCommand isPrimary isMaster sectorCount LBA command).Served (device isPrimary) c Q := by
  unfold sendDiskCommand
  refine Served.bind (waitNoBusy_served (fun d hdrift => hfail d (h.drifts hdrift))
    fun d hdrift hbusy => setPort_addresses hbusy ?_)
  have hd : Reflects a (d.addressed isMaster sectorCount LBA) :=
    (h.drifts hdrift).congr rfl rfl rfl
  have hspec := d.addressed_spec isMaster sectorCount LBA
  refine Served.bind (waitReady_served hbusy (hfail _ hd) ?_)
  refine clearDiskInterruptFlag_served hbusy (setPort_served hbusy ?_)
  have hstart := hsent { d.addressed isMaster sectorCount LBA with raised := false }
    (hd.congr rfl rfl rfl) ⟨hspec.1, hspec.2, hspec.3, hspec.4⟩ rfl
  cases isPrimary <;> exact hstart

end Waiting

section Words

variable {k : ℕ} {buffer sector : Bytes}

theorem storeWord_wordOf {b b' : Bytes} {i j : ℕ} :
    storeWord b i (wordOf b' j) = copyBytes b (2 * i) b' (2 * j) 2 := by
  have hread : readLE (storeWord b i (wordOf b' j)) (2 * i) 2 =
      readLE (copyBytes b (2 * i) b' (2 * j) 2) (2 * i) 2 := by
    have hlt : readLE b' (2 * j) 2 < 2 ^ 16 := readLE_lt b' (2 * j) 2
    have hcopy := @readLE_copyBytes b' b 2 2 (2 * i) (2 * j) 0 (by omega)
    rw [Nat.add_zero, Nat.add_zero] at hcopy
    rw [hcopy, storeWord, readLE_writeLE, wordOf, BitVec.toNat_ofNat, Nat.mod_eq_of_lt hlt]
    exact Nat.mod_eq_of_lt hlt
  funext x
  by_cases hx : 2 * i ≤ x ∧ x < 2 * i + 2
  · exact byte_of_readLE hread hx.1 hx.2
  · rw [storeWord, writeLE_of_not_mem (by omega), copyBytes_of_not_mem (by omega)]

theorem copyBytes_copyBytes {b b' : Bytes} {x y k l : ℕ} :
    copyBytes (copyBytes b x b' y k) (x + k) b' (y + k) l = copyBytes b x b' y (k + l) := by
  funext z
  unfold copyBytes
  split_ifs <;> first | rfl | omega | (congr 1; omega)

theorem getPortWord_served {rest : WORD → Driver β} {Q : β → Channel → Prop}
    (hphase : c.phase = .sending content i n pos)
    (h : (rest (wordOf content (i * 256 + pos))).Served (device isPrimary) c.sent Q) :
    (getPortWord isPrimary >>= rest).Served (device isPrimary) c Q := by
  have hstill : ¬ c.phase.Busy := by
    rw [hphase]
    exact id
  rw [getPortWord_bind, served_still hstill]
  rintro word c' hresponds
  obtain ⟨hword, rfl⟩ : c.Offers word ∧ c' = c.sent := by
    rw [Responds, if_pos rfl] at hresponds
    exact hresponds
  unfold Offers at hword
  rw [hphase] at hword
  rw [hword]
  exact h

theorem sent_more (hphase : c.phase = .sending content i n pos) (hpos : pos < 255) :
    c.sent = { c with phase := .sending content i n (pos + 1) } := by
  unfold sent
  rw [hphase]
  exact if_pos hpos

theorem sent_all (hphase : c.phase = .sending content i n 255) :
    c.sent = { c with phase := if n ≤ 1 then .idle else .fetching content (i + 1) (n - 1) } := by
  unfold sent
  rw [hphase]
  dsimp only
  split
  · omega
  · split <;> rfl

/-- The rest of a sector is read. -/
theorem readWords_served {Q : Bytes → Channel → Prop}
    (hphase : c.phase = .sending content i n pos) (hpos : pos + k = 255)
    (hQ : Q (copyBytes buffer (2 * (i * 256 + pos)) content (2 * (i * 256 + pos)) (2 * (k + 1)))
      { c with phase := if n ≤ 1 then .idle else .fetching content (i + 1) (n - 1) }) :
    (readWords isPrimary (k + 1) (i * 256 + pos) buffer).Served (device isPrimary) c Q := by
  induction k generalizing c pos buffer with
  | zero =>
    obtain rfl : pos = 255 := by omega
    unfold readWords readWords
    refine getPortWord_served hphase ?_
    rw [storeWord_wordOf, sent_all hphase]
    exact hQ
  | succ k ih =>
    unfold readWords
    refine getPortWord_served hphase ?_
    rw [storeWord_wordOf, sent_more hphase (by omega), Nat.add_assoc (i * 256) pos 1]
    refine ih rfl (show pos + 1 + k = 255 by omega) ?_
    rw [show 2 * (i * 256 + (pos + 1)) = 2 * (i * 256 + pos) + 2 by omega, copyBytes_copyBytes,
      show 2 + 2 * (k + 1) = 2 * (k + 1 + 1) by omega]
    exact hQ

theorem readSectorWords_served {Q : Bytes → Channel → Prop}
    (hphase : c.phase = .sending content i n 0)
    (hQ : Q (copyBytes buffer (512 * i) content (512 * i) 512)
      { c with phase := if n ≤ 1 then .idle else .fetching content (i + 1) (n - 1) }) :
    (readWords isPrimary 256 (i * 256) buffer).Served (device isPrimary) c Q := by
  have hwords := @readWords_served c isPrimary content i n 0 255 buffer Q hphase rfl
  rw [Nat.add_zero, show 2 * (i * 256) = 512 * i by omega] at hwords
  exact hwords hQ

theorem setPortWord_served {word : WORD} {rest : Unit → Driver β} {Q : β → Channel → Prop}
    (hphase : c.phase = .receiving isMaster lba n sector pos)
    (h : (rest ()).Served (device isPrimary) (c.received word) Q) :
    (setPortWord isPrimary word >>= rest).Served (device isPrimary) c Q := by
  have hstill : ¬ c.phase.Busy := by
    rw [hphase]
    exact id
  rw [setPortWord_bind, served_still hstill]
  rintro _ c' hresponds
  rw [Responds, if_pos rfl] at hresponds
  rw [hresponds]
  exact h

theorem received_eq {word : WORD} (hphase : c.phase = .receiving isMaster lba n sector pos) :
    c.received word = { c with
      phase := if pos < 255 then .receiving isMaster lba n (storeWord sector pos word) (pos + 1)
        else .storing isMaster lba n (storeWord sector pos word) } := by
  unfold received
  rw [hphase]
  dsimp only
  split <;> rfl

/-- The rest of a sector is written. -/
theorem writeWords_served {Q : Unit → Channel → Prop}
    (hphase : c.phase = .receiving isMaster lba n sector pos) (hpos : pos + k = 255)
    (hQ : Q () { c with
      phase := .storing isMaster lba n
        (copyBytes sector (2 * pos) buffer (2 * (i * 256 + pos)) (2 * (k + 1))) }) :
    (writeWords isPrimary buffer (k + 1) (i * 256 + pos)).Served (device isPrimary) c Q := by
  induction k generalizing c pos sector with
  | zero =>
    unfold writeWords writeWords
    refine setPortWord_served hphase ?_
    rw [received_eq hphase, if_neg (by omega), storeWord_wordOf]
    exact hQ
  | succ k ih =>
    unfold writeWords
    refine setPortWord_served hphase ?_
    rw [received_eq hphase, if_pos (by omega), storeWord_wordOf, Nat.add_assoc (i * 256) pos 1]
    refine ih rfl (show pos + 1 + k = 255 by omega) ?_
    rw [show 2 * (pos + 1) = 2 * pos + 2 by omega,
      show 2 * (i * 256 + (pos + 1)) = 2 * (i * 256 + pos) + 2 by omega, copyBytes_copyBytes,
      show 2 + 2 * (k + 1) = 2 * (k + 1 + 1) by omega]
    exact hQ

theorem writeSectorWords_served {Q : Unit → Channel → Prop}
    (hphase : c.phase = .receiving isMaster lba n sector 0)
    (hQ : Q () { c with
      phase := .storing isMaster lba n (copyBytes sector 0 buffer (512 * i) 512) }) :
    (writeWords isPrimary buffer 256 (i * 256)).Served (device isPrimary) c Q := by
  have hwords := @writeWords_served c isPrimary isMaster i n 0 lba 255 buffer sector Q hphase rfl
  rw [Nat.add_zero, show 2 * (i * 256) = 512 * i by omega] at hwords
  exact hwords hQ

end Words

section Sectors

variable {buffer sector : Bytes}

theorem fetching_drifts (hphase : c.phase = .fetching content i n) (hdrift : c.Drifts d) :
    d = c ∨ d = { c with phase := .sending content i n 0, raised := true } ∨
      d = { c with phase := .failed, raised := true } := by
  rcases Relation.ReflTransGen.cases_head hdrift with rfl | ⟨e, hmove, hdrift'⟩
  · exact .inl rfl
  · cases hmove with
    | fetched h =>
      rw [hphase] at h
      cases h
      exact .inr (.inl (Drifts.eq hdrift' id))
    | fails => exact .inr (.inr (Drifts.eq hdrift' id))
    | prepared h => rw [hphase] at h; cases h
    | last _ h => rw [hphase] at h; cases h
    | more _ h => rw [hphase] at h; cases h
    | spoils _ h => rw [hphase] at h; cases h

theorem preparing_drifts (hphase : c.phase = .preparing isMaster lba n) (hdrift : c.Drifts d) :
    d = c ∨ d = { c with phase := .receiving isMaster lba n (fun _ => 0) 0 } ∨
      d = { c with phase := .failed, raised := true } := by
  rcases Relation.ReflTransGen.cases_head hdrift with rfl | ⟨e, hmove, hdrift'⟩
  · exact .inl rfl
  · cases hmove with
    | prepared h =>
      rw [hphase] at h
      cases h
      exact .inr (.inl (Drifts.eq hdrift' id))
    | fails => exact .inr (.inr (Drifts.eq hdrift' id))
    | fetched h => rw [hphase] at h; cases h
    | last _ h => rw [hphase] at h; cases h
    | more _ h => rw [hphase] at h; cases h
    | spoils _ h => rw [hphase] at h; cases h

/-- The sector is stored, and the drive is ready for the next one. -/
structure Stored (c : Channel) (isMaster : Bool) (lba n : ℕ) (sector : Bytes) (d : Channel) :
    Prop where
  media : d.media = c.stored isMaster lba sector
  identity : d.identity = c.identity
  phase : d.phase = if n ≤ 1 then .idle else .receiving isMaster (lba + 1) (n - 1) (fun _ => 0) 0

theorem storing_drifts (hphase : c.phase = .storing isMaster lba n sector) (hdrift : c.Drifts d) :
    d = c ∨ d.phase = .failed ∨ Stored c isMaster lba n sector d := by
  rcases Relation.ReflTransGen.cases_head hdrift with rfl | ⟨e, hmove, hdrift'⟩
  · exact .inl rfl
  · cases hmove with
    | last hn h =>
      rw [hphase] at h
      cases h
      rw [Drifts.eq hdrift' id]
      exact .inr (.inr ⟨rfl, rfl, (if_pos hn).symm⟩)
    | more hn h =>
      rw [hphase] at h
      cases h
      rw [Drifts.eq hdrift' id]
      exact .inr (.inr ⟨rfl, rfl, (if_neg (by omega)).symm⟩)
    | fails => rw [Drifts.eq hdrift' id]; exact .inr (.inl rfl)
    | spoils => rw [Drifts.eq hdrift' id]; exact .inr (.inl rfl)
    | fetched h => rw [hphase] at h; cases h
    | prepared h => rw [hphase] at h; cases h

theorem waitInterrupt_served {rest : Bool → Driver β} {Q : β → Channel → Prop}
    (hlate : ∀ d, c.Drifts d → (rest false).Served (device isPrimary) d Q)
    (hraised : ∀ d, c.Drifts d → d.raised = true → (rest true).Served (device isPrimary) d Q) :
    (waitInterrupt isPrimary >>= rest).Served (device isPrimary) c Q := by
  rw [waitInterrupt_bind]
  rintro answer c' ⟨d, hdrift, rfl, hanswer⟩
  cases answer with
  | false => exact hlate _ hdrift
  | true => exact hraised _ hdrift (hanswer rfl rfl)

theorem err_bit (status : BYTE) : status &&& statusErr ≠ 0 ↔ status &&& statusErr = statusErr := by
  revert status
  decide

/-- What the driver makes of the status of a drive that is not busy. -/
theorem status_served {fail rest : Driver β} {Q : β → Channel → Prop} (hbusy : ¬ c.phase.Busy)
    (hfail : c.phase = .failed → fail.Served (device isPrimary) c Q)
    (hrest : c.phase ≠ .failed → rest.Served (device isPrimary) c Q) :
    (getPort isPrimary .status >>= fun status =>
      if status &&& statusErr ≠ 0 then fail else rest).Served (device isPrimary) c Q := by
  rw [getPort_bind, served_still hbusy]
  rintro status c' ⟨rfl, hshows⟩
  have herr := ((hshows rfl).2 hbusy).1
  split
  next h => exact hfail (herr.mp ((err_bit status).mp h))
  next h => exact hrest (herr.not.mp ((err_bit status).not.mp h))

/-- The loop of `readSector` returns behind sector `i + n` at the latest. -/
def ReadFrom (a : Medium) (content : Bytes) (i n : ℕ) (buffer : Bytes) (r : ℤ × Bytes)
    (c' : Channel) : Prop :=
  Reflects a c' ∧ i ≤ r.1.toNat ∧ r.1.toNat ≤ i + n ∧
    r.2 = copyBytes buffer (512 * i) content (512 * i) (512 * (r.1.toNat - i))

theorem readFrom_stops {k : ℤ} (h : Reflects a c) (hk : k.toNat = i) :
    (ask .releaseLock fun _ => ret (k, buffer) : Driver _).Served (device isPrimary) c
      (ReadFrom a content i n buffer) :=
  releaseLock_served fun _ hdrift => ⟨h.drifts hdrift, hk.ge, by
    show k.toNat ≤ i + n
    omega, by rw [hk, Nat.sub_self, Nat.mul_zero, copyBytes_zero]⟩

/-- One more sector has been read. -/
theorem ReadFrom.next {r : ℤ × Bytes} (h : ReadFrom a content (i + 1) n
    (copyBytes buffer (512 * i) content (512 * i) 512) r c) : ReadFrom a content i (n + 1) buffer r c := by
  obtain ⟨hreflects, hleast, hmost, hbuffer⟩ := h
  refine ⟨hreflects, by omega, by omega, ?_⟩
  rw [hbuffer, show 512 * (i + 1) = 512 * i + 512 by omega, copyBytes_copyBytes,
    show 512 + 512 * (r.1.toNat - (i + 1)) = 512 * (r.1.toNat - i) by omega]

/-- The loop of `readSector`, in which `i` sectors have been read. -/
theorem readSectors_served {sectorCount : ℤ} {remaining : ℕ} (h : Reflects a c)
    (hcount : sectorCount.toNat = i + remaining)
    (hnext : 0 < remaining → c.phase = .fetching content i remaining ∧ c.raised = false) :
    (readSectors isPrimary sectorCount remaining i buffer).Served (device isPrimary) c
      (ReadFrom a content i remaining buffer) := by
  induction remaining generalizing c i buffer with
  | zero => exact readFrom_stops h hcount
  | succ remaining ih =>
    obtain ⟨hphase, hraised⟩ := hnext (Nat.succ_pos _)
    unfold readSectors
    refine waitInterrupt_served
      (fun d hdrift => readFrom_stops (h.drifts hdrift) (Int.toNat_natCast i))
      fun d hdrift hrings => ?_
    have hd := h.drifts hdrift
    rcases fetching_drifts hphase hdrift with rfl | rfl | rfl
    · rw [hraised] at hrings
      cases hrings
    · refine clearDiskInterruptFlag_served id (status_served id (fun hfailed => ?_) fun _ => ?_)
      · cases hfailed
      · refine Served.bind (readSectorWords_served rfl ?_)
        have hrest (phase : DrivePhase) (hphase : phase = if remaining + 1 ≤ 1 then .idle
            else .fetching content (i + 1) (remaining + 1 - 1)) :
            Reflects a { c with phase := phase, raised := false } := by
          refine h.still rfl rfl fun m lba n sector => ?_
          show phase ≠ _
          rw [hphase]
          split <;> exact fun heq => by cases heq
        refine Served.mono (ih (hrest _ rfl) (by omega) fun hpos => ⟨?_, rfl⟩)
          fun r c' => ReadFrom.next
        exact if_neg (by omega)
    · exact clearDiskInterruptFlag_served id (status_served id
        (fun _ => readFrom_stops (hd.congr rfl rfl rfl) (Int.toNat_natCast i))
        fun hne => absurd rfl hne)

theorem Reflects.doubting (h : Reflects a c) (m : Bool) (s : ℕ) : Reflects (a.doubting m s) c :=
  ⟨fun m' x hx => h.data m' x fun hdoubt => hx (.inr hdoubt), h.identity,
    fun m' lba hstores => .inr (h.stores m' lba hstores)⟩

theorem wrote_zero (a : Medium) : a.wrote isMaster lba 0 buffer = a := by
  unfold Medium.wrote
  rw [Nat.mul_zero, copyBytes_zero, Function.update_eq_self]
  have hdoubt : (fun m s => a.doubt m s ∧ ¬ (m = isMaster ∧ lba ≤ s ∧ s < lba + 0)) = a.doubt := by
    funext m s
    exact propext ⟨fun h => h.1, fun h => ⟨h, by omega⟩⟩
  rw [hdoubt]

/-- Another sector of the buffer is stored. -/
theorem Reflects.wrote_next
    (h : Reflects ((a.wrote isMaster lba i buffer).doubting isMaster (lba + i)) c) (m : Bool) (x : ℕ)
    (hx : ¬ (a.wrote isMaster lba (i + 1) buffer).doubt m (x / sectorSize)) :
    c.stored isMaster (lba + i) (copyBytes sector 0 buffer (512 * i) 512) m x =
      (a.wrote isMaster lba (i + 1) buffer).data m x := by
  unfold sectorSize at hx
  by_cases hm : m = isMaster
  · subst hm
    have hafter : (a.wrote m lba (i + 1) buffer).data m =
        copyBytes (a.data m) (512 * lba) buffer 0 (512 * (i + 1)) := Function.update_self _ _ _
    by_cases hin : x / 512 = lba + i
    · have hstored : c.stored m (lba + i) (copyBytes sector 0 buffer (512 * i) 512) m =
          copyBytes (c.media m) (512 * (lba + i)) (copyBytes sector 0 buffer (512 * i) 512) 0 512 :=
        Function.update_self _ _ _
      obtain ⟨y, hy, rfl⟩ : ∃ y < 512, x = 512 * (lba + i) + y :=
        ⟨x % 512, Nat.mod_lt _ (by decide), by omega⟩
      have hsector := @copyBytes_of_mem buffer sector 512 0 (512 * i) y hy
      rw [hstored, hafter, copyBytes_of_mem hy, hsector,
        show 512 * (lba + i) + y = 512 * lba + (512 * i + y) by omega,
        copyBytes_of_mem (by omega), Nat.zero_add]
    · have hbefore : (a.wrote m lba i buffer).data m =
          copyBytes (a.data m) (512 * lba) buffer 0 (512 * i) := Function.update_self _ _ _
      have hsure : ¬ ((a.wrote m lba i buffer).doubting m (lba + i)).doubt m (x / 512) := by
        rintro (hsector | hdoubt)
        · exact hin hsector.2
        · exact hx ⟨hdoubt.1, fun hlt => hdoubt.2 ⟨rfl, hlt.2.1, by omega⟩⟩
      have hdata : ((a.wrote m lba i buffer).doubting m (lba + i)).data m x = _ :=
        congrFun hbefore x
      rw [stored_outside (fun _ => hin), h.data m x hsure, hdata, hafter]
      unfold copyBytes
      split_ifs <;> first | rfl | omega
  · have hdata (n : ℕ) : (a.wrote isMaster lba n buffer).data m = a.data m :=
      Function.update_of_ne hm _ _
    have hsure : ¬ ((a.wrote isMaster lba i buffer).doubting isMaster (lba + i)).doubt m
        (x / 512) := by
      rintro (hsector | hdoubt)
      · exact hm hsector.1
      · exact hx ⟨hdoubt.1, fun hlt => hm hlt.1⟩
    rw [stored_outside (fun heq => absurd heq hm), h.data m x hsure, hdata]
    exact congrFun (hdata i) x

/-- The loop of `writeSector` returns `k`. -/
def WroteUpTo (a : Medium) (isMaster : Bool) (lba total : ℕ) (buffer : Bytes) (k : ℤ)
    (c' : Channel) : Prop :=
  k.toNat ≤ total ∧ Reflects (a.written isMaster lba k.toNat buffer total) c'

theorem wroteUpTo_fails (h : Reflects ((a.wrote isMaster lba i buffer).doubting isMaster (lba + i)) c)
    (hi : i < n) : (ask .releaseLock fun _ => ret (i : ℤ) : Driver _).Served (device isPrimary) c
      (WroteUpTo a isMaster lba n buffer) :=
  releaseLock_served fun d hdrift => ⟨by rw [Int.toNat_natCast]; omega, by
    rw [Int.toNat_natCast, Medium.written, if_pos hi]
    exact h.drifts hdrift⟩

theorem Reflects.storing (h : Reflects a c) (raised : Bool) (hdoubt : a.doubt isMaster lba) :
    Reflects a { c with phase := .storing isMaster lba n sector, raised := raised } :=
  ⟨h.data, h.identity, fun m s ⟨k, bytes, hphase⟩ => by
    cases hphase
    exact hdoubt⟩

/-- The loop of `writeSector` behind the words of sector `i`, which is in doubt until the drive is
ready again. -/
theorem stored_served {total : ℕ} {rest : Driver ℤ}
    (h : Reflects ((a.wrote isMaster lba i buffer).doubting isMaster (lba + i)) c) (hlt : i < total)
    (hphase : c.phase = .storing isMaster (lba + i) n (copyBytes sector 0 buffer (512 * i) 512))
    (hraised : c.raised = false)
    (hrest : ∀ d, Reflects (a.wrote isMaster lba (i + 1) buffer) d →
      (1 < n → d.phase = .receiving isMaster (lba + (i + 1)) (n - 1) (fun _ => 0) 0) →
        rest.Served (device isPrimary) d (WroteUpTo a isMaster lba total buffer)) :
    (waitInterrupt isPrimary >>= fun answer =>
      if !answer then releaseLock >>= fun _ => ret (i : ℤ)
      else getPort isPrimary .status >>= fun status =>
        if status &&& statusErr ≠ 0 then releaseLock >>= fun _ => ret (i : ℤ) else rest).Served
      (device isPrimary) c (WroteUpTo a isMaster lba total buffer) := by
  refine waitInterrupt_served (fun d hdrift => wroteUpTo_fails (h.drifts hdrift) hlt)
    fun d hdrift hrings => ?_
  have hd := h.drifts hdrift
  rcases storing_drifts hphase hdrift with rfl | hfailed | hstored
  · rw [hraised] at hrings
    cases hrings
  · have hstill : ¬ d.phase.Busy := by
      rw [hfailed]
      exact id
    exact status_served hstill (fun _ => wroteUpTo_fails hd hlt) fun hne => absurd hfailed hne
  · obtain ⟨hmedia, hidentity, hnext⟩ := hstored
    have hstill : ¬ d.phase.Busy := by
      rw [hnext]
      split <;> exact id
    refine status_served hstill (fun _ => wroteUpTo_fails hd hlt) fun _ => hrest d ?_ fun hn => ?_
    · refine ⟨fun m x hx => ?_, hidentity.trans h.identity, fun m s ⟨k, bytes, hstores⟩ => ?_⟩
      · rw [hmedia]
        exact h.wrote_next m x hx
      · rw [hnext] at hstores
        split at hstores <;> cases hstores
    · rw [hnext, if_neg (by omega)]
      rfl

/-- The loop of `writeSector`, in which `i` sectors have been written. -/
theorem writeSectors_served {sectorCount : ℤ} {remaining : ℕ}
    (h : Reflects (a.wrote isMaster lba i buffer) c) (hcount : sectorCount.toNat = i + remaining)
    (hnext : 0 < remaining → ∃ sector, c.phase = .receiving isMaster (lba + i) remaining sector 0) :
    (writeSectors isPrimary sectorCount buffer remaining i).Served (device isPrimary) c
      (WroteUpTo a isMaster lba sectorCount.toNat buffer) := by
  induction remaining generalizing c i with
  | zero =>
    refine releaseLock_served fun d hdrift => ⟨le_rfl, ?_⟩
    rw [Medium.written, if_neg (lt_irrefl _), hcount]
    exact h.drifts hdrift
  | succ remaining ih =>
    obtain ⟨sector, hphase⟩ := hnext (Nat.succ_pos _)
    have hstill : ¬ c.phase.Busy := by
      rw [hphase]
      exact id
    unfold writeSectors
    refine clearDiskInterruptFlag_served hstill (Served.bind (writeSectorWords_served hphase ?_))
    exact stored_served ((h.doubting isMaster (lba + i)).storing false (.inl ⟨rfl, rfl⟩)) (by omega)
      rfl rfl fun d hd hready => ih hd (by omega) fun hpos => ⟨_, hready (by omega)⟩

end Sectors

section Calls

variable {sectorCount : BYTE} {LBA : DWORD} {buffer : Bytes}

theorem acquireLock_served {rest : Driver β} {Q : β → Channel → Prop}
    (h : ∀ d, c.Drifts d → rest.Served (device isPrimary) d Q) :
    (acquireLock >>= fun _ => rest).Served (device isPrimary) c Q := by
  rw [acquireLock_bind]
  rintro _ c' ⟨d, hdrift, rfl⟩
  exact h _ hdrift

/-- The number of sectors that a command gets. -/
theorem Addressed.count (h : Addressed isMaster sectorCount LBA d) (hpos : 0 < sectorCount.toInt) :
    d.count = sectorCount.toInt.toNat := by
  have hcount (n : BYTE) (hn : 0 < n.toInt) :
      (if n = 0 then 256 else n.toNat) = n.toInt.toNat := by
    revert n
    decide
  unfold Channel.count
  rw [h.sectorCount, hcount sectorCount hpos]

theorem Addressed.start_read (h : Addressed isMaster sectorCount LBA d) :
    d.start commandRead = { d with
      phase := .fetching (d.sectorsAt isMaster (lbaOf LBA.toNat)) 0 d.count } := by
  unfold start
  rw [if_neg (by decide), if_neg (by rw [h.mode]; decide), if_pos rfl, h.isMaster, h.lba]

theorem Addressed.start_write (h : Addressed isMaster sectorCount LBA d) :
    d.start commandWrite = { d with
      phase := .preparing isMaster (lbaOf LBA.toNat) d.count } := by
  unfold start
  rw [if_neg (by decide), if_neg (by rw [h.mode]; decide), if_neg (by decide), if_pos rfl,
    h.isMaster, h.lba]

theorem start_identify (h : d.driveAndHeader = driveFlag isMaster) :
    d.start commandDriveIdentify = { d with phase := .fetching (d.identity isMaster) 0 1 } := by
  have hmaster : d.isMaster = isMaster := by
    unfold Channel.isMaster
    rw [h]
    cases isMaster <;> decide
  unfold start
  rw [if_pos rfl, hmaster]

end Calls

end Channel

/-- The results of `readSector` that are right for the disks `a`. -/
structure Medium.Reads (a : Medium) (isMaster : Bool) (sectorCount : BYTE) (LBA : DWORD)
    (buffer : Bytes) (r : ℤ × Bytes) : Prop where
  count : r.1.toNat ≤ sectorCount.toInt.toNat
  read : ∀ x < 512 * r.1.toNat, ¬ a.doubt isMaster (lbaOf LBA.toNat + x / 512) →
    r.2 x = a.data isMaster (512 * lbaOf LBA.toNat + x)
  rest : ∀ x, 512 * r.1.toNat ≤ x → r.2 x = buffer x

namespace Channel

variable {c : Channel} {a : Medium} {isPrimary isMaster : Bool} {sectorCount : BYTE} {LBA : DWORD}
  {buffer : Bytes}

theorem readSector_served (h : Reflects a c) :
    (readSector isPrimary isMaster sectorCount LBA buffer).Served (device isPrimary) c fun r c' =>
      Reflects a c' ∧ a.Reads isMaster sectorCount LBA buffer r := by
  unfold readSector
  refine acquireLock_served fun d hdrift => Served.bind (sendDiskCommand_served (h.drifts hdrift)
    (fun e he => ?_) fun e he haddressed hraised => ?_)
  · exact releaseLock_served fun f hdrift => ⟨he.drifts hdrift, Nat.zero_le _,
      fun x hx => absurd hx (Nat.not_lt_zero x), fun x _ => rfl⟩
  · have hf : Reflects a (e.start commandRead) := by
      rw [haddressed.start_read]
      exact he.still rfl rfl fun m lba n sector heq => by cases heq
    have hphase (hpos : 0 < sectorCount.toInt.toNat) : (e.start commandRead).phase =
        .fetching (e.sectorsAt isMaster (lbaOf LBA.toNat)) 0 sectorCount.toInt.toNat ∧
        (e.start commandRead).raised = false := by
      rw [haddressed.start_read, haddressed.count (by omega)]
      exact ⟨rfl, hraised⟩
    refine Served.mono (readSectors_served hf (Nat.zero_add _).symm hphase) fun r c' hr => ?_
    obtain ⟨hreflects, -, hcount, hbuffer⟩ := hr
    rw [Nat.zero_add] at hcount
    rw [Nat.mul_zero, Nat.sub_zero] at hbuffer
    refine ⟨hreflects, hcount, fun x hx hdoubt => ?_, fun x hx => ?_⟩
    · have hcopied := @copyBytes_of_mem (e.sectorsAt isMaster (lbaOf LBA.toNat)) buffer
        (512 * r.1.toNat) 0 0 x hx
      rw [Nat.zero_add] at hcopied
      rw [hbuffer, hcopied]
      refine he.data isMaster (512 * lbaOf LBA.toNat + x) ?_
      rw [sectorSize, Nat.mul_add_div (by decide)]
      exact hdoubt
    · rw [hbuffer, copyBytes_of_not_mem (by omega)]

theorem writeSector_served (h : Reflects a c) :
    (writeSector isPrimary isMaster sectorCount LBA buffer).Served (device isPrimary) c
      (WroteUpTo a isMaster (lbaOf LBA.toNat) sectorCount.toInt.toNat buffer) := by
  have hnothing {d : Channel} (hd : Reflects a d) :
      (ask .releaseLock fun _ => ret 0 : Driver ℤ).Served (device isPrimary) d
        (WroteUpTo a isMaster (lbaOf LBA.toNat) sectorCount.toInt.toNat buffer) := by
    refine releaseLock_served fun f hdrift => ⟨Nat.zero_le _, ?_⟩
    rw [Int.toNat_zero, Medium.written, wrote_zero]
    split
    · exact (hd.drifts hdrift).doubting _ _
    · exact hd.drifts hdrift
  unfold writeSector
  refine acquireLock_served fun d hdrift => Served.bind (sendDiskCommand_served (h.drifts hdrift)
    (fun e he => hnothing he) fun e he haddressed _ => ?_)
  rw [haddressed.start_write]
  have hstarted : Reflects a { e with phase := .preparing isMaster (lbaOf LBA.toNat) e.count } :=
    he.still rfl rfl fun m lba n sector heq => by cases heq
  refine Served.bind (waitDataRequest_served (fun f hdrift' => hnothing (hstarted.drifts hdrift'))
    fun f hdrift' hrequests => ?_)
  rcases preparing_drifts rfl hdrift' with rfl | rfl | rfl
  · cases hrequests
  · refine writeSectors_served ?_ (Nat.zero_add _).symm fun hpos => ⟨fun _ => 0, ?_⟩
    · rw [wrote_zero]
      exact hstarted.drifts hdrift'
    · rw [haddressed.count (by omega), Nat.add_zero]
  · cases hrequests

theorem readInformation_served (h : Reflects a c) :
    (readInformation isPrimary isMaster buffer).Served (device isPrimary) c fun r c' =>
      Reflects a c' ∧ r.2 = if r.1 then copyBytes buffer 0 (a.identity isMaster) 0 512 else buffer := by
  have hnothing {d : Channel} (hd : Reflects a d) :
      (ask .releaseLock fun _ => ret (false, buffer) : Driver (Bool × Bytes)).Served
        (device isPrimary) d fun r c' => Reflects a c' ∧
          r.2 = if r.1 then copyBytes buffer 0 (a.identity isMaster) 0 512 else buffer :=
    releaseLock_served fun e hdrift => ⟨hd.drifts hdrift, rfl⟩
  unfold readInformation
  refine acquireLock_served fun d hdrift => Served.bind (waitNoBusy_served
    (fun e hdrift' => hnothing ((h.drifts hdrift).drifts hdrift')) fun e hdrift' hstill => ?_)
  have he := (h.drifts hdrift).drifts hdrift'
  refine setPort_served hstill ?_
  have hregister : e.setRegister isPrimary (portAddress isPrimary .driveAndHeader)
      (driveFlag isMaster) = { e with driveAndHeader := driveFlag isMaster } := by
    cases isPrimary <;> rfl
  rw [hregister]
  have he' : Reflects a { e with driveAndHeader := driveFlag isMaster } := he.congr rfl rfl rfl
  refine Served.bind (waitReady_served hstill (hnothing he') ?_)
  refine clearDiskInterruptFlag_served hstill (setPort_served hstill ?_)
  have hstart : ({ e with driveAndHeader := driveFlag isMaster, raised := false } : Channel).setRegister
      isPrimary (portAddress isPrimary .command) commandDriveIdentify =
      { e with
        driveAndHeader := driveFlag isMaster
        phase := .fetching (a.identity isMaster) 0 1
        raised := false } := by
    have hstarted := start_identify (d := { e with
      driveAndHeader := driveFlag isMaster, raised := false }) rfl
    rw [← he.identity]
    cases isPrimary <;> exact hstarted
  rw [hstart]
  have hf : Reflects a { e with
      driveAndHeader := driveFlag isMaster
      phase := .fetching (a.identity isMaster) 0 1
      raised := false } := he.still rfl rfl fun m lba n sector heq => by cases heq
  refine Served.bind (waitDataRequest_served (fun f hwait => hnothing (hf.drifts hwait))
    fun f hwait hrequests => ?_)
  have hf' := hf.drifts hwait
  rcases fetching_drifts rfl hwait with rfl | rfl | rfl
  · cases hrequests
  · have hfirst : readWords isPrimary 256 0 buffer = readWords isPrimary 256 (0 * 256) buffer := by
      rw [Nat.zero_mul]
    rw [hfirst]
    refine Served.bind (readSectorWords_served rfl ?_)
    refine releaseLock_served fun g hlast => ⟨Reflects.drifts ?_ hlast, rfl⟩
    exact hf'.still rfl rfl fun m lba n sector heq => by cases heq
  · cases hrequests

end Channel
end SkhuOS
