import SkhuOS.Arch.Descriptor
import SkhuOS.Loader.IdentityMap
import SkhuOS.Proc.Slots

/-! The P bits of the page table. `createProcess` and the collector index the table by
`KERNEL_SIZE`, which is a number of pages, and not by the address of the stack of the slot:
they change one entry behind the kernel area and none of the two of the stack. -/
namespace SkhuOS
open Foundation

/-- The pages of the kernel stack of slot `p`. -/
def stackPages (p : ℕ) : Set ℕ :=
  {q | PageIn q (processStackBase + processStackInterval * p) processStackSize}

/-- The entry that is set and cleared for slot `p`. -/
def slotPage (p : ℕ) : ℕ := kernelSize + p * 2

theorem mem_stackPages {p q : ℕ} :
    q ∈ stackPages p ↔ q = 0x2000 + 3 * p ∨ q = 0x2000 + 3 * p + 1 := by
  simp only [stackPages, PageIn, Set.mem_ofPred_eq, processStackBase, processStackInterval,
    processStackSize]
  omega

theorem slotPage_eq (p : ℕ) : slotPage p = 0x4000 + p * 2 := rfl

theorem slotPage_inj {p p' : ℕ} : slotPage p = slotPage p' ↔ p = p' := by
  rw [slotPage_eq, slotPage_eq]
  omega

/-- The stack of a slot has two pages, and one entry is changed. -/
theorem stackPages_ne_singleton (p q : ℕ) : stackPages p ≠ {q} := by
  intro h
  have hfirst : 0x2000 + 3 * p ∈ stackPages p := mem_stackPages.mpr (.inl rfl)
  have hsecond : 0x2000 + 3 * p + 1 ∈ stackPages p := mem_stackPages.mpr (.inr rfl)
  rw [h, Set.mem_singleton_iff] at hfirst hsecond
  omega

/-- The entry of a slot belongs to no kernel stack. -/
theorem slotPage_notMem {p p' : ℕ} (h : p' < processMaxCount) : slotPage p ∉ stackPages p' := by
  intro hin
  have hcount : processMaxCount = 1024 := rfl
  rw [mem_stackPages, slotPage_eq] at hin
  omega

@[simp] theorem PtEntry.present_setUserAccess (entry : PtEntry) (allow : Bool) :
    (entry.setUserAccess allow).present = entry.present := by
  cases allow <;> simp [present, setUserAccess, pageFlagUS]

@[simp] theorem PtEntry.present_set (entry : PtEntry) :
    { entry with lower4Byte := entry.lower4Byte ||| pageFlagP }.present = true := by
  simp [present, pageFlagP]

@[simp] theorem PtEntry.present_clear (entry : PtEntry) :
    { entry with lower4Byte := entry.lower4Byte &&& ~~~pageFlagP }.present = false := by
  simp [present, pageFlagP]

/-- Opening and closing pages to user code leaves their P bits alone. -/
theorem setPageUserAccess_present (start stop : ℕ) (allow : Bool) (page : ℕ → PtEntry) (q : ℕ) :
    (setPageUserAccess start stop allow page q).present = (page q).present := by
  unfold setPageUserAccess
  induction List.range ((stop - start + 0xFFF) / 0x1000) generalizing page with
  | nil => rfl
  | cons i rest ih =>
    rw [List.foldl_cons, ih, Function.update_apply]
    split
    next h => rw [h, PtEntry.present_setUserAccess]
    · rfl

namespace Kernel

/-- The pages whose entries are present. -/
def present (k : Kernel) (q : ℕ) : Bool := (k.page q).present

/-- The entries that `createProcess` makes present, whatever the table held before. -/
def pagesSet (k : Kernel) (entryPoint arg : QWORD) : Set ℕ :=
  {q | ∀ page, ({ k with page := page }.createProcess entryPoint arg).2.present q = true}

/-- The entries that the loop body of the collector makes absent. -/
def pagesCleared (k : Kernel) (preIf : Bool) (regs : ProcessContext) : Set ℕ :=
  {q | ∀ page, ({ k with page := page }.collectLoop preIf regs).present q = false}

variable {k k' : Kernel} {p q : ℕ} {a : Action} {history : List (Move Kernel Action)} {b : Boot}

theorem present_createAt (k : Kernel) (p : ℕ) (entryPoint arg : QWORD) :
    (k.createAt p entryPoint arg).present = Function.update k.present (slotPage p) true := by
  funext q
  simp only [present, createAt, Function.update_apply]
  unfold slotPage
  split
  · exact PtEntry.present_set _
  · rfl

theorem createProcess_present (k : Kernel) (entryPoint arg : QWORD) :
    (k.createProcess entryPoint arg).2.present =
      match (k.createProcess entryPoint arg).1 with
      | some p => Function.update k.present (slotPage p) true
      | none => k.present := by
  simp only [createProcess]
  split
  · exact present_createAt _ _ entryPoint arg
  · rfl

theorem createUserProcess_present (k : Kernel) (entryPoint arg : QWORD) :
    (k.createUserProcess entryPoint arg).2.present =
      match (k.createUserProcess entryPoint arg).1 with
      | some p => Function.update k.present (slotPage p) true
      | none => k.present := by
  have hmade := (k.setIf false).2.createProcess_present entryPoint arg
  simp only [createUserProcess]
  split
  next k₁ heq =>
    rw [heq] at hmade
    exact hmade
  next p k₁ heq =>
    rw [heq] at hmade
    refine Eq.trans (funext fun q => ?_) hmade
    exact setPageUserAccess_present _ _ true k₁.page q

theorem runUserProgram_present (k : Kernel) (image : Bytes) (size : ℕ) (arg : QWORD) :
    (k.runUserProgram image size arg).2.present =
      match (k.runUserProgram image size arg).1.join with
      | some p => Function.update k.present (slotPage p) true
      | none => k.present := by
  have hcopied : ((k.setIf false).2.copyImage image size).present = k.present := by
    funext q
    simp only [present, copyImage, setPageUserAccess_present]
    rfl
  have hmade := ((k.setIf false).2.copyImage image size).createUserProcess_present
    (BitVec.ofNat 64 userCodeAddress) arg
  rw [hcopied] at hmade
  simp only [runUserProgram]
  split
  · rfl
  · split
    next k₁ heq =>
      rw [heq] at hmade
      exact hmade
    next p k₁ heq =>
      rw [heq] at hmade
      exact hmade

theorem orForever_present {α : Type} (result : Option α × Kernel) :
    (orForever result).present = result.2.present := by
  obtain ⟨value, k'⟩ := result
  cases value <;> rfl

theorem runCall_present {c : Call} (hc : c.Creates) (regs : ProcessContext) :
    (k.runCall c regs).present =
      match k.created (.call c regs) with
      | some p => Function.update k.present (slotPage p) true
      | none => k.present := by
  cases c with
  | createProcess entryPoint arg =>
    exact (orForever_present _).trans (k.createProcess_present entryPoint arg)
  | createUserProcess entryPoint arg =>
    exact (orForever_present _).trans (k.createUserProcess_present entryPoint arg)
  | runUserProgram image size arg =>
    exact (orForever_present _).trans (k.runUserProgram_present image size arg)
  | _ => exact hc.elim

/-- The collector clears the entry of the slot it frees. -/
theorem collectLoop_present (k : Kernel) (preIf : Bool) (regs : ProcessContext) :
    (k.collectLoop preIf regs).present =
      if queueIsEmpty k.exitProcessQueue then k.present
      else Function.update k.present (slotPage k.frontPid) false := by
  unfold collectLoop
  split
  · rfl
  · funext q
    show (Function.update (setPageUserAccess (userStackOf k.frontPid)
      (userStackOf k.frontPid + userStackSize) false k.page) (slotPage k.frontPid) _ q).present = _
    rw [Function.update_apply, Function.update_apply]
    split
    · exact PtEntry.present_clear _
    · exact setPageUserAccess_present _ _ false k.page q

/-- What a step does to the P bits. -/
theorem Valid.present_step (h : k.Valid) (hstep : k.step a = some k') :
    k'.present =
      match k.created a, k.reclaims a with
      | some p, _ => Function.update k.present (slotPage p) true
      | none, some p => Function.update k.present (slotPage p) false
      | none, none => k.present := by
  have hcollect {j : Kernel} (hj : j.Valid) (hqueue : j.exitQueue = k.exitQueue)
      (hpresent : j.present = k.present) {preIf : Bool} {regs : ProcessContext}
      (hturn : k.collects a = true) (hnone : k.created a = none)
      (hk' : k' = j.collectLoop preIf regs) :
      k'.present =
        match k.created a, k.reclaims a with
        | some p, _ => Function.update k.present (slotPage p) true
        | none, some p => Function.update k.present (slotPage p) false
        | none, none => k.present := by
    rw [hk', hnone, reclaims, if_pos hturn, ← hqueue, collectLoop_present, hpresent]
    split
    next hempty =>
      have hnil : j.exitQueue = [] := (queueIsEmpty_iff hj.queue.1 _).mp hempty
      rw [hnil]
      rfl
    next hempty =>
      have hcons : j.exitQueue = _ := hj.deQueue_pid hempty
      rw [hcons]
      rfl
  have hsame (hcreated : k.created a = none) (hreclaims : k.reclaims a = none)
      (hpage : k'.page = k.page) :
      k'.present =
        match k.created a, k.reclaims a with
        | some p, _ => Function.update k.present (slotPage p) true
        | none, some p => Function.update k.present (slotPage p) false
        | none, none => k.present := by
    rw [hcreated, hreclaims]
    funext q
    rw [present, hpage]
    rfl
  cases h.step_kind hstep with
  | still ha hstill =>
    refine hsame ?_ (untracked_exits ha).2 hstill.2
    cases a with
    | call c regs => cases c <;> first | rfl | exact absurd trivial ha
    | _ => rfl
  | @create c regs hmay hc =>
    rw [runCall_present hc, show k.reclaims (.call c regs) = none from rfl]
    cases k.created (.call c regs) <;> rfl
  | acquireLock hmay => exact hsame rfl rfl (acquireLock_page _ _)
  | releaseLock hmay => exact hsame rfl rfl (releaseLock_page _)
  | exitProcess hmay => exact hsame rfl rfl rfl
  | collect hcol hcode => exact hcollect (h.setIf false) rfl rfl rfl rfl rfl
  | recollect hat => exact hcollect h rfl rfl (by simp [collects, hat]) rfl rfl

/-- The table the loader wrote, as far as no later boot stage writes over it. -/
def LoaderPages (b : Boot) : Prop :=
  ∃ m, ∀ q, pTableBaseAddress + 8 * (q + 1) ≤ gdtrAddress →
    b.page q = readEntry (Loader.initializePaging m) (pTableBaseAddress + 8 * q)

/-- The pages below the tables of the descriptors. -/
theorem below_gdtr (q : ℕ) : pTableBaseAddress + 8 * (q + 1) ≤ gdtrAddress ↔ q < 0x81400 := by
  unfold pTableBaseAddress gdtrAddress
  omega

theorem LoaderPages.present (h : LoaderPages b) (hq : q < 0x81400) :
    (b.page q).present = decide (q < 0x4000) := by
  obtain ⟨m, hm⟩ := h
  obtain ⟨flags, upper, hentry, -, -, hflag, -, -⟩ := Loader.pageEntry_eq q
  rw [hm q ((below_gdtr q).mpr hq), Loader.readEntry_initializePaging m (by omega), hentry,
    PtEntry.present, Loader.flag_getLsbD (by omega), hflag]

/-- The pages present over a run: the kernel area and the entry of each allocated slot but
that of the shell, which no call created. -/
def PresentExact (k : Kernel) : Prop :=
  ∀ q < 0x81400, k.present q = true ↔
    q < 0x4000 ∨ ∃ p, p ≠ 0 ∧ k.allocProcessTable p = true ∧ q = slotPage p

theorem PresentExact.created (h : k.PresentExact) (hp : p ≠ 0)
    (halloc : k'.allocProcessTable = Function.update k.allocProcessTable p true)
    (hpresent : k'.present = Function.update k.present (slotPage p) true) :
    k'.PresentExact := by
  intro q hq
  rw [hpresent, halloc, Function.update_apply]
  by_cases hqp : q = slotPage p
  · rw [if_pos hqp]
    simp only [true_iff]
    exact .inr ⟨p, hp, by rw [Function.update_self], hqp⟩
  · rw [if_neg hqp, h q hq]
    refine or_congr Iff.rfl (exists_congr fun p' => and_congr_right fun _ => ?_)
    by_cases hpp : p' = p
    · subst hpp
      simp [hqp]
    · rw [Function.update_of_ne hpp]

theorem PresentExact.reclaimed (h : k.PresentExact)
    (halloc : k'.allocProcessTable = Function.update k.allocProcessTable p false)
    (hpresent : k'.present = Function.update k.present (slotPage p) false) :
    k'.PresentExact := by
  intro q hq
  rw [hpresent, halloc, Function.update_apply]
  by_cases hqp : q = slotPage p
  · rw [if_pos hqp]
    simp only [Bool.false_eq_true, false_iff]
    rintro (hlow | ⟨p', -, hp', hq'⟩)
    · rw [hqp, slotPage_eq] at hlow
      omega
    · obtain rfl := slotPage_inj.mp (hqp.symm.trans hq')
      simp at hp'
  · rw [if_neg hqp, h q hq]
    refine or_congr Iff.rfl (exists_congr fun p' => and_congr_right fun _ => ?_)
    by_cases hpp : p' = p
    · subst hpp
      simp [hqp]
    · rw [Function.update_of_ne hpp]

theorem PresentExact.step (h : k.PresentExact) (hvalid : k.Valid)
    (hstep : k.step a = some k') : k'.PresentExact := by
  have hpresent := hvalid.present_step hstep
  rcases hvalid.slot_step hstep with ⟨hfills, hnone⟩ | ⟨hnone, p, hreclaim, halloc⟩
  · cases hcreated : k.created a with
    | none =>
      rw [hcreated] at hfills
      rw [hcreated, hnone] at hpresent
      have hsame : k'.allocProcessTable = k.allocProcessTable := hfills
      intro q hq
      rw [hpresent, hsame]
      exact h q hq
    | some p =>
      rw [hcreated] at hfills
      rw [hcreated] at hpresent
      obtain ⟨-, hfree, halloc, -⟩ := hfills
      refine h.created ?_ halloc hpresent
      rintro rfl
      exact nomatch hfree.symm.trans hvalid.shell.1.1
  · rw [hnone, hreclaim] at hpresent
    exact h.reclaimed halloc hpresent

end Kernel

theorem Boot.start_present (b : Boot) : b.start.present = Function.update
    (Function.update (fun q => (b.page q).present) (slotPage 1) true) (slotPage 2) true := by
  have hone := Kernel.present_createAt b.shellOnly 1 b.collectorEntry 0
  have htwo := Kernel.present_createAt
    { b.shellOnly.createAt 1 b.collectorEntry 0 with collectorProcess := some 1 } 2 b.idleEntry 0
  rw [start_eq]
  refine htwo.trans ?_
  show Function.update (b.shellOnly.createAt 1 b.collectorEntry 0).present _ _ = _
  rw [hone]
  rfl

theorem Boot.start_presentExact {b : Boot} (h : Kernel.LoaderPages b) :
    b.start.PresentExact := by
  intro q hq
  rw [start_present, Function.update_apply, Function.update_apply, h.present hq]
  simp only [start_alloc]
  constructor
  · split_ifs with htwo hone
    · exact fun _ => .inr ⟨2, by decide, by decide, htwo⟩
    · exact fun _ => .inr ⟨1, by decide, by decide, hone⟩
    · exact fun hlow => .inl (of_decide_eq_true hlow)
  · rintro (hlow | ⟨p, hp, hp', rfl⟩)
    · rw [if_neg (by rw [slotPage_eq]; omega), if_neg (by rw [slotPage_eq]; omega)]
      exact decide_eq_true hlow
    · obtain rfl | rfl : p = 1 ∨ p = 2 := by omega
      · rw [if_neg (by decide), if_pos rfl]
      · rw [if_pos rfl]

namespace Kernel

variable {k : Kernel} {b : Boot} {history : List (Move Kernel Action)}

/-- What the P bits were to say: creation and collection change the entries of the stack of
the slot, stacks are present while their slot is held and absent once it is collected, and
all other pages are as the boot left them. -/
structure PagesFollowStacks (b : Boot) (history : List (Move Kernel Action)) (k : Kernel) :
    Prop where
  sets : ∀ entryPoint arg p, (k.createProcess entryPoint arg).1 = some p →
    k.pagesSet entryPoint arg = stackPages p
  clears : queueIsEmpty k.exitProcessQueue = false → ∀ preIf regs,
    k.pagesCleared preIf regs = stackPages k.frontPid
  held : ∀ p ≥ 1, k.allocProcessTable p = true → ∀ q ∈ stackPages p, k.present q = true
  collected : ∀ p ∈ reclaimedPids history, k.allocProcessTable p = false →
    ∀ q ∈ stackPages p, k.present q = false
  others : ∀ q, (∀ p < processMaxCount, q ∉ stackPages p) → k.present q = (b.page q).present

theorem pagesSet_eq {entryPoint arg : QWORD} {p : ℕ}
    (h : (k.createProcess entryPoint arg).1 = some p) :
    k.pagesSet entryPoint arg = {slotPage p} := by
  have hother (page : ℕ → PtEntry) :
      ({ k with page := page }.createProcess entryPoint arg).1 = some p := by
    rw [← h]
    simp only [createProcess, apply_ite Prod.fst]
    rfl
  have hpresent (page : ℕ → PtEntry) :
      ({ k with page := page }.createProcess entryPoint arg).2.present =
        Function.update { k with page := page }.present (slotPage p) true := by
    rw [createProcess_present, hother]
  ext q
  rw [Set.mem_singleton_iff]
  constructor
  · intro hset
    -- a table without present entries
    have hzero := hset fun _ => ⟨0, 0⟩
    rw [hpresent, Function.update_apply] at hzero
    by_contra hne
    rw [if_neg hne] at hzero
    exact absurd hzero (show ¬ (⟨0, 0⟩ : PtEntry).present = true by decide)
  · rintro rfl page
    rw [hpresent, Function.update_self]

theorem pagesCleared_eq (h : queueIsEmpty k.exitProcessQueue = false) (preIf : Bool)
    (regs : ProcessContext) : k.pagesCleared preIf regs = {slotPage k.frontPid} := by
  ext q
  rw [Set.mem_singleton_iff]
  have hloop (page : ℕ → PtEntry) : ({ k with page := page }.collectLoop preIf regs).present =
      Function.update { k with page := page }.present (slotPage k.frontPid) false := by
    rw [collectLoop_present, if_neg (by simp [h])]
    rfl
  constructor
  · intro hclear
    -- a table whose entries are all present
    have hone := hclear fun _ => ⟨1, 0⟩
    rw [hloop, Function.update_apply] at hone
    by_contra hne
    rw [if_neg hne] at hone
    exact absurd hone (show ¬ (⟨1, 0⟩ : PtEntry).present = false by decide)
  · rintro rfl page
    rw [hloop]
    exact Function.update_self _ _ _

/-- The present pages over every run. -/
theorem present_exact (hpage : LoaderPages b) (hrun : KernelRun anyStep b history k) :
    k.Valid ∧ k.PresentExact :=
  hrun.history_invariant (P := fun _ t => t.Valid ∧ t.PresentExact)
    ⟨b.start_valid, Boot.start_presentExact hpage⟩
    fun _ _ _ _ _ ⟨hvalid, h⟩ _ hstep => ⟨hvalid.step hstep, h.step hvalid hstep⟩

/-- No creation and no collection changes the entries of the stack of its slot, and in no
state of a run do the P bits follow the stacks: the entry of the collector is set. -/
theorem pages_miss_stacks (k : Kernel) (entryPoint arg : QWORD) (preIf : Bool)
    (regs : ProcessContext) (b : Boot) (history : List (Move Kernel Action)) :
    (∀ p, (k.createProcess entryPoint arg).1 = some p →
      k.pagesSet entryPoint arg = {slotPage p} ∧ k.pagesSet entryPoint arg ≠ stackPages p) ∧
    (queueIsEmpty k.exitProcessQueue = false →
      k.pagesCleared preIf regs = {slotPage k.frontPid} ∧
        k.pagesCleared preIf regs ≠ stackPages k.frontPid) ∧
    (LoaderPages b → KernelRun anyStep b history k →
      k.PresentExact ∧ ¬ PagesFollowStacks b history k) := by
  refine ⟨fun p hp => ?_, fun hqueue => ?_, fun hpage hrun => ?_⟩
  · have hset := pagesSet_eq hp
    exact ⟨hset, hset ▸ (stackPages_ne_singleton p _).symm⟩
  · have hclear := pagesCleared_eq hqueue preIf regs
    exact ⟨hclear, hclear ▸ (stackPages_ne_singleton _ _).symm⟩
  · obtain ⟨hvalid, hexact⟩ := present_exact hpage hrun
    refine ⟨hexact, fun hlaw => ?_⟩
    set p := k.sched.idleProcess with hp
    have hne : p ≠ 0 := hvalid.shell.1.2.symm
    have hlt : p < processMaxCount := hvalid.alloc_lt p hvalid.idle_code.1
    have hcount : processMaxCount = 1024 := rfl
    have hslot := slotPage_eq p
    have hset : k.present (slotPage p) = true :=
      (hexact _ (by omega)).mpr (.inr ⟨p, hne, hvalid.idle_code.1, rfl⟩)
    have hboot : (b.page (slotPage p)).present = decide (slotPage p < 0x4000) :=
      hpage.present (by omega)
    rw [hlaw.others _ fun p' hp' => slotPage_notMem hp', hboot] at hset
    have := of_decide_eq_true hset
    omega

end Kernel

/-- The page tables of the loader in memory that is zero elsewhere. -/
def Boot.paged : Boot :=
  { Boot.zero with
    page q := readEntry (Loader.initializePaging fun _ => 0) (pTableBaseAddress + 8 * q) }

theorem Boot.paged_loaderPages : Kernel.LoaderPages Boot.paged := by
  use fun _ => 0
  intro q _
  unfold Boot.paged
  rfl

namespace Kernel

theorem pages_miss_stacks_paged :
    (Boot.paged.start.createProcess 0 0).1 = some 3 ∧
      Boot.paged.start.pagesSet 0 0 = {slotPage 3} ∧
      (∃ k : Kernel, queueIsEmpty k.exitProcessQueue = false ∧
        k.pagesCleared true (fun _ => 0) ≠ stackPages k.frontPid) ∧
      ¬ PagesFollowStacks Boot.paged [] Boot.paged.start := by
  have hthree : (Boot.paged.start.createProcess 0 0).1 = some 3 := rfl
  have hqueue : queueIsEmpty (enQueue Boot.paged.start.exitProcessQueue (intBytes 3)).2 = false :=
    rfl
  let k : Kernel := { Boot.paged.start with
    exitProcessQueue := (enQueue Boot.paged.start.exitProcessQueue (intBytes 3)).2 }
  obtain ⟨hcreation, -, hstart⟩ :=
    pages_miss_stacks Boot.paged.start 0 0 true (fun _ => 0) Boot.paged []
  obtain ⟨-, hcollection, -⟩ := pages_miss_stacks k 0 0 true (fun _ => 0) Boot.paged []
  exact ⟨hthree, (hcreation 3 hthree).1, ⟨k, hqueue, (hcollection hqueue).2⟩,
    (hstart Boot.paged_loaderPages .start).2⟩

/-- The creation of the collector makes page 0x4002 present, which is in no kernel stack; its
stack is in the pages 0x2003 and 0x2004. -/
theorem collector_page_set : Boot.paged.start.present 0x4002 = true ∧
    (Boot.paged.page 0x4002).present = false ∧
    ¬ PagesFollowStacks Boot.paged [] Boot.paged.start := by
  have hset : Boot.paged.start.present 0x4002 = true := by
    rw [Boot.start_present, Function.update_of_ne (by decide)]
    exact Function.update_self _ _ _
  have hboot : (Boot.paged.page 0x4002).present = false := Boot.paged_loaderPages.present (by decide)
  refine ⟨hset, hboot, fun hlaw => ?_⟩
  have hsame := hlaw.others 0x4002 fun p hp => slotPage_notMem (p := 1) hp
  rw [hset, hboot] at hsame
  exact nomatch hsame

end Kernel
end SkhuOS
