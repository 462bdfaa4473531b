import SkhuOS.Proc.Steps

/-! The U/S bits of the page table. A grant of access to a range of addresses is a change
of the set of accessible pages; over a run this set is the program area and the stacks of
the user processes that are alive. -/
namespace SkhuOS
open Foundation

@[simp] theorem PtEntry.userAccess_setUserAccess (entry : PtEntry) (allow : Bool) :
    (entry.setUserAccess allow).userAccess = allow := by
  cases allow <;> simp [userAccess, setUserAccess, pageFlagUS]

@[simp] theorem PtEntry.userAccess_present (entry : PtEntry) :
    { entry with lower4Byte := entry.lower4Byte ||| pageFlagP }.userAccess = entry.userAccess := by
  simp [userAccess, pageFlagP]

@[simp] theorem PtEntry.userAccess_absent (entry : PtEntry) :
    { entry with lower4Byte := entry.lower4Byte &&& ~~~pageFlagP }.userAccess =
      entry.userAccess := by
  simp [userAccess, pageFlagP]

/-- Page `q` lies in the `size` bytes from `start` on. -/
def PageIn (q start size : ℕ) : Prop := start ≤ 0x1000 * q ∧ 0x1000 * (q + 1) ≤ start + size

instance (q start size : ℕ) : Decidable (PageIn q start size) := inferInstanceAs (Decidable (_ ∧ _))

/-- Whole pages get the bit, all others keep theirs. -/
theorem setPageUserAccess_apply (base count : ℕ) (allow : Bool) (page : ℕ → PtEntry) (q : ℕ) :
    setPageUserAccess (0x1000 * base) (0x1000 * base + 0x1000 * count) allow page q =
      if PageIn q (0x1000 * base) (0x1000 * count) then (page q).setUserAccess allow
      else page q := by
  have hcount : (0x1000 * base + 0x1000 * count - 0x1000 * base + 0xFFF) / 0x1000 = count := by omega
  have hindex (i : ℕ) : (0x1000 * base + i * 0x1000) >>> 12 = base + i := by
    rw [Nat.shiftRight_eq_div_pow]
    omega
  simp only [setPageUserAccess, hcount, hindex]
  -- the pages set so far are those below `base + count`
  induction count with
  | zero =>
    rw [if_neg (by unfold PageIn; omega)]
    rfl
  | succ n ih =>
    rw [List.range_succ, List.foldl_append, List.foldl_cons, List.foldl_nil]
    by_cases hq : q = base + n
    · subst hq
      rw [Function.update_self, ih (by omega), if_neg (by unfold PageIn; omega),
        if_pos (by unfold PageIn; omega)]
    · rw [Function.update_of_ne hq, ih (by omega)]
      refine if_congr ?_ rfl rfl
      unfold PageIn
      omega

/-- The start of the user stack of a slot. -/
def userStackOf (p : ℕ) : ℕ := userStackBase + userStackInterval * p

theorem userStackOf_page (p : ℕ) : userStackOf p = 0x1000 * (0x3100 + 3 * p) := by
  simp only [userStackOf, userStackBase, userCodeAddress, userMemoryBase, userCodeSize,
    userStackInterval, processStackInterval]
  omega

theorem setPageUserAccess_stack (p : ℕ) (allow : Bool) (page : ℕ → PtEntry) (q : ℕ) :
    setPageUserAccess (userStackOf p) (userStackOf p + userStackSize) allow page q =
      if PageIn q (userStackOf p) userStackSize then (page q).setUserAccess allow
      else page q := by
  rw [userStackOf_page]
  exact setPageUserAccess_apply _ 2 allow page q

theorem setPageUserAccess_code (allow : Bool) (page : ℕ → PtEntry) (q : ℕ) :
    setPageUserAccess userCodeAddress (userCodeAddress + userCodeSize) allow page q =
      if PageIn q userCodeAddress userCodeSize then (page q).setUserAccess allow
      else page q :=
  setPageUserAccess_apply 0x3000 0x100 allow page q

/-- The stacks of two slots share no page, and none lies in the program area. -/
theorem pageIn_stack_inj {p p' q : ℕ} (h : PageIn q (userStackOf p) userStackSize)
    (h' : PageIn q (userStackOf p') userStackSize) : p = p' := by
  rw [userStackOf_page] at h h'
  simp only [PageIn, userStackSize, processStackSize] at h h'
  omega

theorem pageIn_stack_code {p q : ℕ} (h : PageIn q (userStackOf p) userStackSize) :
    ¬ PageIn q userCodeAddress userCodeSize := by
  rw [userStackOf_page] at h
  simp only [PageIn, userStackSize, processStackSize, userCodeAddress, userMemoryBase,
    userCodeSize] at h ⊢
  omega

namespace Kernel

/-- The pages user code may touch. -/
def access (k : Kernel) (q : ℕ) : Bool := (k.page q).userAccess

variable {k k' : Kernel} {p q : ℕ}

theorem access_createAt (entryPoint arg : QWORD) : (k.createAt p entryPoint arg).access = k.access := by
  funext q
  simp only [access, createAt, Function.update_apply]
  split
  next h => rw [h, PtEntry.userAccess_present]
  · rfl

/-- A call that creates fills at most one slot; it opens the program area and the stack of
the slot, as `code` and `user` say. -/
def Opens (k k' : Kernel) (code user : Bool) : Prop :=
  (k'.allocProcessTable = k.allocProcessTable ∧ ∀ q, k'.access q =
    (k.access q || code && decide (PageIn q userCodeAddress userCodeSize))) ∨
  ∃ p, k.allocProcessTable p = false ∧
    k'.allocProcessTable = Function.update k.allocProcessTable p true ∧ ∀ q, k'.access q =
      (k.access q || code && decide (PageIn q userCodeAddress userCodeSize) ||
        user && decide (PageIn q (userStackOf p) userStackSize))

theorem Opens.congr {code user : Bool} {k'' : Kernel} (h : k.Opens k' code user)
    (halloc : k''.allocProcessTable = k'.allocProcessTable) (hpage : k''.page = k'.page) :
    k.Opens k'' code user := by
  simpa only [Opens, access, halloc, hpage] using h

theorem Valid.createProcess_opens (h : k.Valid) (entryPoint arg : QWORD) :
    k.Opens (k.createProcess entryPoint arg).2 false false := by
  rcases h.createProcess_cases entryPoint arg with ⟨p, hfree, -, heq⟩ | ⟨p, heq⟩
  · rw [heq]
    refine .inr ⟨p, hfree, rfl, fun q => ?_⟩
    have haccess : ((k.setIf false).2.createAt p entryPoint arg).access = k.access :=
      access_createAt entryPoint arg
    simp only [Bool.false_and, Bool.or_false]
    exact congrFun haccess q
  · rw [heq]
    exact .inl ⟨rfl, fun q => by simp only [Bool.false_and, Bool.or_false]; rfl⟩

theorem Valid.createUserProcess_opens (h : k.Valid) (entryPoint arg : QWORD) :
    k.Opens (k.createUserProcess entryPoint arg).2 false true := by
  rcases (h.setIf false).createProcess_cases entryPoint arg with ⟨p, hfree, -, heq⟩ | ⟨p, heq⟩
  · simp only [Kernel.createUserProcess, heq]
    refine .inr ⟨p, hfree, rfl, fun q => ?_⟩
    have haccess := congrFun (access_createAt (k := ((k.setIf false).2.setIf false).2) (p := p)
      entryPoint arg) q
    have hpage := setPageUserAccess_stack p true
      (((k.setIf false).2.setIf false).2.createAt p entryPoint arg).page q
    show (setPageUserAccess (userStackOf p) (userStackOf p + userStackSize) true
      (((k.setIf false).2.setIf false).2.createAt p entryPoint arg).page q).userAccess = _
    rw [hpage]
    split
    next hin => simp [hin]
    next hin =>
      simp only [hin, decide_false, Bool.and_false, Bool.false_and, Bool.or_false]
      exact haccess
  · simp only [Kernel.createUserProcess, heq]
    exact .inl ⟨rfl, fun q => by simp only [Bool.false_and, Bool.or_false]; rfl⟩

theorem copyImage_access (image : Bytes) (size q : ℕ) : (k.copyImage image size).access q =
    (k.access q || decide (PageIn q userCodeAddress userCodeSize)) := by
  simp only [access, copyImage, setPageUserAccess_code]
  split
  next hin => simp [hin]
  next hin => simp [hin]

theorem Valid.runUserProgram_opens (h : k.Valid) (image : Bytes) (size : ℕ) (arg : QWORD) :
    k.Opens (k.runUserProgram image size arg).2 (decide (size ≤ userCodeSize)) true := by
  simp only [Kernel.runUserProgram]
  split
  next hbig => exact .inl ⟨rfl, fun q => by simp [show ¬ size ≤ userCodeSize by omega]⟩
  next hfits =>
    set k1 := (k.setIf false).2.copyImage image size with hk1
    have hcopied : k1.Valid := (h.setIf false).copyImage image size
    have hcode (q : ℕ) : k1.access q =
        (k.access q || decide (PageIn q userCodeAddress userCodeSize)) :=
      copyImage_access (k := (k.setIf false).2) image size q
    have hopens := hcopied.createUserProcess_opens (BitVec.ofNat 64 userCodeAddress) arg
    have hboth : k.Opens (k1.createUserProcess (BitVec.ofNat 64 userCodeAddress) arg).2
        (decide (size ≤ userCodeSize)) true := by
      rw [decide_eq_true (Nat.not_lt.mp hfits)]
      rcases hopens with ⟨halloc, haccess⟩ | ⟨p, hfree, halloc, haccess⟩
      · exact .inl ⟨halloc, fun q => by simp [haccess, hcode]⟩
      · exact .inr ⟨p, hfree, halloc, fun q => by simp [haccess, hcode]⟩
    split
    next k2 heq => exact hboth.congr (by rw [heq]) (by rw [heq])
    next p k2 heq => exact hboth.congr (by rw [heq]; rfl) (by rw [heq]; rfl)

end Kernel

/-- Does the call load a program into the program area? -/
def Call.loadsProgram : Call → Bool
  | .runUserProgram _ size _ => decide (size ≤ userCodeSize)
  | _ => false

/-- Is a process that the call creates a user process? -/
def Call.createsUser : Call → Bool
  | .createUserProcess _ _ | .runUserProgram _ _ _ => true
  | _ => false

def Action.loadsProgram : Action → Bool
  | .call c _ => c.loadsProgram
  | _ => false

def Action.createsUser : Action → Bool
  | .call c _ => c.createsUser
  | _ => false

namespace Kernel

variable {k k' : Kernel} {p q : ℕ}

theorem Opens.orForever {α : Type} {result : Option α × Kernel} {code user : Bool}
    (h : k.Opens result.2 code user) : k.Opens (orForever result) code user := by
  obtain ⟨value, k'⟩ := result
  cases value with
  | some _ => exact h
  | none => exact h.congr rfl rfl

theorem Valid.runCall_opens (h : k.Valid) {c : Call} (hc : c.Creates) (regs : ProcessContext) :
    k.Opens (k.runCall c regs) c.loadsProgram c.createsUser := by
  cases c with
  | createProcess entryPoint arg => exact (h.createProcess_opens entryPoint arg).orForever
  | createUserProcess entryPoint arg => exact (h.createUserProcess_opens entryPoint arg).orForever
  | runUserProgram image size arg => exact (h.runUserProgram_opens image size arg).orForever
  | _ => exact hc.elim

theorem acquireLock_page (m : ℕ) (regs : ProcessContext) :
    (k.acquireLock m regs).page = k.page := by
  simp only [acquireLock]
  split
  · rfl
  · split <;> rfl

theorem releaseLock_page (m : ℕ) : (k.releaseLock m).page = k.page := by
  simp only [releaseLock]
  split
  · rfl
  · split
    · split <;> rfl
    · rfl

/-- The pid at the front of the exit queue. -/
def frontPid (k : Kernel) : ℕ := pidAt (deQueue k.exitProcessQueue fun _ => 0).2.1 0

/-- The collector closes the stack of the slot it frees. -/
theorem collectLoop_access (k : Kernel) (preIf : Bool) (regs : ProcessContext) :
    (queueIsEmpty k.exitProcessQueue = true ∧
        (k.collectLoop preIf regs).allocProcessTable = k.allocProcessTable ∧
        (k.collectLoop preIf regs).access = k.access) ∨
      (queueIsEmpty k.exitProcessQueue = false ∧ (k.collectLoop preIf regs).allocProcessTable =
          Function.update k.allocProcessTable k.frontPid false ∧
        ∀ q, (k.collectLoop preIf regs).access q =
          (k.access q && !decide (PageIn q (userStackOf k.frontPid) userStackSize))) := by
  simp only [collectLoop]
  split
  next hempty => exact .inl ⟨hempty, rfl, rfl⟩
  next hempty =>
    refine .inr ⟨by simpa using hempty, rfl, fun q => ?_⟩
    set page := setPageUserAccess (userStackOf k.frontPid) (userStackOf k.frontPid + userStackSize)
      false k.page with hpage
    -- clearing the P bit of one entry leaves every U/S bit alone
    have hbit : (Function.update page (kernelSize + k.frontPid * 2)
        { page (kernelSize + k.frontPid * 2) with
          lower4Byte := (page (kernelSize + k.frontPid * 2)).lower4Byte &&& ~~~pageFlagP }
        q).userAccess = (page q).userAccess := by
      rw [Function.update_apply]
      split
      next h => rw [h, PtEntry.userAccess_absent]
      · rfl
    refine hbit.trans ?_
    rw [hpage, setPageUserAccess_stack]
    split
    next hin => simp [hin]
    next hin => simp [hin, access]

/-- Has a program been loaded? -/
def programLoaded (history : List (Move Kernel Action)) : Bool :=
  history.any fun move => move.label.loadsProgram

/-- The move gives slot `p` to a new process. -/
def fills (move : Move Kernel Action) (p : ℕ) : Bool :=
  !move.before.allocProcessTable p && move.after.allocProcessTable p

/-- Was the last process of slot `p` created as a user process? -/
def userProcess (history : List (Move Kernel Action)) (p : ℕ) : Bool :=
  history.foldl (fun user move => if fills move p then move.label.createsUser else user) false

/-- A page is accessible exactly if it belongs to the loaded program or to the stack of a
living user process. -/
def AccessExact (history : List (Move Kernel Action)) (k : Kernel) : Prop :=
  ∀ q, k.access q = true ↔ programLoaded history = true ∧ PageIn q userCodeAddress userCodeSize ∨
    ∃ p, k.allocProcessTable p = true ∧ userProcess history p = true ∧
      PageIn q (userStackOf p) userStackSize

variable {history : List (Move Kernel Action)} {a : Action}

theorem programLoaded_snoc : programLoaded (history ++ [⟨k, a, k'⟩]) =
    (programLoaded history || a.loadsProgram) := by
  simp [programLoaded]

theorem userProcess_snoc : userProcess (history ++ [⟨k, a, k'⟩]) p =
    if fills ⟨k, a, k'⟩ p then a.createsUser else userProcess history p := by
  simp [userProcess, List.foldl_append]

theorem AccessExact.keep (h : AccessExact history k) (ha : a.loadsProgram = false)
    (halloc : k'.allocProcessTable = k.allocProcessTable) (haccess : k'.access = k.access) :
    AccessExact (history ++ [⟨k, a, k'⟩]) k' := by
  intro q
  rw [haccess, h q, programLoaded_snoc, ha, Bool.or_false, halloc]
  simp [userProcess_snoc, fills, halloc]

theorem AccessExact.open_pages (h : AccessExact history k) (hopens : k.Opens k' a.loadsProgram
    a.createsUser) : AccessExact (history ++ [⟨k, a, k'⟩]) k' := by
  intro q
  rcases hopens with ⟨halloc, haccess⟩ | ⟨p, hfree, halloc, haccess⟩
  · rw [haccess, programLoaded_snoc, halloc]
    simp only [userProcess_snoc, fills, halloc, Bool.not_and_self, Bool.or_eq_true, h q]
    simp only [Bool.and_eq_true, decide_eq_true_eq, Bool.false_eq_true, if_false, or_and_right, or_right_comm]
  · have hold (q : ℕ) : fills ⟨k, a, k'⟩ q = decide (q = p) := by
      by_cases hqp : q = p
      · subst hqp; simp [fills, halloc, hfree]
      · simp [fills, halloc, hqp]
    rw [haccess, programLoaded_snoc]
    simp only [userProcess_snoc, hold, decide_eq_true_eq, Bool.or_eq_true, h q, Bool.and_eq_true]
    constructor
    · rintro (((⟨hl, hin⟩ | ⟨p', hp', huser, hin⟩) | hcode) | ⟨huser, hin⟩)
      · exact .inl ⟨.inl hl, hin⟩
      · have hne : p' ≠ p := by
          rintro rfl
          rw [hfree] at hp'
          cases hp'
        exact .inr ⟨p', by simp [halloc, hne, hp'], by simpa [hne] using huser, hin⟩
      · exact .inl ⟨.inr hcode.1, hcode.2⟩
      · exact .inr ⟨p, by simp [halloc], by simpa using huser, hin⟩
    · rintro (⟨hl | hl, hin⟩ | ⟨p', hp', huser, hin⟩)
      · exact .inl (.inl (.inl ⟨hl, hin⟩))
      · exact .inl (.inr ⟨hl, hin⟩)
      · by_cases hne : p' = p
        · subst hne
          exact .inr ⟨by simpa using huser, hin⟩
        · refine .inl (.inl (.inr ⟨p', ?_, by simpa [hne] using huser, hin⟩))
          simpa [halloc, hne] using hp'

theorem AccessExact.close_stack (h : AccessExact history k) (ha : a.loadsProgram = false)
    {pid : ℕ} (halloc : k'.allocProcessTable = Function.update k.allocProcessTable pid false)
    (haccess : ∀ q, k'.access q =
      (k.access q && !decide (PageIn q (userStackOf pid) userStackSize))) :
    AccessExact (history ++ [⟨k, a, k'⟩]) k' := by
  have hold (p : ℕ) : fills ⟨k, a, k'⟩ p = false := by
    by_cases hp : p = pid
    · subst hp; simp [fills, halloc]
    · simp [fills, halloc, hp]
  intro q
  rw [haccess, programLoaded_snoc, ha, Bool.or_false]
  simp only [userProcess_snoc, hold, Bool.and_eq_true, h q, Bool.not_eq_true',
    decide_eq_false_iff_not, Bool.false_eq_true, if_false]
  constructor
  · rintro ⟨hl | ⟨p, hp, huser, hin⟩, hout⟩
    · exact .inl hl
    · have hne : p ≠ pid := fun he => hout (he ▸ hin)
      exact .inr ⟨p, by simp [halloc, hne, hp], huser, hin⟩
  · rintro (⟨hl, hin⟩ | ⟨p, hp, huser, hin⟩)
    · exact ⟨.inl ⟨hl, hin⟩, fun hstack => pageIn_stack_code hstack hin⟩
    · have hne : p ≠ pid := by
        rintro rfl
        simp [halloc] at hp
      refine ⟨.inr ⟨p, by simpa [halloc, hne] using hp, huser, hin⟩, fun hstack => hne ?_⟩
      exact pageIn_stack_inj hin hstack

/-- Every step keeps the exact description of the accessible pages. -/
theorem Valid.accessExact_step (hvalid : k.Valid) (h : AccessExact history k)
    (hstep : k.step a = some k') : AccessExact (history ++ [⟨k, a, k'⟩]) k' := by
  have hcollect (j : Kernel) (preIf : Bool) (regs : ProcessContext) (ha : a.loadsProgram = false)
      (hj : j.allocProcessTable = k.allocProcessTable) (hpage : j.access = k.access) :
      AccessExact (history ++ [⟨k, a, j.collectLoop preIf regs⟩]) (j.collectLoop preIf regs) := by
    have hcases := j.collectLoop_access preIf regs
    rw [hj, hpage] at hcases
    rcases hcases with ⟨-, halloc, haccess⟩ | ⟨-, halloc, haccess⟩
    · exact h.keep ha halloc haccess
    · exact h.close_stack ha halloc haccess
  cases hvalid.step_kind hstep with
  | still ha hstill =>
    refine h.keep ?_ hstill.1.alloc (funext fun q => by simp only [access, hstill.2])
    cases a with
    | call c regs =>
      cases c <;> first | rfl | exact absurd trivial ha
    | _ => rfl
  | create hmay hc => exact h.open_pages (hvalid.runCall_opens hc _)
  | @acquireLock m regs hmay =>
    exact h.keep rfl (hvalid.acquireLock_calm hmay regs).alloc
      (funext fun q => by simp only [access, acquireLock_page])
  | releaseLock hmay =>
    exact h.keep rfl (hvalid.releaseLock_calm hmay).alloc
      (funext fun q => by simp only [access, releaseLock_page])
  | exitProcess hmay => exact h.keep rfl rfl rfl
  | collect hcol hcode => exact hcollect (k.setIf false).2 _ _ rfl rfl rfl
  | recollect hat => exact hcollect k _ _ rfl rfl rfl

end Kernel

theorem Boot.start_access (b : Boot) (q : ℕ) : b.start.access q = (b.page q).userAccess := by
  have h1 := congrFun (Kernel.access_createAt (k := b.shellOnly) (p := 1) b.collectorEntry 0) q
  have h2 := congrFun (Kernel.access_createAt
    (k := { b.shellOnly.createAt 1 b.collectorEntry 0 with collectorProcess := some 1 }) (p := 2)
    b.idleEntry 0) q
  rw [start_eq]
  exact h2.trans h1

namespace Kernel

variable {k : Kernel} {history : List (Move Kernel Action)}

/-- What user code may touch in a state, given the history that led to it. -/
structure UserAccess (history : List (Move Kernel Action)) (k : Kernel) : Prop where
  exact_pages : AccessExact history k
  inside : ∀ q, k.access q = true → PageIn q userMemoryBase (userMemoryEnd - userMemoryBase)
  closed : ∀ p q, k.allocProcessTable p = false ∨ userProcess history p = false →
    PageIn q (userStackOf p) userStackSize → k.access q = false
  gap : ∀ p q, PageIn q (userStackOf p + userStackSize) (userStackInterval - userStackSize) →
    k.access q = false
  disjoint : ∀ p p' a, userStackOf p ≤ a → a < userStackOf p + userStackSize →
    userStackOf p' ≤ a → a < userStackOf p' + userStackSize → p = p'

theorem AccessExact.userAccess (h : AccessExact history k) (hvalid : k.Valid) :
    UserAccess history k := by
  have hstack (p : ℕ) := userStackOf_page p
  simp only [userStackOf_page] at hstack
  refine ⟨h, fun q hq => ?_, fun p q hp hin => ?_, fun p q hgap => ?_, fun p p' a h1 h2 h3 h4 => ?_⟩
  · rcases (h q).mp hq with ⟨-, hin⟩ | ⟨p, hp, -, hin⟩
    · simp only [PageIn, userCodeAddress, userMemoryBase, userCodeSize, userMemoryEnd] at hin ⊢
      omega
    · have hlt := hvalid.alloc_lt p hp
      rw [userStackOf_page] at hin
      simp only [PageIn, userStackSize, processStackSize, userMemoryBase, userMemoryEnd,
        processMaxCount] at hin hlt ⊢
      omega
  · rw [← Bool.not_eq_true, h q]
    rintro (⟨-, hcode⟩ | ⟨p', hp', huser, hin'⟩)
    · exact pageIn_stack_code hin hcode
    · obtain rfl := pageIn_stack_inj hin hin'
      rcases hp with hp | hp
      · exact absurd hp' (by simp [hp])
      · exact absurd huser (by simp [hp])
  · rw [← Bool.not_eq_true, h q]
    rintro (⟨-, hin⟩ | ⟨p', -, -, hin⟩)
    · rw [userStackOf_page] at hgap
      simp only [PageIn, userStackSize, processStackSize, userCodeAddress, userMemoryBase,
        userCodeSize, userStackInterval, processStackInterval] at hin hgap
      omega
    · rw [userStackOf_page] at hgap hin
      simp only [PageIn, userStackSize, processStackSize, userStackInterval,
        processStackInterval] at hin hgap
      omega
  · rw [userStackOf_page] at h1 h2 h3 h4
    simp only [userStackSize, processStackSize] at h2 h4
    omega

/-- In every run from page entries without U/S bits, user code may touch the loaded
program and the stacks of the living user processes, and nothing else. -/
theorem userAccess_invariant {b : Boot} (hpage : ∀ q, (b.page q).userAccess = false)
    (hrun : KernelRun anyStep b history k) : UserAccess history k := by
  have hexact : AccessExact history k := by
    refine (hrun.history_invariant (P := fun history k => k.Valid ∧ AccessExact history k)
      ⟨b.start_valid, fun q => ?_⟩ fun past t a u _ ⟨hvalid, h⟩ _ hstep =>
        ⟨hvalid.step hstep, hvalid.accessExact_step h hstep⟩).2
    rw [b.start_access, hpage]
    simp [programLoaded, userProcess]
  exact hexact.userAccess (Reachable.valid ⟨b, history, hrun⟩)

/-- A program is loaded, and its process created, left and collected. -/
theorem userAccess_invariant_lifeCycle :
    UserAccess (trace step Boot.zero.start lifeCycle) (reached step Boot.zero.start lifeCycle) :=
  userAccess_invariant (fun _ => by simp [Boot.zero, PtEntry.userAccess])
    (run_trace (by decide +kernel) fun _ _ => trivial)

end Kernel
end SkhuOS
