import SkhuOS.Proc.UserAccess

/-! The registers a new process starts with. The clearing call of `setUpProcess` passes a
size where an end address is expected, so what the old process left stays. -/
namespace SkhuOS

/-- A range of addresses that ends before it starts: nothing is cleared. -/
theorem contextAddress_pos {p : ℕ} (hp : p < processMaxCount) : 8 * 24 ≤ contextAddress p := by
  have hlt : pcbPoolAddress + pcbSize * p + pcbContextOffset < 2 ^ 31 := by
    simp only [processMaxCount, pcbPoolAddress, pcbSize, pcbContextOffset] at hp ⊢
    omega
  have hint : contextAddress p = (pcbPoolAddress + pcbSize * p + pcbContextOffset : ℕ) := by
    rw [contextAddress, BitVec.toInt_eq_toNat_cond, BitVec.toNat_ofNat,
      Nat.mod_eq_of_lt (by omega), if_pos (by omega)]
  rw [hint]
  simp only [pcbPoolAddress, pcbSize, pcbContextOffset]
  omega

theorem contextOfWords_contextWords (base : ℤ) (context : ProcessContext) :
    contextOfWords base (contextWords base context) = context := by
  funext r
  have hword (half : ℕ) (hhalf : half < 2) : contextWords base context (base + 8 * r + 4 * half) =
      (context r).extractLsb' (32 * half) 32 := by
    have hoffset : (base + 8 * (r : ℤ) + 4 * (half : ℤ) - base).toNat = 8 * r + 4 * half := by omega
    have hr : (8 * (r : ℕ) + 4 * half) / 8 = r := by omega
    have hhalf : 8 * ((8 * (r : ℕ) + 4 * half) % 8) = 32 * half := by omega
    simp only [contextWords, hoffset, hr, hhalf, r.isLt, dif_pos, Fin.eta]
  have hlow := hword 0 (by omega)
  have hhigh := hword 1 (by omega)
  simp only [Nat.cast_zero, mul_zero, add_zero, Nat.cast_one, mul_one] at hlow hhigh
  rw [contextOfWords, hlow, hhigh]
  apply BitVec.eq_of_getLsbD_eq
  intro i hi
  simp only [BitVec.getLsbD_append, BitVec.getLsbD_extractLsb']
  by_cases hlt : i < 32
  · simp [hlt]
  · simp only [hlt, if_false]
    have : i - 32 < 32 := by omega
    simp [this, show 32 + (i - 32) = i by omega]

theorem clearContext_eq {p : ℕ} (hp : p < processMaxCount) (context : ProcessContext) :
    clearContext p context = context := by
  rw [clearContext, initializeMemory_of_le (contextAddress_pos hp), contextOfWords_contextWords]

/-- The registers that a creation assigns. -/
def assignedRegs : List (Fin 24) :=
  [regCS, regSS, regDS, regES, regFS, regGS, regRIP, regRSP, regRBP, regRFLAGS, regRDI]

/-- The context a new process should start with: what is not assigned is zero. -/
def freshContext (p : ℕ) (entryPoint arg : QWORD) : ProcessContext :=
  let stackTop := BitVec.ofNat 64 (processStackBase + processStackInterval * p) +
    BitVec.ofNat 64 processStackSize
  fun r =>
    if r = regRDI then arg
    else if r = regRFLAGS then rflagsIF
    else if r = regRBP ∨ r = regRSP then stackTop
    else if r = regRIP then entryPoint
    else if r = regCS then codeDescriptorOffset
    else if r = regSS ∨ r = regDS ∨ r = regES ∨ r = regFS ∨ r = regGS then dataDescriptorOffset
    else 0

/-- The old contents of a slot that creation leaves no trace of. -/
structure CleanSlot (old : ProcessContext) : Prop where
  zero : ∀ r, r ∉ assignedRegs → old r = 0
  flags : old regRFLAGS &&& ~~~rflagsIF = 0

/-- The context that `createProcess` leaves in slot `p`. -/
def newContext (p : ℕ) (entryPoint arg : QWORD) (old : ProcessContext) : ProcessContext :=
  Function.update (setUpContext p entryPoint
    (BitVec.ofNat 64 (processStackBase + processStackInterval * p))
    (BitVec.ofNat 64 processStackSize) old) regRDI arg

section Contexts

variable {p : ℕ} {entryPoint arg userStack : QWORD} {old : ProcessContext} {r : Fin 24}

theorem newContext_assigned (hr : r ∈ assignedRegs) (hflags : r ≠ regRFLAGS) :
    newContext p entryPoint arg old r = freshContext p entryPoint arg r := by
  simp only [assignedRegs, List.mem_cons, List.not_mem_nil, or_false] at hr
  rcases hr with rfl | rfl | rfl | rfl | rfl | rfl | rfl | rfl | rfl | rfl | rfl <;>
    first
    | exact absurd rfl hflags
    | simp [newContext, setUpContext, freshContext, regCS, regSS, regDS,
        regES, regFS, regGS, regRIP, regRSP, regRBP, regRFLAGS, regRDI]

theorem newContext_flags (hp : p < processMaxCount) :
    newContext p entryPoint arg old regRFLAGS = old regRFLAGS ||| rflagsIF := by
  simp [newContext, setUpContext, clearContext_eq hp, regCS, regSS, regDS,
    regES, regFS, regGS, regRIP, regRSP, regRBP, regRFLAGS, regRDI]

theorem newContext_other (hp : p < processMaxCount) (hr : r ∉ assignedRegs) :
    newContext p entryPoint arg old r = old r := by
  simp only [assignedRegs, List.mem_cons, List.not_mem_nil, or_false, not_or] at hr
  simp [newContext, setUpContext, clearContext_eq hp, Function.update_apply, hr]

theorem freshContext_other (hr : r ∉ assignedRegs) : freshContext p entryPoint arg r = 0 := by
  simp only [assignedRegs, List.mem_cons, List.not_mem_nil, or_false, not_or] at hr
  simp [freshContext, hr]

theorem or_eq_right_iff {w : ℕ} (x y : BitVec w) : x ||| y = y ↔ x &&& ~~~y = 0 := by
  constructor <;> intro h <;> ext i hi
  · have hbit := congrArg (fun v : BitVec w => v.getLsbD i) h
    simpa [hi] using hbit
  · have hbit := congrArg (fun v : BitVec w => v.getLsbD i) h
    simpa [hi] using hbit

/-- A new context is the fresh one exactly if the slot was clean. -/
theorem newContext_eq_iff (hp : p < processMaxCount) :
    newContext p entryPoint arg old = freshContext p entryPoint arg ↔ CleanSlot old := by
  have hflags : freshContext p entryPoint arg regRFLAGS = rflagsIF := by
    simp [freshContext, regRDI, regRFLAGS]
  constructor
  · intro h
    refine ⟨fun r hr => ?_, ?_⟩
    · exact (newContext_other hp hr).symm.trans ((congrFun h r).trans (freshContext_other hr))
    · rw [← or_eq_right_iff]
      exact (newContext_flags hp).symm.trans ((congrFun h regRFLAGS).trans hflags)
  · intro h
    funext r
    by_cases hr : r ∈ assignedRegs
    · by_cases hrf : r = regRFLAGS
      · rw [hrf, newContext_flags hp, hflags, or_eq_right_iff]
        exact h.flags
      · exact newContext_assigned hr hrf
    · rw [newContext_other hp hr, freshContext_other hr]
      exact h.zero r hr

/-- The registers of a user process lie over those of a kernel process. -/
theorem setUserContext_other (hr : r ∉ assignedRegs ∨ r = regRFLAGS) (context : ProcessContext) :
    setUserContext userStack context r = context r := by
  have hne : r ≠ regCS ∧ r ≠ regSS ∧ r ≠ regDS ∧ r ≠ regES ∧ r ≠ regFS ∧ r ≠ regGS ∧ r ≠ regRSP ∧
      r ≠ regRBP := by
    rcases hr with hr | rfl
    · simp only [assignedRegs, List.mem_cons, List.not_mem_nil, or_false, not_or] at hr
      simp [hr]
    · decide
  simp [setUserContext, hne]

theorem setUserContext_eq_iff : setUserContext userStack (newContext p entryPoint arg old) =
    setUserContext userStack (freshContext p entryPoint arg) ↔
      newContext p entryPoint arg old = freshContext p entryPoint arg := by
  refine ⟨fun h => ?_, fun h => by rw [h]⟩
  funext r
  by_cases hr : r ∈ assignedRegs ∧ r ≠ regRFLAGS
  · exact newContext_assigned hr.1 hr.2
  · have hr : r ∉ assignedRegs ∨ r = regRFLAGS := by tauto
    have hsame := congrFun h r
    rwa [setUserContext_other hr, setUserContext_other hr] at hsame

end Contexts

namespace Kernel

variable {k k' : Kernel} {p : ℕ}

theorem createAt_context (entryPoint arg : QWORD) :
    ((k.createAt p entryPoint arg).sched.pcb p).context =
      newContext p entryPoint arg (k.sched.pcb p).context := by
  simp [createAt, Scheduler.addProcess, Scheduler.setUpProcess, Scheduler.setState,
    Scheduler.modifyPcb, Scheduler.insertList, newContext]

theorem Valid.createProcess_context (h : k.Valid) (entryPoint arg : QWORD)
    (hcreated : k.createProcess entryPoint arg = (some p, k')) : p < processMaxCount ∧
      (k'.sched.pcb p).context = newContext p entryPoint arg (k.sched.pcb p).context := by
  rcases h.createProcess_cases entryPoint arg with ⟨q, -, hlt, heq⟩ | ⟨q, heq⟩
  · rw [heq, Prod.mk.injEq, Option.some.injEq] at hcreated
    obtain ⟨rfl, rfl⟩ := hcreated
    exact ⟨hlt, createAt_context (k := (k.setIf false).2) entryPoint arg⟩
  · rw [heq] at hcreated
    cases hcreated

theorem Valid.createUserProcess_context (h : k.Valid) (entryPoint arg : QWORD)
    (hcreated : k.createUserProcess entryPoint arg = (some p, k')) : p < processMaxCount ∧
      (k'.sched.pcb p).context = setUserContext (BitVec.ofNat 64 (userStackOf p))
        (newContext p entryPoint arg (k.sched.pcb p).context) := by
  simp only [Kernel.createUserProcess] at hcreated
  split at hcreated
  · cases hcreated
  next q k1 heq =>
    obtain ⟨hp, hcontext⟩ := (h.setIf false).createProcess_context entryPoint arg heq
    rw [Prod.mk.injEq, Option.some.injEq] at hcreated
    obtain ⟨rfl, rfl⟩ := hcreated
    refine ⟨hp, ?_⟩
    have hset : ((k1.sched.modifyPcb q fun pcb => { pcb with
        context := setUserContext (BitVec.ofNat 64 (userStackOf q)) pcb.context }).pcb q).context =
        setUserContext (BitVec.ofNat 64 (userStackOf q)) (k1.sched.pcb q).context := by
      rw [Scheduler.modifyPcb_pcb, if_pos rfl]
    rw [hcontext] at hset
    exact hset

/-- The slot of a new process starts with the fresh context, for a kernel or a user
process, exactly if the slot was clean before. -/
theorem context_fresh_iff (h : Reachable k) (entryPoint arg : QWORD) :
    (∀ p k', k.createProcess entryPoint arg = (some p, k') →
      ((k'.sched.pcb p).context = freshContext p entryPoint arg ↔
        CleanSlot (k.sched.pcb p).context)) ∧
    ∀ p k', k.createUserProcess entryPoint arg = (some p, k') →
      ((k'.sched.pcb p).context = setUserContext (BitVec.ofNat 64 (userStackOf p))
          (freshContext p entryPoint arg) ↔
        CleanSlot (k.sched.pcb p).context) := by
  refine ⟨fun p k' hcreated => ?_, fun p k' hcreated => ?_⟩
  · obtain ⟨hp, hcontext⟩ := h.valid.createProcess_context entryPoint arg hcreated
    rw [hcontext, newContext_eq_iff hp]
  · obtain ⟨hp, hcontext⟩ := h.valid.createUserProcess_context entryPoint arg hcreated
    rw [hcontext, setUserContext_eq_iff, newContext_eq_iff hp]

end Kernel

theorem Scheduler.addProcess_pcb {s : Scheduler} {p q : ℕ} (hq : q ≠ p) (entryPoint arg : QWORD) :
    (s.addProcess p entryPoint arg).pcb q = s.pcb q := by
  simp [addProcess, setUpProcess, setState, modifyPcb, insertList, hq]

namespace Boot

/-- Booting touches the first three slots only. -/
theorem start_pcb (b : Boot) {p : ℕ} (hp : 3 ≤ p) : b.start.sched.pcb p = b.pcb p := by
  have h1 := Scheduler.addProcess_pcb (s := b.shellOnly.sched) (p := 1) (q := p) (by omega)
    b.collectorEntry 0
  have h2 := Scheduler.addProcess_pcb (s := b.shellOnly.sched.addProcess 1 b.collectorEntry 0)
    (p := 2) (q := p) (by omega) b.idleEntry 0
  have h0 : b.shellOnly.sched.pcb p = b.pcb p := by
    show Function.update b.pcb 0 _ p = _
    rw [Function.update_of_ne (by omega)]
  rw [start_eq]
  exact h2.trans (h1.trans h0)

/-- The first process the shell creates gets slot 3. -/
theorem start_create (b : Boot) (entryPoint arg : QWORD) :
    ∃ k, b.start.createProcess entryPoint arg = (some 3, k) := by
  have hpid : b.start.pidCountIdx = 3 := by rw [start_eq]; rfl
  have hfree : b.start.allocProcessTable (b.start.pidCountIdx % processMaxCount) = false := by
    rw [hpid, ← Bool.not_eq_true, b.start_alloc]
    decide
  rw [Kernel.createProcess_free hfree, hpid]
  exact ⟨_, rfl⟩

/-- Zero memory except that RAX in slot 3 holds 1. -/
def staleSlot : Boot :=
  let stale : PCB := ⟨0, 0, .ready, 0, Function.update (fun _ => 0) regRAX 1⟩
  { zero with pcb := Function.update zero.pcb 3 stale }

theorem start_createProcess_context (b : Boot) {k : Kernel}
    (hcreated : b.start.createProcess 0 0 = (some 3, k)) :
    (k.sched.pcb 3).context regRAX = (b.pcb 3).context regRAX := by
  rw [(b.start_valid.createProcess_context 0 0 hcreated).2,
    newContext_other (by decide) (by decide), b.start_pcb (Nat.le_refl 3)]

end Boot

namespace Kernel

theorem context_fresh_iff_start :
    ((Boot.zero.start.createProcess 0 0).2.sched.pcb 3).context = freshContext 3 0 0 := by
  obtain ⟨k', hcreated⟩ := Boot.zero.start_create 0 0
  rw [hcreated]
  apply ((context_fresh_iff ⟨Boot.zero, [], .start⟩ 0 0).1 3 k' hcreated).mpr
  rw [Boot.zero.start_pcb (Nat.le_refl 3)]
  exact ⟨fun _ _ => rfl, by decide⟩

/-- Two boots that differ in RAX of a free slot: the new process differs in RAX. -/
theorem context_inherited : ∃ k k', Boot.staleSlot.start.createProcess 0 0 = (some 3, k) ∧
    Boot.zero.start.createProcess 0 0 = (some 3, k') ∧
      (k.sched.pcb 3).context regRAX = 1 ∧ (k'.sched.pcb 3).context regRAX = 0 := by
  obtain ⟨k, hk⟩ := Boot.staleSlot.start_create 0 0
  obtain ⟨k', hk'⟩ := Boot.zero.start_create 0 0
  refine ⟨k, k', hk, hk', ?_, ?_⟩
  · rw [Boot.staleSlot.start_createProcess_context hk]
    simp [Boot.staleSlot]
  · rw [Boot.zero.start_createProcess_context hk']
    rfl

end Kernel
end SkhuOS
