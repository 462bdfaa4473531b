import SkhuOS.Arch.Descriptor
import SkhuOS.Proc.Cpu
import SkhuOS.Proc.FreshContext
import SkhuOS.Proc.Slots

/-! The stack a system call enters on. A switch takes TSS.rsp[0] from the PCB of the process it
chooses, and a created process has the stack of its slot there. -/
namespace SkhuOS
open Foundation

/-- The end of the kernel stack of slot `p`. -/
def stackTop (p : ℕ) : ℕ := processStackBase + processStackInterval * p + processStackSize

/-- The interrupt stack, the PCB pool and the memory of user processes. -/
def istRegion : Set ℕ := Set.Ico istStartAddress (istStartAddress + istSize)

def pcbPool : Set ℕ := Set.Ico pcbPoolAddress (pcbPoolAddress + pcbSize * processMaxCount)

def userRegion : Set ℕ := Set.Ico userMemoryBase userMemoryEnd

theorem stackRegion_apart {p : ℕ} (hp : p < processMaxCount) :
    Disjoint (stackRegion p) istRegion ∧ Disjoint (stackRegion p) pcbPool ∧
      Disjoint (stackRegion p) userRegion := by
  have hcount : processMaxCount = 1024 := rfl
  refine ⟨?_, ?_, ?_⟩
  all_goals
    apply Set.disjoint_left.mpr
    intro x hx hx'
    simp only [stackRegion, istRegion, pcbPool, userRegion, processStackBase, processStackInterval,
      processStackSize, istStartAddress, istSize, pcbPoolAddress, pcbSize, userMemoryBase,
      userMemoryEnd, Set.mem_Ico] at hx hx'
    omega

theorem stackTop_toNat {p : ℕ} (hp : p < processMaxCount) :
    (BitVec.ofNat 64 (processStackBase + processStackInterval * p) +
      BitVec.ofNat 64 processStackSize).toNat = stackTop p := by
  have hcount : processMaxCount = 1024 := rfl
  rw [← BitVec.ofNat_add, BitVec.toNat_ofNat, stackTop]
  apply Nat.mod_eq_of_lt
  simp only [processStackBase, processStackInterval, processStackSize]
  omega

namespace Kernel

variable {k k' : Kernel} {a : Action} {p : ℕ} {b : Boot} {history : List (Move Kernel Action)}

/-- Every process but the shell, which no call created, has the stack of its slot, and system
calls of the running one enter there. -/
structure StacksSet (k : Kernel) : Prop where
  placed : ∀ p ≠ 0, k.allocProcessTable p = true →
    (k.sched.pcb p).stackAddress = BitVec.ofNat 64 (processStackBase + processStackInterval * p) ∧
      (k.sched.pcb p).stackSize = BitVec.ofNat 64 processStackSize
  rsp0 : k.sched.runningProcess ≠ 0 → k.sched.rsp0 =
    (k.sched.pcb k.sched.runningProcess).stackAddress +
      (k.sched.pcb k.sched.runningProcess).stackSize

/-- A step leaves the stacks of the processes there are. -/
theorem CpuStep.stack_same (h : CpuStep k a k') (hp : k.allocProcessTable p = true) :
    (k'.sched.pcb p).stackAddress = (k.sched.pcb p).stackAddress ∧
      (k'.sched.pcb p).stackSize = (k.sched.pcb p).stackSize := by
  have hfields (hcpu : k'.sched.cpu.stackAddress = k.sched.cpu.stackAddress ∧
      k'.sched.cpu.stackSize = k.sched.cpu.stackSize) :
      (k'.sched.pcb p).stackAddress = (k.sched.pcb p).stackAddress ∧
        (k'.sched.pcb p).stackSize = (k.sched.pcb p).stackSize :=
    ⟨congrFun hcpu.1 p, congrFun hcpu.2 p⟩
  cases h with
  | stays interrupt point hcpu => exact hfields (by rw [hcpu]; exact ⟨rfl, rfl⟩)
  | creates q context hfree hcpu =>
    have hne : p ≠ q := by
      rintro rfl
      exact nomatch hp.symm.trans hfree
    have haddress := congrFun (congrArg Cpu.stackAddress hcpu) p
    have hsize := congrFun (congrArg Cpu.stackSize hcpu) p
    exact ⟨haddress.trans (Function.update_of_ne hne _ _),
      hsize.trans (Function.update_of_ne hne _ _)⟩
  | switches next point hcpu => exact hfields (by rw [hcpu]; exact ⟨rfl, rfl⟩)
  | interrupted hif hcpu => exact hfields (by rw [hcpu]; exact ⟨rfl, rfl⟩)
  | preempted next hif hcpu => exact hfields (by rw [hcpu]; exact ⟨rfl, rfl⟩)

/-- Whoever changes the running process changes TSS.rsp[0] with it. -/
theorem CpuStep.rsp0_step (h : CpuStep k a k') :
    (k'.sched.runningProcess = k.sched.runningProcess ∧ k'.sched.rsp0 = k.sched.rsp0) ∨
      k'.sched.rsp0 = (k'.sched.pcb k'.sched.runningProcess).stackAddress +
        (k'.sched.pcb k'.sched.runningProcess).stackSize := by
  have hchosen {next : ℕ} (hrun : k'.sched.cpu.running = next)
      (hrsp0 : k'.sched.cpu.rsp0 = k'.sched.cpu.stackAddress next + k'.sched.cpu.stackSize next) :
      k'.sched.rsp0 = (k'.sched.pcb k'.sched.runningProcess).stackAddress +
        (k'.sched.pcb k'.sched.runningProcess).stackSize := by
    have hrun' : k'.sched.runningProcess = next := hrun
    rw [hrun']
    exact hrsp0
  cases h with
  | stays interrupt point hcpu => exact .inl ⟨congrArg Cpu.running hcpu, congrArg Cpu.rsp0 hcpu⟩
  | creates q context hfree hcpu => exact .inl ⟨congrArg Cpu.running hcpu, congrArg Cpu.rsp0 hcpu⟩
  | interrupted hif hcpu => exact .inl ⟨congrArg Cpu.running hcpu, congrArg Cpu.rsp0 hcpu⟩
  | switches next point hcpu => exact .inr (hchosen (congrArg Cpu.running hcpu) (by rw [hcpu]; rfl))
  | preempted next hif hcpu =>
    exact .inr (hchosen (congrArg Cpu.running hcpu) (by rw [hcpu]; rfl))

theorem StacksSet.step (h : k.StacksSet) (hvalid : k.Valid) (hcpu : CpuStep k a k')
    (hstep : k.step a = some k') : k'.StacksSet := by
  have hrun' := (hvalid.step hstep).running_alloc
  constructor
  · intro p hp halloc
    cases hbefore : k.allocProcessTable p with
    | true =>
      obtain ⟨haddress, hsize⟩ := hcpu.stack_same hbefore
      rw [haddress, hsize]
      exact h.placed p hp hbefore
    | false =>
      -- the slot was free, so this step created the process
      rcases hvalid.slot_step hstep with ⟨hfills, -⟩ | ⟨-, q, -, hfreed⟩
      · cases hcreated : k.created a with
        | none =>
          rw [hcreated] at hfills
          have hsame : k'.allocProcessTable = k.allocProcessTable := hfills
          exact nomatch (hsame ▸ halloc).symm.trans hbefore
        | some q =>
          rw [hcreated] at hfills
          obtain ⟨-, -, hfilled, hstack⟩ := hfills
          obtain rfl : p = q := by
            by_contra hne
            rw [hfilled, Function.update_of_ne hne, hbefore] at halloc
            exact nomatch halloc
          exact hstack
      · rw [hfreed, Function.update_apply, hbefore] at halloc
        split at halloc <;> exact nomatch halloc
  · intro hne
    rcases hcpu.rsp0_step with ⟨hrun, hrsp0⟩ | hrsp0
    · rw [hrun] at hne ⊢
      obtain ⟨haddress, hsize⟩ := hcpu.stack_same hvalid.running_alloc
      rw [hrsp0, haddress, hsize]
      exact h.rsp0 hne
    · exact hrsp0

end Kernel

theorem Boot.start_stacksSet (b : Boot) : b.start.StacksSet := by
  have hrun : b.start.sched.runningProcess = 0 := congrArg Plan.running b.start_plan.2
  have hstack (p : ℕ) (hp : p = 1 ∨ p = 2) : (b.start.sched.pcb p).stackAddress =
      BitVec.ofNat 64 (processStackBase + processStackInterval * p) ∧
      (b.start.sched.pcb p).stackSize = BitVec.ofNat 64 processStackSize := by
    have htwo := Kernel.createAt_stack
      { b.shellOnly.createAt 1 b.collectorEntry 0 with collectorProcess := some 1 } 2 b.idleEntry 0
    have hone := b.shellOnly.createAt_stack 1 b.collectorEntry 0
    have hother := Scheduler.addProcess_pcb (s := (b.shellOnly.createAt 1 b.collectorEntry 0).sched)
      (show 1 ≠ 2 by decide) b.idleEntry 0
    rw [start_eq]
    rcases hp with rfl | rfl
    · rw [← hother] at hone
      exact hone
    · exact htwo
  constructor
  · intro p hp halloc
    rcases (b.start_alloc p).mp halloc with rfl | hp'
    · exact absurd rfl hp
    · exact hstack p hp'
  · intro hne
    exact absurd hrun hne

namespace Kernel

variable {k k' : Kernel} {b : Boot} {history : List (Move Kernel Action)}

/-- The processes made by `createProcess`: the two of `initScheduler` and those of calls. -/
def CreatedIn (history : List (Move Kernel Action)) (p : ℕ) : Prop :=
  p = 1 ∨ p = 2 ∨ ∃ m ∈ history, m.before.created m.label = some p

/-- The topmost `depth` bytes below TSS.rsp[0], where a system call from user mode keeps its
frames. -/
def entryFrame (k : Kernel) (depth : ℕ) : Set ℕ :=
  Set.Ico (k.sched.rsp0.toNat - depth) k.sched.rsp0.toNat

/-- System calls enter on the stack of their process: TSS.rsp[0] is its end, and the frames of
calls by different processes, which may be blocked at the same time, share no byte with each
other, the interrupt stack, the PCB pool and user memory. -/
structure OwnStacks (history : List (Move Kernel Action)) (k : Kernel) : Prop where
  rsp0 : CreatedIn history k.sched.runningProcess →
    k.sched.rsp0 = (k.sched.pcb k.sched.runningProcess).stackAddress +
        (k.sched.pcb k.sched.runningProcess).stackSize ∧
      k.sched.rsp0.toNat = stackTop k.sched.runningProcess
  disjoint : ∀ m ∈ history, ∀ m' ∈ history,
    CreatedIn history m.before.sched.runningProcess → CreatedIn history m'.before.sched.runningProcess →
    m.before.sched.runningProcess ≠ m'.before.sched.runningProcess →
    ∀ depth ≤ processStackSize, ∀ depth' ≤ processStackSize,
      Disjoint (m.before.entryFrame depth) (m'.before.entryFrame depth')
  apart : ∀ m ∈ history, CreatedIn history m.before.sched.runningProcess →
    ∀ depth ≤ processStackSize, Disjoint (m.before.entryFrame depth) istRegion ∧
      Disjoint (m.before.entryFrame depth) pcbPool ∧ Disjoint (m.before.entryFrame depth) userRegion

theorem StacksSet.rsp0_toNat (h : k.StacksSet) (hvalid : k.Valid) (hne : k.sched.runningProcess ≠ 0) :
    k.sched.rsp0.toNat = stackTop k.sched.runningProcess := by
  have halloc := hvalid.running_alloc
  obtain ⟨haddress, hsize⟩ := h.placed _ hne halloc
  rw [h.rsp0 hne, haddress, hsize]
  exact stackTop_toNat (hvalid.alloc_lt _ halloc)

theorem StacksSet.entryFrame_subset (h : k.StacksSet) (hvalid : k.Valid)
    (hne : k.sched.runningProcess ≠ 0) {depth : ℕ} (hdepth : depth ≤ processStackSize) :
    k.entryFrame depth ⊆ stackRegion k.sched.runningProcess := by
  intro x hx
  rw [entryFrame, h.rsp0_toNat hvalid hne, stackTop, Set.mem_Ico] at hx
  rw [stackRegion, Set.mem_Ico]
  omega

/-- The invariants before every move and at the end of a run. -/
theorem stacks_run (hrun : KernelRun anyStep b history k) :
    (∀ m ∈ history, m.before.Valid ∧ m.before.StacksSet) ∧ k.Valid ∧ k.StacksSet := by
  obtain ⟨hbefore, hvalid, -, hstacks⟩ := hrun.invariant_moves
    (P := fun t => t.Valid ∧ t.FlagsOff ∧ t.StacksSet)
    ⟨b.start_valid, b.start_flagsOff, b.start_stacksSet⟩
    fun t a u ⟨hvalid, hflags, hstacks⟩ _ hstep => by
      have hcpu := hvalid.cpuStep hflags.running hstep
      exact ⟨hvalid.step hstep, hflags.step hcpu, hstacks.step hvalid hcpu hstep⟩
  exact ⟨fun m hm => ⟨(hbefore m hm).1, (hbefore m hm).2.2⟩, hvalid, hstacks⟩

/-- No process is made in the slot of the shell. -/
theorem createdIn_ne_zero (hrun : KernelRun anyStep b history k) {p : ℕ} (hp : CreatedIn history p) :
    p ≠ 0 := by
  rcases hp with rfl | rfl | ⟨m, hm, hcreated⟩
  · decide
  · decide
  · rintro rfl
    obtain ⟨hvalid, -⟩ := (stacks_run hrun).1 m hm
    rcases hvalid.slot_step (hrun.move_mem hm).2 with ⟨hfills, -⟩ | ⟨hnone, -⟩
    · rw [hcreated] at hfills
      exact nomatch hvalid.shell.1.1.symm.trans hfills.2.1
    · exact nomatch hcreated.symm.trans hnone

theorem own_stacks (hrun : KernelRun anyStep b history k) : OwnStacks history k := by
  obtain ⟨hbefore, hvalid, hstacks⟩ := stacks_run hrun
  constructor
  · intro hcreated
    have hne := createdIn_ne_zero hrun hcreated
    exact ⟨hstacks.rsp0 hne, hstacks.rsp0_toNat hvalid hne⟩
  · intro m hm m' hm' hcreated hcreated' hne depth hdepth depth' hdepth'
    obtain ⟨hv, hs⟩ := hbefore m hm
    obtain ⟨hv', hs'⟩ := hbefore m' hm'
    exact (regions_disjoint hne).2.mono
      (hs.entryFrame_subset hv (createdIn_ne_zero hrun hcreated) hdepth)
      (hs'.entryFrame_subset hv' (createdIn_ne_zero hrun hcreated') hdepth')
  · intro m hm hcreated depth hdepth
    obtain ⟨hv, hs⟩ := hbefore m hm
    have hsub := hs.entryFrame_subset hv (createdIn_ne_zero hrun hcreated) hdepth
    obtain ⟨hist, hpool, huser⟩ := stackRegion_apart (hv.alloc_lt _ hv.running_alloc)
    exact ⟨hist.mono_left hsub, hpool.mono_left hsub, huser.mono_left hsub⟩

/-- The shell sleeps, and the collector runs on its own stack. -/
theorem own_stacks_asleep : (Boot.zero.start.sleepProcess 0 fun _ => 0).sched.runningProcess = 1 ∧
    (Boot.zero.start.sleepProcess 0 fun _ => 0).sched.rsp0.toNat = 0x2005000 := by
  have hmay : Boot.zero.start.MayCall (.sleepProcess 0) := by decide +kernel
  have hstep : Boot.zero.start.step (.call (.sleepProcess 0) fun _ => 0) =
      some (Boot.zero.start.sleepProcess 0 fun _ => 0) := by
    simp only [Kernel.step]
    exact if_pos hmay
  have hrun : (Boot.zero.start.sleepProcess 0 fun _ => 0).sched.runningProcess = 1 := by
    decide +kernel
  have hown := own_stacks (.next .start trivial hstep)
  refine ⟨hrun, (hown.rsp0 (.inl hrun)).2.trans ?_⟩
  rw [hrun]
  rfl

end Kernel
end SkhuOS
