import Mathlib.Data.Set.Lattice
import Mathlib.Order.CompletePartialOrder
import SkhuOS.Proc.Exit

/-! Slots of the process table. A process holds its slot, and with it the PCB and the kernel
stack of that number, from its creation until the collector reclaims it. -/
namespace SkhuOS
open Foundation

/-- The addresses of the PCB and of the kernel stack of slot `p`. -/
def pcbRegion (p : ℕ) : Set ℕ :=
  Set.Ico (pcbPoolAddress + pcbSize * p) (pcbPoolAddress + pcbSize * p + pcbSize)

def stackRegion (p : ℕ) : Set ℕ :=
  Set.Ico (processStackBase + processStackInterval * p)
    (processStackBase + processStackInterval * p + processStackSize)

theorem regions_disjoint {p q : ℕ} (h : p ≠ q) :
    Disjoint (pcbRegion p) (pcbRegion q) ∧ Disjoint (stackRegion p) (stackRegion q) := by
  constructor <;> refine Set.disjoint_left.mpr fun x hp hq => ?_
  · simp only [pcbRegion, pcbSize, Set.mem_Ico] at hp hq
    omega
  · simp only [stackRegion, processStackInterval, processStackSize, Set.mem_Ico] at hp hq
    omega

/-- A free slot is found within one round of the table, wherever the search starts. -/
theorem findSlot_complete (table : ℕ → Bool) {fuel idx n : ℕ}
    (hfree : table ((idx + n) % processMaxCount) = false) (hn : n ≤ fuel) :
    (findSlot table fuel idx).1 = true := by
  induction fuel generalizing idx n with
  | zero =>
    obtain rfl : n = 0 := Nat.le_zero.mp hn
    rw [Nat.add_zero] at hfree
    simp [findSlot, hfree]
  | succ fuel ih =>
    rw [findSlot]
    split
    next hused =>
      cases n with
      | zero =>
        rw [Nat.add_zero, hused] at hfree
        cases hfree
      | succ n =>
        refine ih (n := n) ?_ (by omega)
        rw [Nat.mod_add_mod, Nat.add_assoc, Nat.add_comm 1]
        exact hfree
    · rfl

namespace Kernel

variable {k k' : Kernel} {a : Action} {p : ℕ} {history : List (Move Kernel Action)}

/-- `createProcess` returns as long as a slot is free. -/
theorem createProcess_returns (k : Kernel)
    (hfree : ∃ p < processMaxCount, k.allocProcessTable p = false) (entryPoint arg : QWORD) :
    ∃ p, (k.createProcess entryPoint arg).1 = some p := by
  obtain ⟨p, hp, hfree⟩ := hfree
  have hslot : (k.pidCountIdx + (p + processMaxCount - k.pidCountIdx % processMaxCount) %
      processMaxCount) % processMaxCount = p := by
    simp only [processMaxCount] at hp ⊢
    omega
  have hfound : (findSlot k.allocProcessTable processMaxCount k.pidCountIdx).1 = true :=
    findSlot_complete k.allocProcessTable (hslot.symm ▸ hfree) (Nat.mod_lt _ (by decide)).le
  refine ⟨(findSlot k.allocProcessTable processMaxCount k.pidCountIdx).2, ?_⟩
  simp only [createProcess]
  exact congrArg Prod.fst (if_pos hfound)

/-- The process an action creates. -/
def created (k : Kernel) : Action → Option ℕ
  | .call (.createProcess entryPoint arg) _ => (k.createProcess entryPoint arg).1
  | .call (.createUserProcess entryPoint arg) _ => (k.createUserProcess entryPoint arg).1
  | .call (.runUserProgram image size arg) _ => (k.runUserProgram image size arg).1.join
  | _ => none

/-- What a creation does to the slots: a free one is marked and gets its stack. -/
def Fills (k : Kernel) (result : Option ℕ) (k' : Kernel) : Prop :=
  match result with
  | some p => p < processMaxCount ∧ k.allocProcessTable p = false ∧
    k'.allocProcessTable = Function.update k.allocProcessTable p true ∧
    (k'.sched.pcb p).stackAddress = BitVec.ofNat 64 (processStackBase + processStackInterval * p) ∧
    (k'.sched.pcb p).stackSize = BitVec.ofNat 64 processStackSize
  | none => k'.allocProcessTable = k.allocProcessTable

theorem createAt_stack (k : Kernel) (p : ℕ) (entryPoint arg : QWORD) :
    ((k.createAt p entryPoint arg).sched.pcb p).stackAddress =
        BitVec.ofNat 64 (processStackBase + processStackInterval * p) ∧
      ((k.createAt p entryPoint arg).sched.pcb p).stackSize = BitVec.ofNat 64 processStackSize := by
  simp [createAt, Scheduler.addProcess, Scheduler.setUpProcess, Scheduler.setState,
    Scheduler.modifyPcb, Scheduler.insertList]

theorem Valid.createProcess_fills (h : k.Valid) (entryPoint arg : QWORD) :
    k.Fills (k.createProcess entryPoint arg).1 (k.createProcess entryPoint arg).2 := by
  rcases h.createProcess_cases entryPoint arg with ⟨p, hfree, hlt, heq⟩ | ⟨p, heq⟩
  · rw [heq]
    exact ⟨hlt, hfree, rfl, (k.setIf false).2.createAt_stack p entryPoint arg⟩
  · rw [heq]
    exact rfl

theorem Valid.createUserProcess_fills (h : k.Valid) (entryPoint arg : QWORD) :
    k.Fills (k.createUserProcess entryPoint arg).1 (k.createUserProcess entryPoint arg).2 := by
  have hfills := (h.setIf false).createProcess_fills entryPoint arg
  simp only [Kernel.createUserProcess]
  split
  next k₁ heq =>
    rw [heq] at hfills
    exact hfills
  next p k₁ heq =>
    rw [heq] at hfills
    obtain ⟨hlt, hfree, halloc, haddress, hsize⟩ := hfills
    refine ⟨hlt, hfree, halloc, ?_, ?_⟩
    · simpa [Kernel.setIf, Scheduler.setIf, Scheduler.modifyPcb] using haddress
    · simpa [Kernel.setIf, Scheduler.setIf, Scheduler.modifyPcb] using hsize

theorem Valid.runUserProgram_fills (h : k.Valid) (image : Bytes) (size : ℕ) (arg : QWORD) :
    k.Fills (k.runUserProgram image size arg).1.join (k.runUserProgram image size arg).2 := by
  simp only [Kernel.runUserProgram]
  split
  · exact rfl
  · have hfills := ((h.setIf false).copyImage image size).createUserProcess_fills
      (BitVec.ofNat 64 userCodeAddress) arg
    split
    next k₁ heq =>
      rw [heq] at hfills
      exact hfills
    next p k₁ heq =>
      rw [heq] at hfills
      exact hfills

theorem Fills.orForever {α : Type} {result : Option ℕ} {call : Option α × Kernel}
    (h : k.Fills result call.2) (hsome : result.isSome → call.1.isSome) :
    k.Fills result (Kernel.orForever call) := by
  obtain ⟨value, k'⟩ := call
  cases value with
  | some _ => exact h
  | none =>
    cases result with
    | none => exact h
    | some p => exact nomatch hsome rfl

theorem Valid.runCall_fills (h : k.Valid) {c : Call} (hc : c.Creates) (regs : ProcessContext) :
    k.Fills (k.created (.call c regs)) (k.runCall c regs) := by
  cases c with
  | createProcess entryPoint arg => exact (h.createProcess_fills entryPoint arg).orForever id
  | createUserProcess entryPoint arg =>
    exact (h.createUserProcess_fills entryPoint arg).orForever id
  | runUserProgram image size arg =>
    have hjoin (result : Option (Option ℕ)) : result.join.isSome → result.isSome := by
      cases result <;> simp
    exact (h.runUserProgram_fills image size arg).orForever (hjoin _)
  | _ => exact hc.elim

/-- What a step does to the slots: it fills a free one, the collector frees one, or all stay. -/
theorem Valid.slot_step (h : k.Valid) (hstep : k.step a = some k') :
    k.Fills (k.created a) k' ∧ k.reclaims a = none ∨
      k.created a = none ∧ ∃ p, k.reclaims a = some p ∧
        k'.allocProcessTable = Function.update k.allocProcessTable p false := by
  have hcollect {j : Kernel} (hj : j.Valid) (hqueue : j.exitQueue = k.exitQueue)
      (halloc : j.allocProcessTable = k.allocProcessTable) {preIf : Bool} {regs : ProcessContext}
      (hturn : k.collects a = true) (hnone : k.created a = none)
      (hk' : k' = j.collectLoop preIf regs) : k.Fills (k.created a) k' ∧ k.reclaims a = none ∨
        k.created a = none ∧ ∃ p, k.reclaims a = some p ∧
          k'.allocProcessTable = Function.update k.allocProcessTable p false := by
    rw [hk', reclaims, if_pos hturn, hnone, ← hqueue, ← halloc]
    rcases hj.collectLoop_effect preIf regs with ⟨hnil, -, hsame, -⟩ | ⟨hcons, hupdate, -⟩
    · exact .inl ⟨hsame.trans halloc, by rw [hnil]; rfl⟩
    · exact .inr ⟨rfl, j.frontPid, by rw [hcons]; rfl, hupdate⟩
  have huntracked (ha : ¬ k.Tracked a) : k.created a = none := by
    cases a with
    | call c regs => cases c <;> first | rfl | exact absurd trivial ha
    | _ => rfl
  cases h.step_kind hstep with
  | still ha hstill =>
    rw [huntracked ha]
    exact .inl ⟨hstill.1.alloc, (untracked_exits ha).2⟩
  | create hmay hc => exact .inl ⟨h.runCall_fills hc _, rfl⟩
  | @acquireLock m regs hmay => exact .inl ⟨(h.acquireLock_calm hmay regs).alloc, rfl⟩
  | releaseLock hmay => exact .inl ⟨(h.releaseLock_calm hmay).alloc, rfl⟩
  | exitProcess hmay => exact .inl ⟨rfl, rfl⟩
  | collect hcol hcode => exact hcollect (h.setIf false) rfl rfl rfl rfl rfl
  | recollect hat => exact hcollect h rfl rfl (by simp [collects, hat]) rfl rfl

/-- The slots held after one move more: a new process takes one, the collector gives one
back. -/
def holdersAfter (holders : List ℕ) (move : Move Kernel Action) : List ℕ :=
  match move.before.created move.label, move.before.reclaims move.label with
  | some p, _ => holders ++ [p]
  | none, some p => holders.erase p
  | none, none => holders

/-- The slots held after a history; `initScheduler` has filled those of the shell, the
collector and the idle process. -/
def holders (history : List (Move Kernel Action)) : List ℕ :=
  history.foldl holdersAfter [0, 1, 2]

theorem holders_snoc (move : Move Kernel Action) :
    holders (history ++ [move]) = holdersAfter (holders history) move := by
  simp [holders, List.foldl_append]

/-- Nobody shares a slot, and the table says which are held. -/
structure SlotsHeld (history : List (Move Kernel Action)) (k : Kernel) : Prop where
  nodup : (holders history).Nodup
  allocated : ∀ p, p ∈ holders history ↔ k.allocProcessTable p = true

theorem SlotsHeld.step (h : SlotsHeld history k) (hvalid : k.Valid)
    (hstep : k.step a = some k') : SlotsHeld (history ++ [⟨k, a, k'⟩]) k' := by
  have hmem := h.allocated
  rcases hvalid.slot_step hstep with ⟨hfills, hnone⟩ | ⟨hnone, p, hreclaim, halloc⟩
  · cases hcreated : k.created a with
    | none =>
      rw [hcreated] at hfills
      have hsame : k'.allocProcessTable = k.allocProcessTable := hfills
      have hheld : holders (history ++ [⟨k, a, k'⟩]) = holders history := by
        rw [holders_snoc, holdersAfter, hcreated, hnone]
      exact ⟨hheld ▸ h.nodup, fun q => by rw [hheld, hsame]; exact hmem q⟩
    | some p =>
      rw [hcreated] at hfills
      obtain ⟨-, hfree, halloc, -⟩ := hfills
      have hout : p ∉ holders history := fun hp => by
        rw [(hmem p).mp hp] at hfree
        exact nomatch hfree
      have hheld : holders (history ++ [⟨k, a, k'⟩]) = holders history ++ [p] := by
        rw [holders_snoc, holdersAfter, hcreated]
      refine ⟨?_, fun q => ?_⟩
      · rw [hheld]
        exact List.nodup_append.mpr ⟨h.nodup, List.nodup_singleton p, fun q hq r hr => by
          rw [List.mem_singleton.mp hr]
          exact ne_of_mem_of_not_mem hq hout⟩
      · rw [hheld, halloc, List.mem_append, List.mem_singleton, hmem, Function.update_apply]
        split
        next hqp => simp [hqp]
        next hqp => simp [hqp]
  · have hheld : holders (history ++ [⟨k, a, k'⟩]) = (holders history).erase p := by
      rw [holders_snoc, holdersAfter, hnone, hreclaim]
    refine ⟨hheld ▸ h.nodup.erase p, fun q => ?_⟩
    rw [hheld, halloc, h.nodup.mem_erase_iff, hmem, Function.update_apply]
    split
    next hqp => simp [hqp]
    next hqp => simp [hqp]

/-- Creation takes a free slot of the table and marks it, held slots have regions of their
own, and `createProcess` returns while a slot is free. -/
structure SlotsExclusive (history : List (Move Kernel Action)) (k : Kernel) : Prop where
  created : ∀ m ∈ history, ∀ p, m.before.created m.label = some p →
    p < processMaxCount ∧ m.before.allocProcessTable p = false ∧
      m.after.allocProcessTable p = true ∧
      (m.after.sched.pcb p).stackAddress =
        BitVec.ofNat 64 (processStackBase + processStackInterval * p) ∧
      (m.after.sched.pcb p).stackSize = BitVec.ofNat 64 processStackSize
  allocated : ∀ p, p ∈ holders history ↔ k.allocProcessTable p = true
  apart : (holders history).Pairwise fun p q => p ≠ q ∧
    Disjoint (pcbRegion p) (pcbRegion q) ∧ Disjoint (stackRegion p) (stackRegion q)
  returns : (∃ p < processMaxCount, k.allocProcessTable p = false) →
    ∀ entryPoint arg, ∃ p, (k.createProcess entryPoint arg).1 = some p

theorem slots_exclusive {b : Boot} (hrun : KernelRun anyStep b history k) :
    SlotsExclusive history k := by
  obtain ⟨-, hheld, hmoves⟩ := hrun.history_invariant
    (P := fun past t => t.Valid ∧ SlotsHeld past t ∧
      ∀ m ∈ past, m.before.Fills (m.before.created m.label) m.after ∨
        m.before.created m.label = none)
    ⟨b.start_valid, ⟨by decide, fun p => by rw [b.start_alloc]; simp [holders]⟩, by simp⟩
    fun past t a u _ ⟨hvalid, hheld, hmoves⟩ _ hstep =>
      ⟨hvalid.step hstep, hheld.step hvalid hstep, fun m hm => by
        rcases List.mem_append.mp hm with hm | hm
        · exact hmoves m hm
        · rw [List.mem_singleton.mp hm]
          exact (hvalid.slot_step hstep).imp And.left And.left⟩
  refine ⟨fun m hm p hp => ?_, hheld.allocated, ?_, fun hfree entryPoint arg =>
    k.createProcess_returns hfree entryPoint arg⟩
  · rcases hmoves m hm with hfills | hnone
    · rw [hp] at hfills
      obtain ⟨hlt, hfree, halloc, hstack⟩ := hfills
      exact ⟨hlt, hfree, by rw [halloc, Function.update_self], hstack⟩
    · exact nomatch hnone.symm.trans hp
  · exact hheld.nodup.imp fun hne => ⟨hne, regions_disjoint hne⟩

theorem slots_exclusive_lifeCycle :
    SlotsExclusive (trace step Boot.zero.start lifeCycle) (reached step Boot.zero.start lifeCycle) :=
  slots_exclusive (run_trace (by decide +kernel) fun _ _ => trivial)

end Kernel
end SkhuOS
