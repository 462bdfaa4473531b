import Mathlib.Data.Int.Notation
import Mathlib.Logic.Basic
import SkhuOS.Common.Type

/-! The two interrupt controllers and their driver `kernel/drivers/PIC.c`. The slave
sits on line 2 of the master. -/
namespace SkhuOS

def masterPort1 : WORD := 0x20
def masterPort2 : WORD := 0x21
def slavePort1 : WORD := 0xA0
def slavePort2 : WORD := 0xA1
def irqStartOffset : ℕ := 0x20
def irqMaxCount : ℕ := 0x08
def icw1Default : BYTE := 0x10
def icw1Ic4 : BYTE := 0x01
def icw3MasterS2 : BYTE := 0x04
def icw3SlaveId1 : BYTE := 0x02
def icw4Upm : BYTE := 0x01
def ocw2Eoi : BYTE := 0x20
def irqSlavePic : ℕ := 2

/-- The initialisation words that follow ICW1 on the second port. -/
inductive InitWord where
  | icw2
  | icw3
  | icw4
  deriving DecidableEq

/-- One controller, with a bit for each of its lines. -/
structure Pic where
  inService : BYTE
  mask : BYTE
  offset : BYTE
  autoEoi : Bool
  expected : List InitWord

namespace Pic

variable (pic : Pic) (line : ℕ)

/-- Line 0 has the highest priority, so that is the lowest bit that is set. -/
def clearHighest : Pic := { pic with inService := pic.inService &&& (pic.inService - 1) }

/-- ICW1 resets the controller; of the operation words only the non-specific end of
interrupt is used here. -/
def writePort1 (data : BYTE) : Pic :=
  if data &&& 0x10 ≠ 0 then
    { pic with
      inService := 0
      mask := 0
      autoEoi := false
      expected := [.icw2, .icw3] ++ if data &&& 0x01 ≠ 0 then [.icw4] else [] }
  else if data = ocw2Eoi then pic.clearHighest
  else pic

def writePort2 (data : BYTE) : Pic :=
  match pic.expected with
  | [] => { pic with mask := data }
  | .icw2 :: rest => { pic with offset := data, expected := rest }
  | .icw3 :: rest => { pic with expected := rest }
  | .icw4 :: rest => { pic with autoEoi := data &&& 0x02 ≠ 0, expected := rest }

/-- The line is not masked, and neither it nor a line before it is in service. -/
def Offers : Prop :=
  pic.mask &&& (1 <<< line) = 0 ∧ pic.inService &&& ((2 <<< line) - 1) = 0

instance : Decidable (pic.Offers line) := inferInstanceAs (Decidable (_ ∧ _))

def Serves : Prop := pic.inService &&& (1 <<< line) ≠ 0

instance : Decidable (pic.Serves line) := inferInstanceAs (Decidable (_ ≠ _))

/-- The processor takes the interrupt. -/
def acknowledge : Pic :=
  if pic.autoEoi then pic else { pic with inService := pic.inService ||| (1 <<< line) }

/-- Behind the initialisation words the second port holds the mask. -/
theorem writePort2_mask {pic : Pic} (h : pic.expected = []) (data : BYTE) :
    pic.writePort2 data = { pic with mask := data } := by
  obtain ⟨_, _, _, _, expected⟩ := pic
  obtain rfl : expected = [] := h
  rfl

end Pic

def initial : ℕ := 0x00
def icwSet : ℕ := 0x01

/-- The controllers with the state the driver keeps. -/
structure PicDriver where
  master : Pic
  slave : Pic
  state : ℕ

namespace PicDriver

variable (d : PicDriver)

def setPort (port : WORD) (data : BYTE) : PicDriver :=
  if port = masterPort1 then { d with master := d.master.writePort1 data }
  else if port = masterPort2 then { d with master := d.master.writePort2 data }
  else if port = slavePort1 then { d with slave := d.slave.writePort1 data }
  else if port = slavePort2 then { d with slave := d.slave.writePort2 data }
  else d

def initializePIC : PicDriver :=
  let d := d.setPort masterPort1 (icw1Default ||| icw1Ic4)
  let d := d.setPort masterPort2 (BitVec.ofNat 8 irqStartOffset)
  let d := d.setPort masterPort2 icw3MasterS2
  let d := d.setPort masterPort2 icw4Upm
  let d := d.setPort slavePort1 (icw1Default ||| icw1Ic4)
  let d := d.setPort slavePort2 (BitVec.ofNat 8 (irqStartOffset + irqMaxCount))
  let d := d.setPort slavePort2 icw3SlaveId1
  let d := d.setPort slavePort2 icw4Upm
  { d with state := icwSet }

def setIMR (mask : WORD) : ℤ × PicDriver :=
  if d.state ≠ icwSet then (-1, d)
  else
    let d := d.setPort masterPort2 ((mask &&& 0xFF).setWidth 8)
    let d := d.setPort slavePort2 (((mask &&& 0xFF00) >>> 8).setWidth 8)
    (0, d)

def sendEOI (pin : ℤ) : ℤ × PicDriver :=
  if d.state ≠ icwSet then (-1, d)
  else
    let d := d.setPort masterPort1 ocw2Eoi
    let d := if pin ≥ 8 then d.setPort slavePort1 ocw2Eoi else d
    (0, d)

/-- The line of the master an interrupt comes through: those of the slave come through
line 2. -/
def masterLine (line : ℕ) : ℕ := if line < 8 then line else irqSlavePic

def Offers (line : ℕ) : Prop :=
  line < 16 ∧ d.master.Offers (masterLine line) ∧ (8 ≤ line → d.slave.Offers (line - 8))

instance (line : ℕ) : Decidable (d.Offers line) :=
  inferInstanceAs (Decidable (_ ∧ _ ∧ (_ → _)))

def acknowledge (line : ℕ) : PicDriver :=
  { d with
    master := d.master.acknowledge (masterLine line)
    slave := if 8 ≤ line then d.slave.acknowledge (line - 8) else d.slave }

/-- The line is in service in one of the controllers it goes through. -/
def Serves (line : ℕ) : Prop :=
  d.master.Serves (masterLine line) ∨ 8 ≤ line ∧ d.slave.Serves (line - 8)

instance (line : ℕ) : Decidable (d.Serves line) := inferInstanceAs (Decidable (_ ∨ _ ∧ _))

/-- Initialised, without automatic end of interrupt. -/
structure Ready : Prop where
  state : d.state = icwSet
  masterExpected : d.master.expected = []
  slaveExpected : d.slave.expected = []
  masterEoi : d.master.autoEoi = false
  slaveEoi : d.slave.autoEoi = false

/-- No line of either controller is in service. -/
def Idle : Prop := d.master.inService = 0 ∧ d.slave.inService = 0

theorem masterLine_lt (line : ℕ) : masterLine line < 8 := by
  unfold masterLine
  split
  · assumption
  · decide

/-- The initialisation leaves nothing in service, and `setIMR 0` no line masked. -/
theorem initializePIC_ready : d.initializePIC.Ready ∧ d.initializePIC.Idle :=
  ⟨⟨rfl, rfl, rfl, rfl, rfl⟩, rfl, rfl⟩

theorem Ready.setIMR {d : PicDriver} (h : d.Ready) (mask : WORD) :
    d.setIMR mask = (0, { d with
      master := { d.master with mask := (mask &&& 0xFF).setWidth 8 }
      slave := { d.slave with mask := ((mask &&& 0xFF00) >>> 8).setWidth 8 } }) := by
  rw [PicDriver.setIMR, if_neg (not_not.mpr h.state)]
  refine congrArg (Prod.mk 0) ?_
  rw [← Pic.writePort2_mask h.masterExpected, ← Pic.writePort2_mask h.slaveExpected]
  rfl

/-- An end of interrupt goes to the master, and for its lines to the slave as well. -/
theorem Ready.sendEOI {d : PicDriver} (h : d.Ready) (pin : ℤ) :
    d.sendEOI pin = (0, { d with
      master := d.master.clearHighest
      slave := if pin ≥ 8 then d.slave.clearHighest else d.slave }) := by
  rw [PicDriver.sendEOI, if_neg (not_not.mpr h.state)]
  refine congrArg (Prod.mk 0) ?_
  split <;> rfl

end PicDriver

namespace Pic

theorem clear_acknowledged : ∀ (inService : BYTE), ∀ line < 8,
    inService &&& ((2 <<< line) - 1) = 0 →
      (inService ||| (1 <<< line)) &&& ((inService ||| (1 <<< line)) - 1) = inService ∧
      inService &&& (1 <<< line) = 0 ∧ (inService ||| (1 <<< line)) &&& (1 <<< line) ≠ 0 := by
  decide +kernel

variable {pic : Pic} {line : ℕ}

/-- The line that was taken last is the first in service, so an end of interrupt ends it. -/
theorem clearHighest_acknowledge (heoi : pic.autoEoi = false) (hline : line < 8)
    (h : pic.Offers line) :
    (pic.acknowledge line).clearHighest = pic ∧ ¬ pic.Serves line ∧
      (pic.acknowledge line).Serves line := by
  obtain ⟨hclear, hout, hin⟩ := clear_acknowledged pic.inService line hline h.2
  have hack : pic.acknowledge line = { pic with inService := pic.inService ||| (1 <<< line) } := by
    rw [acknowledge, heoi]
    rfl
  rw [hack]
  exact ⟨congrArg (fun inService => { pic with inService }) hclear, not_not.mpr hout, hin⟩

end Pic

namespace PicDriver

variable {d : PicDriver} {line : ℕ}

theorem Ready.acknowledge (h : d.Ready) (line : ℕ) : (d.acknowledge line).Ready := by
  have hpic (pic : Pic) (pin : ℕ) : (pic.acknowledge pin).expected = pic.expected ∧
      (pic.acknowledge pin).autoEoi = pic.autoEoi := by
    unfold Pic.acknowledge
    split <;> exact ⟨rfl, rfl⟩
  have hslave : (d.acknowledge line).slave.expected = d.slave.expected ∧
      (d.acknowledge line).slave.autoEoi = d.slave.autoEoi := by
    simp only [PicDriver.acknowledge]
    split
    · exact hpic d.slave (line - 8)
    · exact ⟨rfl, rfl⟩
  exact ⟨h.state, (hpic _ _).1.trans h.masterExpected, hslave.1.trans h.slaveExpected,
    (hpic _ _).2.trans h.masterEoi, hslave.2.trans h.slaveEoi⟩

/-- Taking an interrupt and ending it again leaves the controllers as they were. -/
theorem Ready.eoi_acknowledge (h : d.Ready) (hoffers : d.Offers line) :
    ((d.acknowledge line).sendEOI line).2 = d ∧ ¬ d.Serves line ∧
      (d.acknowledge line).Serves line := by
  obtain ⟨hline, hmaster, hslave⟩ := hoffers
  obtain ⟨hclear, hout, hin⟩ :=
    Pic.clearHighest_acknowledge h.masterEoi (masterLine_lt line) hmaster
  rw [(h.acknowledge line).sendEOI]
  by_cases hge : 8 ≤ line
  · obtain ⟨hclear', hout', -⟩ :=
      Pic.clearHighest_acknowledge h.slaveEoi (by omega) (hslave hge)
    refine ⟨?_, not_or.mpr ⟨hout, fun hs => hout' hs.2⟩, .inl hin⟩
    have hpin : (line : ℤ) ≥ 8 := by omega
    simp only [PicDriver.acknowledge, if_pos hge, if_pos hpin, hclear, hclear']
  · refine ⟨?_, not_or.mpr ⟨hout, fun hs => hge hs.1⟩, .inl hin⟩
    have hpin : ¬ (line : ℤ) ≥ 8 := by omega
    simp only [PicDriver.acknowledge, if_neg hge, if_neg hpin, hclear]

end PicDriver
end SkhuOS
