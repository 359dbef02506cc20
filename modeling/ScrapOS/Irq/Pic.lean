import ScrapOS.Irq.Devices

/-! `pic.c`: the remapping of the two interrupt controllers, the end of an interrupt, and the
mask of one line. -/

set_option autoImplicit false

namespace ScrapOS.Irq

open Pic8259

def pic1Cmd : Port := 0x20

def pic1Data : Port := 0x21

def pic2Cmd : Port := 0xA0

def pic2Data : Port := 0xA1

def icw1Init : Byte := 0x10

def icw1Icw4 : Byte := 0x01

def icw4_8086 : Byte := 0x01

def picEoi : Byte := 0x20

def picRemap (devices : Devices) : Devices :=
  let devices := (devices.outb pic1Cmd (icw1Init ||| icw1Icw4)).ioWait
  let devices := (devices.outb pic2Cmd (icw1Init ||| icw1Icw4)).ioWait
  let devices := (devices.outb pic1Data 0x20).ioWait
  let devices := (devices.outb pic2Data 0x28).ioWait
  let devices := (devices.outb pic1Data 0x04).ioWait
  let devices := (devices.outb pic2Data 0x02).ioWait
  let devices := (devices.outb pic1Data icw4_8086).ioWait
  let devices := (devices.outb pic2Data icw4_8086).ioWait
  (devices.outb pic1Data 0xFF).outb pic2Data 0xFF

def picSendEoi (irq : Byte) (devices : Devices) : Devices :=
  (if irq ≥ 8 then devices.outb pic2Cmd picEoi else devices).outb pic1Cmd picEoi

/-- The port and the line on its chip are the two variables that the branches set. -/
def picUnmaskIrq (irq : Byte) (devices : Devices) : Devices :=
  let port := if irq < 8 then pic1Data else pic2Data
  let irq := if irq < 8 then irq else irq - 8
  let mask := (devices.inb port).1 &&& ~~~((1#32 <<< irq.toNat).setWidth 8)
  (devices.inb port).2.outb port mask

/-! ## What they do to the controllers -/

/-- The vectors of the master and of the slave after `pic_remap`. -/
def masterBase : Register := 0x20

def slaveBase : Register := 0x28

theorem vectorOf_toNat {line : Nat} (inside : line < 16) :
    (Pair.vectorOf masterBase slaveBase line).toNat = 32 + line := by
  interval_cases line <;> rfl

section Remap

/-- A chip that is ready, with every line masked and nothing requested. -/
def remapped (base wiring : Register) : Chip :=
  { stage := .ready, single := false, fourth := true, vectorBase := base, wiring := wiring
    mode := 1, mask := 0xFF, requests := 0, inService := 0 }

variable (devices : Devices)

theorem picRemap_eq : picRemap devices =
    { devices with
      pics :=
        { master := remapped masterBase (bit Pair.cascade)
          slave := remapped slaveBase (BitVec.ofNat 8 Pair.cascade) } } := rfl

theorem picRemap_cascaded : (picRemap devices).pics.Cascaded masterBase slaveBase := by
  rw [picRemap_eq]
  exact ⟨⟨rfl, rfl, rfl, rfl⟩, ⟨rfl, rfl, rfl, rfl⟩⟩

theorem picRemap_quiet : (picRemap devices).pics.Quiet := by
  rw [picRemap_eq]
  exact ⟨rfl, rfl⟩

theorem picRemap_masked {line : Nat} (inside : line < 16) :
    (picRemap devices).pics.masked line = true := by
  rw [picRemap_eq]
  unfold Pair.masked
  split
  · next small => exact isSet_full small
  · next large => exact isSet_full (by omega)

theorem picRemap_requested (line : Nat) : (picRemap devices).pics.requested line = false := by
  rw [picRemap_eq]
  unfold Pair.requested
  split <;> exact isSet_zero

end Remap

section Eoi

variable (devices : Devices)

theorem picSendEoi_eq (irq : Byte) : picSendEoi irq devices =
    { devices with pics := devices.pics.ended irq.toNat } := by
  unfold picSendEoi
  by_cases slave : 8 ≤ irq.toNat
  · have slave' : irq ≥ 8 := slave
    simp only [slave', if_true, Pair.ended, slave]
    rfl
  · have master : ¬ irq ≥ 8 := slave
    simp only [master, if_false, Pair.ended, slave]
    rfl

end Eoi

section Unmask

variable {devices : Devices} {irq : Byte}

theorem shifted_bit {line : Nat} (small : line < 8) : (1#32 <<< line).setWidth 8 = bit line := by
  interval_cases line <;> rfl

/-- The two words of a cascaded pair stay, and the mask changes in one bit. -/
theorem picUnmaskIrq_eq (cascaded : devices.pics.Cascaded masterBase slaveBase)
    (inside : irq.toNat < 16) : picUnmaskIrq irq devices =
      { devices with
        pics :=
          if irq.toNat < 8 then
            { devices.pics with
              master :=
                { devices.pics.master with mask := devices.pics.master.mask &&& ~~~bit irq.toNat } }
          else
            { devices.pics with
              slave :=
                { devices.pics.slave with
                  mask := devices.pics.slave.mask &&& ~~~bit (irq.toNat - 8) } } } := by
  unfold picUnmaskIrq
  by_cases master : irq.toNat < 8
  · have master' : irq < 8 := master
    simp only [master', if_true, master, shifted_bit master, Devices.inb, Devices.outb, pic1Data,
      BitVec.reduceEq, if_false, Chip.writeData_ready cascaded.master.ready]
  · have slave' : ¬ irq < 8 := master
    have line : (irq - 8).toNat = irq.toNat - 8 := by
      rw [BitVec.toNat_sub_of_le (Nat.not_lt.mp master)]
      rfl
    have small : irq.toNat - 8 < 8 := by omega
    simp only [slave', if_true, master, line, shifted_bit small, Devices.inb, Devices.outb,
      pic2Data, BitVec.reduceEq, if_false, Chip.writeData_ready cascaded.slave.ready]

theorem picUnmaskIrq_cascaded (cascaded : devices.pics.Cascaded masterBase slaveBase)
    (inside : irq.toNat < 16) :
    (picUnmaskIrq irq devices).pics.Cascaded masterBase slaveBase := by
  obtain ⟨⟨ready, base, wired, mode⟩, ⟨ready', base', wired', mode'⟩⟩ := cascaded
  rw [picUnmaskIrq_eq ⟨⟨ready, base, wired, mode⟩, ⟨ready', base', wired', mode'⟩⟩ inside]
  dsimp only
  split <;> exact ⟨⟨ready, base, wired, mode⟩, ⟨ready', base', wired', mode'⟩⟩

theorem picUnmaskIrq_quiet (cascaded : devices.pics.Cascaded masterBase slaveBase)
    (inside : irq.toNat < 16) (quiet : devices.pics.Quiet) :
    (picUnmaskIrq irq devices).pics.Quiet := by
  rw [picUnmaskIrq_eq cascaded inside]
  dsimp only
  split <;> exact ⟨quiet.master, quiet.slave⟩

theorem picUnmaskIrq_keyboard (cascaded : devices.pics.Cascaded masterBase slaveBase)
    (inside : irq.toNat < 16) : (picUnmaskIrq irq devices).keyboard = devices.keyboard := by
  rw [picUnmaskIrq_eq cascaded inside]

theorem picUnmaskIrq_requested (cascaded : devices.pics.Cascaded masterBase slaveBase)
    (inside : irq.toNat < 16) :
    (picUnmaskIrq irq devices).pics.requested = devices.pics.requested := by
  rw [picUnmaskIrq_eq cascaded inside]
  dsimp only
  split <;> rfl

/-- One line of one chip is let through, and no other. -/
theorem picUnmaskIrq_masked (cascaded : devices.pics.Cascaded masterBase slaveBase)
    (inside : irq.toNat < 16) (line : Nat) : (picUnmaskIrq irq devices).pics.masked line =
      (devices.pics.masked line && decide (line ≠ irq.toNat)) := by
  rw [picUnmaskIrq_eq cascaded inside]
  unfold Pair.masked
  by_cases master : irq.toNat < 8
  · by_cases own : line < 8
    · simp [master, own, isSet_bit master]
    · have apart : line ≠ irq.toNat := by omega
      simp [master, own, apart]
  · by_cases own : line < 8
    · have apart : line ≠ irq.toNat := by omega
      simp [master, own, apart]
    · have small : irq.toNat - 8 < 8 := by omega
      have shifted : line - 8 = irq.toNat - 8 ↔ line = irq.toNat := by omega
      simp [master, own, isSet_bit small, shifted]

end Unmask

end ScrapOS.Irq
