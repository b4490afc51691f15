/-
Which instructions have machine words of their own.

The operand fields of `Instruction` hold more values than a machine word
has bits for. `Encodable` says for each family which values fit: register
classes, constant ranges, and the two accesses that have another
spelling, since Y and Z without a step are a displacement of zero.
-/
import AvrFirmware.Instruction

namespace AvrFirmware

namespace Instruction

/-- The operands fit into the bits that the machine words have for them. -/
def Encodable : Instruction → Prop
  | movw d r => d.toNat % 2 = 0 ∧ r.toNat % 2 = 0
  | muls d r => 16 ≤ d.toNat ∧ 16 ≤ r.toNat
  | multiply _ d r =>
      (16 ≤ d.toNat ∧ d.toNat ≤ 23) ∧ 16 ≤ r.toNat ∧ r.toNat ≤ 23
  | immediate _ d _ => 16 ≤ d.toNat
  | pair _ d k => (24 ≤ d.toNat ∧ d.toNat % 2 = 0) ∧ k.toNat ≤ 63
  | ld _ ptr step => ptr = .x ∨ step ≠ .plain
  | st ptr step _ => ptr = .x ∨ step ≠ .plain
  | ldd _ ptr q => ptr ≠ .x ∧ q.toNat ≤ 63
  | std ptr q _ => ptr ≠ .x ∧ q.toNat ≤ 63
  | input _ a => a.toNat ≤ 63
  | output a _ => a.toNat ≤ 63
  | flag _ s => s.toNat ≤ 7
  | registerBit _ _ b => b.toNat ≤ 7
  | ioBit _ a b => a.toNat ≤ 31 ∧ b.toNat ≤ 7
  | branch _ s k => s.toNat ≤ 7 ∧ -64 ≤ k.toInt ∧ k.toInt ≤ 63
  | relative _ k => -2048 ≤ k.toInt ∧ k.toInt ≤ 2047
  | absolute _ k => k.toNat < 0x400000
  | des k => k.toNat ≤ 15
  | _ => True

instance (i : Instruction) : Decidable i.Encodable := by
  cases i <;> unfold Encodable <;> infer_instance

end Instruction

end AvrFirmware
