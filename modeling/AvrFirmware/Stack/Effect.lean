/-
Where an instruction leads, and on what height.

`effect` is the one place that says how each kind of flow moves the walk:
the arrivals it leads to, and whether its destination is unknown or its
pop goes below the start of the stack. Heights are kept within thirty-two
bits.
-/
import AvrFirmware.Image
import AvrFirmware.Stack.Report

namespace AvrFirmware

namespace Stack

-- =============================================================== heights

/-- The greatest height. -/
def heightLimit : Int :=
  0x7FFFFFFF

/-- A height moved by some bytes, kept within its limits. -/
def shift (height delta : Int) : Int :=
  max (-heightLimit - 1) (min heightLimit (height + delta))

/-- Within the limits a shift is a sum. -/
theorem shift_eq_add {height delta : Int}
    (hlow : -heightLimit - 1 ≤ height + delta)
    (hhigh : height + delta ≤ heightLimit) :
    shift height delta = height + delta := by
  unfold shift
  omega

-- =============================================================== effects

/-- What an instruction does to the walk. -/
structure Effect where
  /-- The arrivals it leads to, in the order they are explored. -/
  successors : List (Nat × Int)
  /-- The destination is not known. -/
  isGap : Bool := false
  /-- The stack goes below its start. -/
  isUnderflow : Bool := false
  deriving DecidableEq, Repr

/-- The width of what a skip at `next` leaves out; past the end of the image
that is one word. -/
def skippedWidth (m : Image) (next : Nat) : Except Error Nat :=
  if m.isPastEnd next then .ok 1
  else
    match m.decodeAt next with
    | .ok i => .ok i.width
    | .error cause => .error (.malformed next cause)

/-- What the instruction at `pc` does to the walk. A call by offset goes on at
its destination only, and a call by address also behind itself. -/
def effect (m : Image) (returnAddressBytes pc : Nat) (i : Instruction)
    (height : Int) : Except Error Effect :=
  let next := pc + i.width
  match i.flow with
  | .branch offset =>
      match (Target.relative offset).resolve next with
      | some target => .ok { successors := [(target, height), (next, height)] }
      | none => .ok { successors := [(next, height)], isGap := true }
  | .skip =>
      match skippedWidth m next with
      | .ok width =>
          .ok { successors := [(next + width, height), (next, height)] }
      | .error e => .error e
  | .jump target =>
      match target.resolve next with
      | some pc => .ok { successors := [(pc, height)] }
      | none => .ok { successors := [], isGap := true }
  | .call target =>
      let called := shift height returnAddressBytes
      match target.resolve next with
      | none => .ok { successors := [], isGap := true }
      | some pc =>
          if target.isRelative then .ok { successors := [(pc, called)] }
          else .ok { successors := [(next, height), (pc, called)] }
  | .ret => .ok { successors := [] }
  | .interruptReturn => .error (.unsupported pc i)
  | .push => .ok { successors := [(next, shift height 1)] }
  | .pop =>
      let popped := shift height (-1)
      .ok
        { successors := [(next, popped)], isUnderflow := decide (popped < 0) }
  | .wideStore => .ok { successors := [(next, shift height 2)] }
  | .straight => .ok { successors := [(next, height)] }

/-- An instruction leads to two arrivals at most. -/
theorem length_successors_le {m : Image} {bytes pc : Nat} {i : Instruction}
    {height : Int} {e : Effect} (h : effect m bytes pc i height = .ok e) :
    e.successors.length ≤ 2 := by
  unfold effect at h
  dsimp only at h
  repeat' split at h
  all_goals
    cases h
    try simp only [List.length_cons, List.length_nil]
    try omega

end Stack

end AvrFirmware
