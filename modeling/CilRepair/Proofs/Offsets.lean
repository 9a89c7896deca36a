import CilRepair.Proofs.Erasure

/-!
# Offsets and displacements

The offset of an instruction is the sum of the sizes before it.  It is stated here without any
stored offset, because the stored ones are out of date as soon as a branch is narrowed.

* `MethodBody.startAt`, `MethodBody.codeSize` — the sums of sizes.
* `MethodBody.displacement` — the distance from the end of one place to the start of another.
* `MethodBody.Shrinks.displacement_mem` — smaller instructions bring everything closer together, so
  that a displacement that fits a signed byte keeps fitting.
* `MethodBody.LaidOut` — the stored offsets are those sums; `laidOut_updateOffsets` says that an
  update establishes it, for code whose size fits in 32 bits.

## Design notes

Offsets are natural numbers here and displacements integers, although the body stores offsets in 32
bits.  A sum that wraps would make later code start before earlier code, and none of the comparisons
between two bodies would hold.  The two only meet in `laidOut_updateOffsets`, which therefore is the
one place with a bound on the size of the code.

Bodies are compared place by place.  `Shrinks` asks for nothing but sizes, so it serves a change of
widths as well as any other change that leaves the sequence alone.
-/

namespace CilRepair

namespace MethodBody

variable {b c : MethodBody} {p q : Nat} {i : Instruction}

/-! ### Sums of sizes -/

/-- The size of the instruction at a place, and zero behind the end. -/
def sizeAt (b : MethodBody) (p : Nat) : Nat :=
  match b.at? p with
  | some i => i.size
  | none => 0

/-- **The sum of the sizes before a place.** -/
def startAt (b : MethodBody) : Nat → Nat
  | 0 => 0
  | p + 1 => b.startAt p + b.sizeAt p

/-- The size of the code. -/
def codeSize (b : MethodBody) : Nat := b.startAt b.length

theorem sizeAt_of_at? (h : b.at? p = some i) : b.sizeAt p = i.size := by
  rw [sizeAt, h]

@[simp] theorem startAt_zero (b : MethodBody) : b.startAt 0 = 0 := rfl

theorem startAt_succ (b : MethodBody) (p : Nat) :
    b.startAt (p + 1) = b.startAt p + b.sizeAt p := rfl

theorem startAt_mono (b : MethodBody) : Monotone b.startAt :=
  monotone_nat_of_le_succ fun p => Nat.le_add_right _ (b.sizeAt p)

/-- Sizes alone decide where code starts, so bodies with the same sizes have the same offsets. -/
theorem startAt_congr (h : ∀ p, c.sizeAt p = b.sizeAt p) : c.startAt = b.startAt := by
  funext p
  induction p with
  | zero => rfl
  | succ p ih => rw [startAt_succ, startAt_succ, ih, h]

/-! ### Displacements -/

/-- **The displacement from one place to another,** counted from the end of the first. -/
def displacement (b : MethodBody) (p q : Nat) : Int :=
  (b.startAt q : Int) - (b.startAt (p + 1) : Int)

/-- No instruction of the second body is larger than that of the first at the same place. -/
def Shrinks (b c : MethodBody) : Prop := ∀ p, c.sizeAt p ≤ b.sizeAt p

/-- Between two places the smaller body has the smaller distance.  It is stated without subtraction:
as a sum of the end of one body and the start of the other. -/
theorem Shrinks.distance_le (h : Shrinks b c) (hpq : p ≤ q) :
    c.startAt q + b.startAt p ≤ b.startAt q + c.startAt p := by
  induction q, hpq using Nat.le_induction with
  | base => omega
  | succ q _ ih =>
      have hsize := h q
      rw [startAt_succ, startAt_succ]
      omega

theorem Shrinks.startAt_le (h : Shrinks b c) (p : Nat) : c.startAt p ≤ b.startAt p := by
  simpa using h.distance_le (Nat.zero_le p)

/-- **Smaller instructions shorten displacements.**  None changes its sign, since places keep their
order, and none grows in magnitude; so one that fits a signed byte keeps fitting. -/
theorem Shrinks.displacement_mem (h : Shrinks b c) {low high : Int} (hlow : low ≤ 0)
    (hhigh : 0 ≤ high) (hfits : b.displacement p q ∈ Set.Icc low high) :
    c.displacement p q ∈ Set.Icc low high := by
  obtain ⟨hle, hge⟩ := Set.mem_Icc.mp hfits
  unfold displacement at hle hge
  rw [Set.mem_Icc, displacement]
  -- In both bodies a forward displacement is not negative and a backward one not positive, so that
  -- only the bound on its own side is at stake.
  rcases Nat.lt_or_ge p q with hforward | hbackward
  · have hdistance := h.distance_le (show p + 1 ≤ q from hforward)
    have horder := c.startAt_mono (show p + 1 ≤ q from hforward)
    omega
  · have hdistance := h.distance_le (show q ≤ p + 1 by omega)
    have horder := c.startAt_mono (show q ≤ p + 1 by omega)
    omega

/-! ### Stored offsets -/

/-- **The stored offsets are up to date.** -/
def LaidOut (b : MethodBody) : Prop := ∀ p i, b.at? p = some i → i.offset.toNat = b.startAt p

/-- An update arrives at a place with the sum of the sizes before it.  That is its state, by
induction on the places, because the offset that it writes does not count for the size. -/
theorem passState_placeAt (hb : b.ArenaValid) (hp : p ≤ b.length) :
    b.passState placeAt 0 p = b.startAt p := by
  induction p with
  | zero => simp
  | succ p ih =>
      obtain ⟨i, hi⟩ := hb.exists_at? (show p < b.length by omega)
      rw [passState_succ _ _ hi, ih (by omega), startAt_succ, sizeAt_of_at? hi]
      rfl

/-- An update stores the sums of sizes and changes nothing else.  They are stored modulo 2 to the
32. -/
theorem at?_updateOffsets (hb : b.ArenaValid) (p : Nat) :
    b.updateOffsets.at? p =
      (b.at? p).map fun i => { i with offset := UInt32.ofNat (b.startAt p) } := by
  refine (at?_sweep_eq_map placeAt 0 hb p).trans ?_
  by_cases hp : p ≤ b.length
  · rw [passState_placeAt hb hp]
    rfl
  · cases hi : b.at? p with
    | none => rfl
    | some i => exact absurd (at?_lt hi).le hp

/-- An update does not change sizes. -/
theorem sizeAt_updateOffsets (hb : b.ArenaValid) (p : Nat) :
    b.updateOffsets.sizeAt p = b.sizeAt p := by
  rw [sizeAt, sizeAt, at?_updateOffsets hb]
  cases b.at? p <;> rfl

/-- Hence code starts where it started, by the sizes. -/
theorem startAt_updateOffsets (hb : b.ArenaValid) : b.updateOffsets.startAt = b.startAt :=
  startAt_congr (sizeAt_updateOffsets hb)

/-- **An update lays the body out,** if no offset exceeds 32 bits. -/
theorem laidOut_updateOffsets (hb : b.ArenaValid) (hsize : b.codeSize < UInt32.size) :
    b.updateOffsets.LaidOut := by
  intro p j hj
  rw [at?_updateOffsets hb, Option.map_eq_some_iff] at hj
  obtain ⟨i, hi, rfl⟩ := hj
  have hstart : b.startAt p ≤ b.codeSize := b.startAt_mono (at?_lt hi).le
  rw [startAt_updateOffsets hb]
  exact UInt32.toNat_ofNat_of_lt' (by omega)

end MethodBody

end CilRepair
