import CilRepair.Proofs.FloatWriting
import CilRepair.Proofs.ImageReading

/-!
# Saving and loading again

A module that was read can be written, and what is written is read again, unless it holds a 32-bit
constant that is not finite.  Reading makes such constants: a number that 64 bits hold and 32 bits
do not becomes infinite, and an infinite number has no decimal.

* `Module.SinglesFinite` — no slot of a body holds such a constant.
* `isSome_reread_of_decodeInstruction` — nothing else of what was read is lost.
* `Image.reloads_iff` — when the bytes of an image are read again.

## Design notes

The condition is exact, so it has to be shown that nothing else can go wrong.  There are three ways
in which reading again could fail.  The document could be too deep; it is not, because what was read
was within a reader's room.  A body could be invalid; it is not, because a reader refuses those.
And a constant could be lost; of those that were read only a 32-bit one can be, since a double is
refused if it is not finite.

The stack sizes that a writer may compute have no part in any of the three.
-/

namespace CilRepair

/-- **No slot of a body holds a 32-bit constant that is not finite,** live or not. -/
def Module.SinglesFinite (m : Module) : Prop :=
  ∀ b ∈ m.bodies, ∀ i ∈ b.arena, ∀ x, i.operand = .immediate (.float32 x) →
    x.magnitude < BinaryFormat.single.infinity

/-- A 64-bit constant is finite if it was read. -/
theorem finite_of_decodeInstruction {room : ℕ} {value : Json} {i : Instruction} {x : Binary64}
    (h : decodeInstruction room value = some i) (hi : i.operand = .immediate (.float64 x)) :
    x.magnitude < BinaryFormat.double.infinity := by
  obtain ⟨_, -, hoperand⟩ := decodeInstruction_eq_some h
  obtain ⟨_, hoperand⟩ := hoperand.resolve_left (by simp [hi])
  obtain ⟨_, -, himmediate, -⟩ := (decodeOperand_eq_some hoperand).resolve_left (by simp [hi])
  obtain ⟨_, himmediate⟩ := himmediate _ hi
  obtain ⟨_, -, hnumber⟩ := decodeImmediate_eq_some himmediate
  obtain ⟨n, hn⟩ := hnumber x rfl
  exact JsonNumber.binary64?_finite hn

/-- **An instruction that was read comes back** unless its constant became infinite.  A whole number
always does, and a double was finite when it was read. -/
theorem isSome_reread_of_decodeInstruction {room : ℕ} {value : Json} {i : Instruction}
    (h : decodeInstruction room value = some i) :
    i.reread.isSome = true ↔
      ∀ x, i.operand = .immediate (.float32 x) → x.magnitude < BinaryFormat.single.infinity := by
  rw [Instruction.reread, Option.isSome_map]
  cases hoperand : i.operand with
  | immediate constant =>
      cases constant with
      | float32 x =>
          rw [Operand.reread, Option.isSome_map, Immediate.reread, Option.isSome_map,
            Json.isSome_binary32]
          constructor
          · rintro hfinite y heq
            obtain rfl := Immediate.float32.inj (Operand.immediate.inj heq)
            exact hfinite
          · exact fun hfinite => hfinite x rfl
      | float64 x =>
          rw [Operand.reread, Option.isSome_map, Immediate.reread, Option.isSome_map,
            Json.isSome_binary64]
          exact iff_of_true (finite_of_decodeInstruction h hoperand) (by simp)
      | _ => simp [Operand.reread, Immediate.reread]
  | _ => simp [Operand.reread]

namespace Image

variable {bytes : Bytes} {m : Module}

/-- Nothing else of a module that was read is lost. -/
theorem isSome_reread_of_parse (h : parse bytes = .ok m) :
    m.reread.isSome = true ↔ m.SinglesFinite := by
  rw [Module.isSome_reread, Module.SinglesFinite]
  refine forall₂_congr fun b hb => forall₂_congr fun i hi => ?_
  obtain ⟨_, _, hdecode⟩ := exists_instruction_of_parse h b hb i hi
  exact isSome_reread_of_decodeInstruction hdecode

/-- Computed stack sizes change no constant. -/
theorem isSome_reread_withComputedStacks (m : Module) :
    (withComputedStacks m).reread.isSome = m.reread.isSome := by
  rw [Bool.eq_iff_iff, Module.isSome_reread, Module.isSome_reread, bodies_withComputedStacks]
  simp only [List.forall_mem_map]

/-- A valid module that fits a reader's room is read again if its constants are, and only then.
Constants are all that can be lost on the way. -/
theorem reloads_iff_reread (options : WriterOptions) (hvalid : m.ArenasValid)
    (hdepth : (document m).depth ≤ documentRoom) :
    (∃ reloaded, parse (utf8 (encode options m)) = .ok reloaded) ↔ m.reread.isSome = true := by
  obtain ⟨hvalid, hdepth, hreread⟩ : (prepared options m).ArenasValid ∧
      (document (prepared options m)).depth ≤ documentRoom ∧
      (prepared options m).reread.isSome = m.reread.isSome := by
    rw [prepared]
    split
    · exact ⟨hvalid, hdepth, rfl⟩
    · exact ⟨arenasValid_withComputedStacks hvalid, (depth_withComputedStacks m).trans_le hdepth,
        isSome_reread_withComputedStacks m⟩
  rw [parse_encode options m hdepth, ← hreread]
  cases hreloaded : (prepared options m).reread with
  | none => simp
  | some reloaded =>
      dsimp only
      rw [fault?_eq_none_iff.mpr (Module.arenasValid_of_reread hreloaded hvalid)]
      exact iff_of_true ⟨reloaded, rfl⟩ rfl

/-- **When the bytes of an image are read again.**  A module was read from arbitrary bytes: from
records of either shape, with missing fields, with numbers at the edge of their range.  Whatever the
options, it is written as bytes that are read again if none of its 32-bit constants is infinite, and
only then. -/
theorem reloads_iff (h : parse bytes = .ok m) (options : WriterOptions) :
    (∃ reloaded, parse (utf8 (encode options m)) = .ok reloaded) ↔ m.SinglesFinite := by
  rw [reloads_iff_reread options (arenasValid_of_parse h) (depth_of_parse h),
    isSome_reread_of_parse h]

/-- A body that pushes two constants, the second one the greatest number of 64 bits,
`1.7976931348623157e308`.  An instruction is written as an array, and fields are missing. -/
def constantBody (single : JsonNumber) : Json :=
  let double : JsonNumber :=
    ⟨false, 1, [7, 9, 7, 6, 9, 3, 1, 3, 4, 8, 6, 2, 3, 1, 5, 7], some 308⟩
  let arena : List Json :=
    [.array [.text "ldc.r4", .choice "Immediate" (.choice "Float32" (.number single))],
      .fields [("opcode", .text "ldc.r8"),
        ("operand", .choice "Immediate" (.choice "Float64" (.number double)))],
      .fields [("opcode", .text "ret")]]
  .fields [("arena", .array arena), ("order", .array [.nat 0, .nat 1, .nat 2])]

/-- A document with one method. -/
def constantDocument (single : JsonNumber) : Json :=
  let method : Json :=
    .fields [("token", .nat 2), ("name", .text "f"), ("body", constantBody single)]
  let type : Json :=
    .fields [("token", .nat 1), ("name", .text "T"), ("methods", .array [method])]
  .fields [("format", .text imageMarker), ("version", .nat imageVersion),
    ("module", .fields [("name", .text "sample"), ("types", .array [type])])]

/-- The module of this document. -/
def constantModule (single : Binary32) : Module :=
  { Module.new "sample" with
    types :=
      [{ TypeDef.new ⟨1⟩ "" "T" with
          methods :=
            [{ MethodDef.new ⟨2⟩ "f" with
                body := some { MethodBody.empty with
                  arena :=
                    [⟨.ldcR4, .immediate (.float32 single), 0⟩,
                      ⟨.ldcR8, .immediate (.float64 ⟨0x7FEFFFFFFFFFFFFF⟩), 0⟩,
                      ⟨.ret, .absent, 0⟩]
                  order := [⟨0⟩, ⟨1⟩, ⟨2⟩] } }] }] }

/-- The greatest number of 32 bits, `3.4028235e38`, comes through. -/
theorem greatestConstant_reloaded :
    parse (utf8 (constantDocument ⟨false, 3, [4, 0, 2, 8, 2, 3, 5], some 38⟩).compact) =
        .ok (constantModule ⟨0x7F7FFFFF⟩) ∧
      ∃ reloaded, parse (utf8 (encode ⟨false, true⟩ (constantModule ⟨0x7F7FFFFF⟩))) =
        .ok reloaded := by
  have hparse : parse (utf8
      (constantDocument ⟨false, 3, [4, 0, 2, 8, 2, 3, 5], some 38⟩).compact) =
        .ok (constantModule ⟨0x7F7FFFFF⟩) := by
    rw [parse, Json.ofBytes?_compact, Option.bind_some]
    decide +kernel
  exact ⟨hparse, (reloads_iff hparse ⟨false, true⟩).mpr
    ((isSome_reread_of_parse hparse).mp (by decide +kernel))⟩

/-- **A number that only 64 bits hold is read as a 32-bit constant and never again:** of `1e39` an
infinite number becomes, of that a `null`, and `null` is no number. -/
theorem infiniteConstant_not_reloaded :
    parse (utf8 (constantDocument ⟨false, 1, [], some 39⟩).compact) =
        .ok (constantModule ⟨0x7F800000⟩) ∧
      ∀ options, parse (utf8 (encode options (constantModule ⟨0x7F800000⟩))) =
        .error .invalidDocument := by
  constructor
  · rw [parse, Json.ofBytes?_compact, Option.bind_some]
    decide +kernel
  · rintro ⟨keepMaxStack, pretty⟩
    have hdepth : ∀ keepMaxStack pretty, (document (prepared ⟨keepMaxStack, pretty⟩
        (constantModule ⟨0x7F800000⟩))).depth ≤ documentRoom := by decide +kernel
    have hreread : ∀ keepMaxStack pretty,
        (prepared ⟨keepMaxStack, pretty⟩ (constantModule ⟨0x7F800000⟩)).reread = none := by
      decide +kernel
    rw [parse_encode _ _ (hdepth keepMaxStack pretty), hreread]

end Image

end CilRepair
