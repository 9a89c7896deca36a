import CilRepair.Classifier
import CilRepair.Proofs.Lists
import CilRepair.Proofs.Positions

/-!
# Which literals may be replaced

The answer, said by places and without the search that finds it, and how it depends on the three
limits.  A longer look ahead can only find more consumers that decide about control, a lower bound
excludes more magnitudes, and fewer branches make more methods complex; so whoever tightens the
limits loses candidates and gets no new ones.

* `MethodBody.IsConsumer`, `MethodBody.consumer?_eq_some_iff` — the instruction that takes a value.
* `MethodBody.DecidesWithin` — a value is used to decide about control, within a number of places.
* `Thresholds.Replaceable`, `Thresholds.isReplaceable_iff` — what the test of a literal means.
* `Thresholds.mem_constants_iff` — the candidates of a method are its replaceable literals.
* `Thresholds.Tighter` — limits that are at least as tight.
* `Thresholds.constants_of_tighter` — the main theorem.

## Design notes

The search goes down a list and the specification goes by places, so that monotony in the look ahead
is seen at once.  `consumer?_eq_some_iff` is the bridge between them.  It is proved by induction on
the look ahead, with the rest of the sequence and the place moving together.

A look ahead is used up by what is passed over as well.  So a longer one does not change a consumer
that was found; it only finds one where there was none.

Magnitudes are those of integers and not of 32-bit ones, where the smallest number would have a
negative one.
-/

namespace CilRepair

/-- The instruction is padding or throws a value away. -/
def Instruction.isPassedOver (i : Instruction) : Bool := i.opcode == .nop || i.opcode == .pop

namespace MethodBody

variable {b : MethodBody} {n p : Nat} {i j : Instruction}

/-! ### Consumers -/

/-- **The consumer of a value:** the first instruction from a place on that is not passed over, if
it is one of the next `n`. -/
def IsConsumer (b : MethodBody) (n p : Nat) (i : Instruction) : Prop :=
  ∃ q, p ≤ q ∧ q < p + n ∧ b.at? q = some i ∧ i.isPassedOver = false ∧
    ∀ r, p ≤ r → r < q → ∃ j, b.at? r = some j ∧ j.isPassedOver = true

theorem not_isConsumer_zero : ¬ b.IsConsumer 0 p i := by
  rintro ⟨q, hpq, hq, -⟩
  omega

/-- Where there is no instruction the search ends, however far it might go. -/
theorem not_isConsumer_of_none (hp : b.at? p = none) : ¬ b.IsConsumer n p i := by
  rintro ⟨q, hpq, -, hi, -, hbetween⟩
  rcases Nat.eq_or_lt_of_le hpq with rfl | hlt
  · simp [hp] at hi
  · obtain ⟨j, hj, -⟩ := hbetween p le_rfl hlt
    simp [hp] at hj

/-- What is not passed over is the consumer. -/
theorem isConsumer_succ_of_stays (hj : b.at? p = some j) (hstays : j.isPassedOver = false) :
    b.IsConsumer (n + 1) p i ↔ j = i := by
  constructor
  · rintro ⟨q, hpq, -, hi, -, hbetween⟩
    rcases Nat.eq_or_lt_of_le hpq with rfl | hlt
    · exact Option.some.inj (hj.symm.trans hi)
    · obtain ⟨k, hk, hpassed⟩ := hbetween p le_rfl hlt
      obtain rfl := Option.some.inj (hj.symm.trans hk)
      simp [hstays] at hpassed
  · rintro rfl
    exact ⟨p, le_rfl, by omega, hj, hstays, fun r _ _ => by omega⟩

/-- Behind what is passed over the search goes on, with one place less to look at. -/
theorem isConsumer_succ_of_passed (hj : b.at? p = some j) (hpassed : j.isPassedOver = true) :
    b.IsConsumer (n + 1) p i ↔ b.IsConsumer n (p + 1) i := by
  constructor
  · rintro ⟨q, hpq, hq, hi, hstays, hbetween⟩
    have hne : p ≠ q := by
      rintro rfl
      obtain rfl := Option.some.inj (hj.symm.trans hi)
      simp [hpassed] at hstays
    exact ⟨q, by omega, by omega, hi, hstays, fun r hpr hrq => hbetween r (by omega) hrq⟩
  · rintro ⟨q, hpq, hq, hi, hstays, hbetween⟩
    refine ⟨q, by omega, by omega, hi, hstays, fun r hpr hrq => ?_⟩
    rcases Nat.eq_or_lt_of_le hpr with rfl | hlt
    · exact ⟨j, hj, hpassed⟩
    · exact hbetween r hlt hrq

/-- **The search finds the consumer.**  By induction on the look ahead, with the three cases of a
place: nothing there, something to pass over, or the consumer. -/
theorem consumer?_eq_some_iff :
    Thresholds.consumer? b n (b.order.drop p) = some i ↔ b.IsConsumer n p i := by
  induction n generalizing p with
  | zero => simp [Thresholds.consumer?, not_isConsumer_zero]
  | succ n ih =>
      cases hid : b.idAt? p with
      | none =>
          have hdrop : b.order.drop p = [] := List.drop_eq_nil_of_le (idAt?_eq_none_iff.mp hid)
          have hp : b.at? p = none := by rw [at?, hid, Option.bind_none]
          simp [hdrop, Thresholds.consumer?, not_isConsumer_of_none hp]
      | some id =>
          obtain ⟨hlt, hget⟩ := List.getElem?_eq_some_iff.mp hid
          rw [List.drop_eq_getElem_cons hlt, hget, Thresholds.consumer?, ← at?_of_idAt? hid]
          cases hj : b.at? p with
          | none => simp [not_isConsumer_of_none hj]
          | some j =>
              change (if j.isPassedOver = true then _ else _) = some i ↔ _
              by_cases hpassed : j.isPassedOver = true
              · rw [if_pos hpassed, ih, isConsumer_succ_of_passed hj hpassed]
              · rw [if_neg hpassed, isConsumer_succ_of_stays hj (by simpa using hpassed),
                  Option.some.injEq]

/-- **The value at a place is used to decide about control,** by the first of the next `n`
instructions that is not passed over. -/
def DecidesWithin (b : MethodBody) (n p : Nat) : Prop :=
  ∃ i, b.IsConsumer n (p + 1) i ∧ Thresholds.decidesControl i = true

/-- Whoever looks further sees no less.  The consumer is the same one. -/
theorem DecidesWithin.mono {k : Nat} (hle : n ≤ k) (h : b.DecidesWithin n p) :
    b.DecidesWithin k p := by
  obtain ⟨i, ⟨q, hpq, hq, hi⟩, hdecides⟩ := h
  exact ⟨i, ⟨q, hpq, by omega, hi⟩, hdecides⟩

/-! ### The literals of a body -/

/-- The literals of a body with their places. -/
def literals (b : MethodBody) : List (Nat × InstrId × Int32) :=
  b.live.zipIdx.filterMap fun ((id, i), p) => i.literal?.map fun value => (p, id, value)

/-- Membership by place: the identity, the instruction in its slot, and the value that it pushes. -/
theorem mem_literals_iff (hb : b.ArenaValid) {id : InstrId} {value : Int32} :
    (p, id, value) ∈ b.literals ↔
      ∃ i, b.idAt? p = some id ∧ b.get? id = some i ∧ i.literal? = some value := by
  rw [literals, List.mem_filterMap]
  constructor
  · rintro ⟨⟨⟨other, i⟩, q⟩, hmem, hliteral⟩
    obtain ⟨value', hvalue, heq⟩ := Option.map_eq_some_iff.mp hliteral
    obtain ⟨rfl, rfl, rfl⟩ : q = p ∧ other = id ∧ value' = value := by simpa using heq
    obtain ⟨hid, hi⟩ := (getElem?_live_iff hb).mp (List.mk_mem_zipIdx_iff_getElem?.mp hmem)
    exact ⟨i, hid, hi, hvalue⟩
  · rintro ⟨i, hid, hi, hvalue⟩
    have hmem := List.mk_mem_zipIdx_iff_getElem?.mpr ((getElem?_live_iff hb).mpr ⟨hid, hi⟩)
    exact ⟨((id, i), p), hmem, by simp [hvalue]⟩

/-- No two literals have one identity, as no two places have. -/
theorem nodup_literals (hb : b.ArenaValid) : (b.literals.map fun x => x.2.1).Nodup := by
  have hlive : b.live.zipIdx.map (fun x => x.1.1) = b.order := by
    rw [← map_fst_live hb, ← List.zipIdx_map_fst 0 b.live, List.map_map]
    simp
  refine List.Nodup.sublist ?_ (hlive ▸ hb.nodup)
  refine map_filterMap_sublist (fun x y hy => ?_) b.live.zipIdx
  obtain ⟨value, -, rfl⟩ := Option.map_eq_some_iff.mp hy
  rfl

end MethodBody

namespace Thresholds

variable {limits strict : Thresholds} {body : MethodBody} {p : Nat} {value : Int32}
  {module : Module} {t : TypeDef} {m : MethodDef}

/-- **The test for uses in control** means that the value decides within the look ahead.  The search
starts at the place behind the literal. -/
theorem isInControlContext_iff (hp : p < body.length) :
    limits.isInControlContext body p = true ↔ body.DecidesWithin limits.lookahead p := by
  simp only [isInControlContext, hp, decide_true, Bool.true_and, Option.any_eq_true,
    MethodBody.consumer?_eq_some_iff, MethodBody.DecidesWithin]

/-! ### Literals -/

/-- **A literal may be replaced:** it is neither tiny nor huge, decides nothing about control, and
is not the index of an array element. -/
structure Replaceable (limits : Thresholds) (body : MethodBody) (p : Nat) (value : Int32) :
    Prop where
  not_tiny : 1 < value.toInt.natAbs
  not_huge : value.toInt.natAbs ≤ limits.magnitudeLimit
  not_deciding : ¬ body.DecidesWithin limits.lookahead p
  not_index : ∀ i, body.at? (p + 1) = some i → i.opcode.isElementAccess = false

/-- The test, clause by clause.  It is only ever made at places of the body. -/
theorem isReplaceable_iff (hp : p < body.length) :
    limits.isReplaceable body p value = true ↔ limits.Replaceable body p value := by
  have hcontrol : limits.isInControlContext body p = false ↔
      ¬ body.DecidesWithin limits.lookahead p := by
    rw [← Bool.not_eq_true, isInControlContext_iff hp]
  have hindex : (body.at? (p + 1)).any (·.opcode.isElementAccess) = false ↔
      ∀ i, body.at? (p + 1) = some i → i.opcode.isElementAccess = false := by
    cases body.at? (p + 1) <;> simp
  simp only [isReplaceable, hp, decide_true, Bool.true_and, Bool.and_eq_true, Bool.not_eq_true',
    decide_eq_true_eq, hcontrol, hindex]
  constructor
  · rintro ⟨⟨⟨htiny, hhuge⟩, hdeciding⟩, hindex⟩
    exact ⟨htiny, hhuge, hdeciding, hindex⟩
  · rintro ⟨htiny, hhuge, hdeciding, hindex⟩
    exact ⟨⟨⟨htiny, hhuge⟩, hdeciding⟩, hindex⟩

/-- No literal is replaceable behind the end, where the test fails. -/
theorem lt_of_isReplaceable (h : limits.isReplaceable body p value = true) : p < body.length := by
  simp only [isReplaceable, Bool.and_eq_true, decide_eq_true_eq] at h
  exact h.1.1.1.1

/-! ### Candidates -/

/-- **The candidates of a method** are its literals that pass the test.  The test needs the place of
a literal, and the result leaves it out. -/
theorem constants_eq (hbody : m.body = some body) :
    limits.constants module t m =
      if limits.isEligible module t m then
        (body.literals.filter fun x => limits.isReplaceable body x.1 x.2.2).map Prod.snd
      else [] := by
  rw [constants, hbody]
  dsimp only
  congr 1
  rw [MethodBody.literals, List.filter_filterMap, List.map_filterMap]
  refine List.filterMap_congr fun x _ => ?_
  rcases x with ⟨⟨id, i⟩, p⟩
  dsimp only
  cases i.literal? with
  | none => rfl
  | some value => cases h : limits.isReplaceable body p value <;> simp [h]

theorem constants_of_bodyless (hbody : m.body = none) : limits.constants module t m = [] := by
  rw [constants, hbody]

/-- **Membership among the candidates:** the method may be changed, and the pair is a replaceable
literal of its body. -/
theorem mem_constants_iff (hvalid : ∀ body, m.body = some body → body.ArenaValid) {id : InstrId} :
    (id, value) ∈ limits.constants module t m ↔
      limits.isEligible module t m = true ∧ ∃ body p i, m.body = some body ∧
        body.idAt? p = some id ∧ body.get? id = some i ∧ i.literal? = some value ∧
        limits.Replaceable body p value := by
  cases hbody : m.body with
  | none => simp [constants_of_bodyless hbody]
  | some body =>
      have hb := hvalid body hbody
      rw [constants_eq hbody]
      cases limits.isEligible module t m with
      | false => simp
      | true =>
          simp only [if_true, List.mem_map, List.mem_filter, true_and, Option.some.injEq]
          constructor
          · rintro ⟨⟨p, other, value'⟩, ⟨hmem, hreplaceable⟩, heq⟩
            obtain ⟨rfl, rfl⟩ : other = id ∧ value' = value := by simpa using heq
            obtain ⟨i, hid, hi, hvalue⟩ := (MethodBody.mem_literals_iff hb).mp hmem
            exact ⟨body, p, i, rfl, hid, hi, hvalue,
              (isReplaceable_iff (MethodBody.idAt?_lt hid)).mp hreplaceable⟩
          · rintro ⟨_, p, i, rfl, hid, hi, hvalue, hreplaceable⟩
            exact ⟨(p, id, value), ⟨(MethodBody.mem_literals_iff hb).mpr ⟨i, hid, hi, hvalue⟩,
              (isReplaceable_iff (MethodBody.idAt?_lt hid)).mpr hreplaceable⟩, rfl⟩

/-- No literal comes twice. -/
theorem nodup_constants (hvalid : ∀ body, m.body = some body → body.ArenaValid) :
    ((limits.constants module t m).map Prod.fst).Nodup := by
  cases hbody : m.body with
  | none => simp [constants_of_bodyless hbody]
  | some body =>
      rw [constants_eq hbody]
      split
      · rw [List.map_map]
        exact (MethodBody.nodup_literals (hvalid body hbody)).sublist (List.filter_sublist.map _)
      · exact List.nodup_nil

/-! ### Tighter limits -/

/-- **Limits that are at least as tight:** fewer branches, smaller literals, a longer look ahead. -/
structure Tighter (strict limits : Thresholds) : Prop where
  branchLimit : strict.branchLimit ≤ limits.branchLimit
  magnitudeLimit : strict.magnitudeLimit ≤ limits.magnitudeLimit
  lookahead : limits.lookahead ≤ strict.lookahead

namespace Tighter

variable (h : strict.Tighter limits)

include h

/-- What may be replaced under tighter limits may be replaced under looser ones, clause by
clause. -/
theorem replaceable (hreplaceable : strict.Replaceable body p value) :
    limits.Replaceable body p value where
  not_tiny := hreplaceable.not_tiny
  not_huge := hreplaceable.not_huge.trans h.magnitudeLimit
  not_deciding hdecides := hreplaceable.not_deciding (hdecides.mono h.lookahead)
  not_index := hreplaceable.not_index

/-- A method that is complex for the looser limits is so for the tighter ones. -/
theorem isComplex (hcomplex : limits.isComplex m = true) : strict.isComplex m = true := by
  unfold Thresholds.isComplex at hcomplex ⊢
  cases hbody : m.body with
  | none => rfl
  | some body =>
      simp only [hbody, Bool.or_eq_true, decide_eq_true_eq] at hcomplex ⊢
      exact hcomplex.imp_left (Or.imp_left fun hlt => h.branchLimit.trans_lt hlt)

/-- An eligible method is not complex, and all the rest of the test does not look at limits. -/
theorem isEligible (heligible : strict.isEligible module t m = true) :
    limits.isEligible module t m = true := by
  simp only [Thresholds.isEligible, Bool.not_eq_true', Bool.or_eq_false_iff] at heligible ⊢
  obtain ⟨⟨⟨hother, hcomplex⟩, hmarked⟩, hentry⟩ := heligible
  have hsimple : limits.isComplex m = false :=
    Bool.eq_false_iff.mpr fun hlimits => by simp [h.isComplex hlimits] at hcomplex
  exact ⟨⟨⟨hother, hsimple⟩, hmarked⟩, hentry⟩

/-- The same for the test.  Where it succeeds the place is inside the body. -/
theorem isReplaceable (hreplaceable : strict.isReplaceable body p value = true) :
    limits.isReplaceable body p value = true := by
  have hp := lt_of_isReplaceable hreplaceable
  exact (isReplaceable_iff hp).mpr (h.replaceable ((isReplaceable_iff hp).mp hreplaceable))

/-- **Tighter limits take candidates away,** and leave the others in their order. -/
theorem constants_sublist (module : Module) (t : TypeDef) (m : MethodDef) :
    (strict.constants module t m).Sublist (limits.constants module t m) := by
  cases hbody : m.body with
  | none => rw [constants_of_bodyless hbody, constants_of_bodyless hbody]
  | some body =>
      rw [constants_eq hbody, constants_eq hbody]
      by_cases heligible : strict.isEligible module t m = true
      · rw [if_pos heligible, if_pos (h.isEligible heligible)]
        exact (List.monotone_filter_right _ fun x => h.isReplaceable).map _
      · rw [if_neg heligible]
        exact List.nil_sublist _

end Tighter

/-- **Tightening only takes candidates away.**  Whatever the limits are, the candidates of a method
whose body is valid are exactly its replaceable literals, each once; and those for tighter limits
are some of those for looser ones, in the same order and with the same values. -/
theorem constants_of_tighter (strict limits : Thresholds) (h : strict.Tighter limits)
    (module : Module) (t : TypeDef) (m : MethodDef)
    (hvalid : ∀ body, m.body = some body → body.arenaFault? = none) :
    (strict.constants module t m).Sublist (limits.constants module t m) ∧
      ∀ chosen : Thresholds,
        ((chosen.constants module t m).map Prod.fst).Nodup ∧
        ∀ id value, (id, value) ∈ chosen.constants module t m ↔
          chosen.isEligible module t m = true ∧ ∃ body p i, m.body = some body ∧
            body.idAt? p = some id ∧ body.get? id = some i ∧ i.literal? = some value ∧
            chosen.Replaceable body p value := by
  have harena : ∀ body, m.body = some body → body.ArenaValid := fun body hbody =>
    MethodBody.arenaFault?_eq_none_iff.mp (hvalid body hbody)
  exact ⟨h.constants_sublist module t m,
    fun _ => ⟨nodup_constants harena, fun _ _ => mem_constants_iff harena⟩⟩

/-- A method with five literals: a large one, one that is compared two places on, one that indexes
an array, the smallest number, and a plain one. -/
def mixedMethod : MethodDef :=
  { MethodDef.new ⟨6⟩ "Mix" with
    body := some
      { MethodBody.ofInstructions
          [.shortestLiteral 5000, .bare .pop, .shortestLiteral 50, .bare .nop,
            .bare (.compare .ceq), .shortestLiteral 7, .bare (.ldelem .i4),
            .shortestLiteral Int32.minValue, .shortestLiteral 60, .ret] with maxStack := 8 } }

/-- Limits that look one place ahead, and limits that look two places ahead and stop at a thousand:
the large literal goes, and the one whose comparison comes into sight.  The smallest number and the
index are no candidates for either. -/
theorem mixedMethod_candidates :
    ({ magnitudeLimit := 1000, lookahead := 2 } : Thresholds).Tighter { lookahead := 1 } ∧
      ({ lookahead := 1 } : Thresholds).constants (Module.new "m") (TypeDef.new ⟨2⟩ "" "T")
        mixedMethod = [(⟨0⟩, 5000), (⟨2⟩, 50), (⟨8⟩, 60)] ∧
      ({ magnitudeLimit := 1000, lookahead := 2 } : Thresholds).constants (Module.new "m")
        (TypeDef.new ⟨2⟩ "" "T") mixedMethod = [(⟨8⟩, 60)] ∧
      [((⟨8⟩, 60) : InstrId × Int32)].Sublist [(⟨0⟩, 5000), (⟨2⟩, 50), (⟨8⟩, 60)] := by
  have htighter : ({ magnitudeLimit := 1000, lookahead := 2 } : Thresholds).Tighter
      { lookahead := 1 } := ⟨by decide, by decide, by decide⟩
  have hloose : ({ lookahead := 1 } : Thresholds).constants (Module.new "m")
      (TypeDef.new ⟨2⟩ "" "T") mixedMethod = [(⟨0⟩, 5000), (⟨2⟩, 50), (⟨8⟩, 60)] := by
    decide +kernel
  have hstrict : ({ magnitudeLimit := 1000, lookahead := 2 } : Thresholds).constants
      (Module.new "m") (TypeDef.new ⟨2⟩ "" "T") mixedMethod = [(⟨8⟩, 60)] := by decide +kernel
  refine ⟨htighter, hloose, hstrict, ?_⟩
  rw [← hloose, ← hstrict]
  exact (constants_of_tighter _ _ htighter _ _ mixedMethod fun body hbody => by
    obtain rfl := Option.some.inj hbody
    decide).1

end Thresholds

end CilRepair
