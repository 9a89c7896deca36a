import CilRepair.Format
import CilRepair.Proofs.FileTables
import Mathlib.Data.List.Induction

/-!
# Outputs appear at once

An output is filled beside its target and moved there at the end.  Until then the target is what it
was, and it stays so whenever anything is refused on the way; then also the file beside it is gone.

* `Write`, `byteAfter`, `bytesAfter` — what a file of zeros holds after some writes, byte by byte:
  that of the last write that fits and covers it.
* `Output.Waits` — an output under way, as an invariant: the temporary file has the bytes, and
  nothing else differs from the files at the start.  `Output.waits_of_createUnder` begins it and
  `Output.Waits.afterWrites` keeps it.
* `GivenUp`, `PutInPlace` — the two ends of an output; `Output.Waits.discard` and
  `Output.Waits.finalizeUnder` lead to them.
* `output_is_atomic` — all of it, and what it means for a module that is saved.

## Design notes

The system may refuse any step, also the ones that clean up, and what it refuses is a parameter of
every statement.  An output has then only three states: it waits, it was given up, or it is in
place.  Each is a predicate on the files at the start and the files now, and the operations lead
from one to another; how they do so is read off the laws of the single operations on files.

Contents are compared byte by byte.  `byteAfter` looks for the last write that covers a place, which
is what a reader expects of overlapping writes; the proof goes by induction from the last write, and
each step is one `splice`.

The temporary file may be there already, left by an output that was cut off.  It is taken over, so
that nothing has to be assumed about it.
-/

namespace CilRepair

open FileSystem

/-! ### Bytes -/

/-- **Each byte is that of the data where these are put,** and the old one elsewhere.  The data have
to end within the content, or it would grow. -/
theorem getElem?_splice {content data : Bytes} {offset : Nat}
    (h : offset + data.length ≤ content.length) (k : Nat) :
    (splice content offset data)[k]? =
      if offset ≤ k ∧ k < offset + data.length then data[k - offset]? else content[k]? := by
  have htaken : (content.take offset).length = offset := by
    rw [List.length_take]
    omega
  have hlength : (content.take offset ++ data ++ content.drop (offset + data.length)).length =
      content.length := by
    simp only [List.length_append, htaken, List.length_drop]
    omega
  rw [splice, ← hlength, List.take_length, List.append_assoc, List.getElem?_append, htaken]
  split
  · next hbefore =>
      rw [List.getElem?_take_of_lt hbefore, if_neg (by omega)]
  · next hbehind =>
      rw [List.getElem?_append]
      split
      · rw [if_pos (by omega)]
      · rw [if_neg (by omega), List.getElem?_drop]
        exact congrArg (content[·]?) (by omega)

/-- Bytes to be written from an offset on. -/
structure Write where
  offset : Nat
  data : Bytes
  deriving DecidableEq

/-- The write ends within a file of some size. -/
def Write.fits (w : Write) (size : Nat) : Bool := w.offset + w.data.length ≤ size

/-- The write has a byte for a place. -/
def Write.covers (w : Write) (k : Nat) : Bool := w.offset ≤ k && k < w.offset + w.data.length

/-- **A byte of a file of zeros after some writes:** that of the last write that fits and covers
it. -/
def byteAfter (size : Nat) (writes : List Write) (k : Nat) : UInt8 :=
  match writes.reverse.find? fun w => w.fits size && w.covers k with
  | some w => w.data.getD (k - w.offset) 0
  | none => 0

/-- **The bytes of a file of zeros after some writes.** -/
def bytesAfter (size : Nat) (writes : List Write) : Bytes :=
  (List.range size).map (byteAfter size writes)

theorem length_bytesAfter (size : Nat) (writes : List Write) :
    (bytesAfter size writes).length = size := by
  rw [bytesAfter, List.length_map, List.length_range]

theorem bytesAfter_nil (size : Nat) : bytesAfter size [] = List.replicate size 0 := by
  have hzeros : bytesAfter size [] = List.replicate (List.range size).length 0 := List.map_const'
  rw [hzeros, List.length_range]

/-- One more write counts first, where it fits and covers the place. -/
theorem byteAfter_concat (size : Nat) (writes : List Write) (w : Write) (k : Nat) :
    byteAfter size (writes ++ [w]) k =
      if w.fits size && w.covers k then w.data.getD (k - w.offset) 0
      else byteAfter size writes k := by
  rw [byteAfter, List.reverse_append, List.reverse_singleton, List.singleton_append,
    List.find?_cons]
  cases w.fits size && w.covers k <;> rfl

/-- **One more write puts its bytes over the others,** if it fits.  The last write is asked first,
which is why it is the one that is taken off here. -/
theorem bytesAfter_concat (size : Nat) (writes : List Write) (w : Write) :
    bytesAfter size (writes ++ [w]) =
      if w.fits size then splice (bytesAfter size writes) w.offset w.data
      else bytesAfter size writes := by
  cases hfits : w.fits size with
  | false =>
      refine List.map_congr_left fun k _ => ?_
      rw [byteAfter_concat, hfits, Bool.false_and, if_neg Bool.false_ne_true]
  | true =>
      have hend : w.offset + w.data.length ≤ (bytesAfter size writes).length := by
        rw [length_bytesAfter]
        exact of_decide_eq_true hfits
      rw [if_pos rfl]
      refine List.ext_getElem? fun k => ?_
      rw [getElem?_splice hend, bytesAfter, List.getElem?_map, bytesAfter, List.getElem?_map]
      by_cases hk : k < size
      · rw [List.getElem?_range hk, Option.map_some, Option.map_some, byteAfter_concat, hfits,
          Bool.true_and]
        by_cases hcovers : w.offset ≤ k ∧ k < w.offset + w.data.length
        · rw [if_pos hcovers, if_pos (by simpa [Write.covers] using hcovers),
            List.getD_eq_getElem?_getD, List.getElem?_eq_getElem (by omega), Option.getD_some]
        · rw [if_neg hcovers, if_neg (by simpa [Write.covers] using hcovers)]
      · rw [length_bytesAfter] at hend
        rw [List.getElem?_eq_none (by rw [List.length_range]; omega), if_neg (by omega),
          Option.map_none, Option.map_none]

/-! ### The two ends of an output -/

/-- Nothing but what the paths lead to is touched. -/
def FileSystem.TouchesOnly (paths : List String) (fs after : FileSystem) : Prop :=
  fs.SameBut (paths.filterMap fs.place?) after

/-- **An output that was given up:** the target is what it was, and there is no temporary file. -/
structure GivenUp (start : FileSystem) (target : String) (after : FileSystem) : Prop where
  kept : after.lookup? target = start.lookup? target
  gone : after.lookup? (Output.temporaryFor target) = none
  others : start.TouchesOnly [Output.temporaryFor target] after

/-- **An output that was put in place:** the target is a file with the bytes, and there is no
temporary file. -/
structure PutInPlace (start : FileSystem) (target : String) (content : Bytes)
    (after : FileSystem) : Prop where
  arrived : after.lookup? target = some (.file content)
  gone : after.lookup? (Output.temporaryFor target) = none
  others : start.TouchesOnly [Output.temporaryFor target, target] after

/-- What was not refused was done. -/
theorem eq_ok_of_attempt {α : Type} {refusal : Option String} {result : Except IoError α} {x : α}
    (h : attempt refusal result = .ok x) : result = .ok x := by
  cases refusal with
  | some reason => exact absurd h (by simp [attempt])
  | none =>
      cases result with
      | error e => exact absurd h (by simp [attempt, Except.mapError])
      | ok y => exact congrArg Except.ok (Except.ok.inj h)

namespace Output

/-! ### An output under way -/

/-- **An output under way.**  Its temporary file holds the bytes, at the place where the path of it
led at the start, and nothing else is different from the start. -/
structure Waits (start : FileSystem) (place : Location) (o : Output) (fs : FileSystem)
    (content : Bytes) : Prop where
  temporary : o.temporary = temporaryFor o.target
  leads : start.resolve o.temporary = .ok place
  named : place.names ≠ []
  plain : Path.endsInSlash o.temporary = false
  found : fs.find? place = some o.file
  holds : fs.content? o.file = some content
  same : start.SameBut [place] fs

/-- The files after some writes, of which those that fail change nothing. -/
def afterWrites (o : Output) (fs : FileSystem) (writes : List Write) : FileSystem :=
  writes.foldl (fun fs w => (o.writeAt fs w.offset w.data).toOption.getD fs) fs

theorem afterWrites_concat (o : Output) (fs : FileSystem) (writes : List Write) (w : Write) :
    o.afterWrites fs (writes ++ [w]) =
      (o.writeAt (o.afterWrites fs writes) w.offset w.data).toOption.getD
        (o.afterWrites fs writes) := by
  rw [afterWrites, List.foldl_append]
  rfl

/-- **A write succeeds just if it fits.**  Nothing else can go wrong with it. -/
theorem writeAt_eq_ok_iff (o : Output) (fs : FileSystem) (w : Write) :
    (∃ after, o.writeAt fs w.offset w.data = .ok after) ↔ w.offset + w.data.length ≤ o.size := by
  rw [writeAt]
  split
  · next h => exact iff_of_true ⟨_, rfl⟩ h
  · next h => exact iff_of_false (by simp) h

/-- A write that fits puts its bytes into the file, and another one does nothing. -/
theorem toOption_writeAt (o : Output) (fs : FileSystem) (w : Write) :
    (o.writeAt fs w.offset w.data).toOption =
      if w.fits o.size then some (fs.overwrite o.file w.offset w.data) else none := by
  rw [writeAt]
  by_cases h : w.offset + w.data.length ≤ o.size
  · rw [if_pos h, if_pos (by simpa [Write.fits] using h)]
    rfl
  · rw [if_neg h, if_neg (by simpa [Write.fits] using h)]
    rfl

namespace Waits

variable {start fs after : FileSystem} {place : Location} {o : Output} {content : Bytes}

theorem entry?_eq (h : o.Waits start place fs content) : fs.entry? place = some (.file content) :=
  entry?_of_find? h.named h.found h.holds

/-- The place is the one that the temporary path led to at the start. -/
theorem place?_temporary (h : o.Waits start place fs content) :
    start.place? (temporaryFor o.target) = some place :=
  place?_eq_some_iff.mpr (h.temporary ▸ h.leads)

/-- The target is elsewhere. -/
theorem target_ne (h : o.Waits start place fs content) {destination : Location}
    (htarget : start.resolve o.target = .ok destination) : destination ≠ place :=
  place_ne_temporary htarget (h.temporary ▸ h.leads)

/-- As long as only the temporary file is touched the target is what it was. -/
theorem lookup?_target (h : o.Waits start place fs content) (hsame : start.SameBut [place] after) :
    after.lookup? o.target = start.lookup? o.target :=
  hsame.lookup?_eq fun _ htarget hmem => h.target_ne htarget (List.mem_singleton.mp hmem)

/-- As long as only the place is touched, only the temporary path is. -/
theorem touchesOnly (h : o.Waits start place fs content) (hsame : start.SameBut [place] after) :
    start.TouchesOnly [temporaryFor o.target] after := by
  rwa [TouchesOnly, List.filterMap_cons_some h.place?_temporary, List.filterMap_nil]

/-- What the path of the temporary file leads to. -/
theorem lookup?_temporary (h : o.Waits start place fs content) {changed : List Location}
    (hsame : start.SameBut changed after) :
    after.lookup? (temporaryFor o.target) = after.entry? place := by
  rw [← h.temporary]
  exact lookup?_of_resolve (hsame.resolve_iff.mpr h.leads)

/-- **A write keeps an output under way.**  Its bytes are spliced in if it fits, and otherwise
nothing changes. -/
theorem write (h : o.Waits start place fs content) (w : Write) :
    o.Waits start place ((o.writeAt fs w.offset w.data).toOption.getD fs)
      (if w.fits o.size then splice content w.offset w.data else content) := by
  rw [toOption_writeAt]
  cases w.fits o.size with
  | false => exact h
  | true =>
      obtain ⟨hfound, hholds, hsame⟩ := overwrite_spec h.named h.found h.holds w.offset w.data
      exact { h with found := hfound, holds := hholds, same := h.same.trans hsame }

/-- **So do any writes.**  By induction from the last one. -/
theorem afterWrites (h : o.Waits start place fs (List.replicate o.size 0)) (writes : List Write) :
    o.Waits start place (o.afterWrites fs writes) (bytesAfter o.size writes) := by
  induction writes using List.reverseRecOn with
  | nil =>
      rw [bytesAfter_nil]
      exact h
  | append_singleton writes w ih =>
      rw [afterWrites_concat, bytesAfter_concat]
      exact ih.write w

/-- **An output under way can be given up.**  The temporary file is removed, and the target was
never touched. -/
theorem discard (h : o.Waits start place fs content) : GivenUp start o.target (o.discard fs) := by
  obtain ⟨hgone, hremoved⟩ :=
    removeFile_spec (h.same.resolve_iff.mpr h.leads) h.named h.entry?_eq
  have hsame : start.SameBut [place] (o.discard fs) := h.same.trans hremoved
  exact ⟨h.lookup?_target hsame, (h.lookup?_temporary hsame).trans hgone, h.touchesOnly hsame⟩

/-- **A move puts it in place.**  The target is elsewhere, so that the file that arrives there is
the one that waited. -/
theorem rename (h : o.Waits start place fs content)
    (hmoved : fs.rename o.temporary o.target = .ok after) :
    PutInPlace start o.target content after := by
  obtain ⟨destination, htarget, harrived, hgone, hsame⟩ :=
    rename_spec h.plain (h.same.resolve_iff.mpr h.leads) h.entry?_eq hmoved
      fun destination htarget => h.target_ne (h.same.resolve_iff.mp htarget)
  have htarget := h.same.resolve_iff.mp htarget
  have hchanged : start.SameBut [place, destination] after := (h.same.mono (by simp)).trans hsame
  refine ⟨?_, (h.lookup?_temporary hchanged).trans hgone, ?_⟩
  · exact (lookup?_of_resolve (hchanged.resolve_iff.mpr htarget)).trans harrived
  · rwa [TouchesOnly, List.filterMap_cons_some h.place?_temporary,
      List.filterMap_cons_some (place?_eq_some_iff.mpr htarget), List.filterMap_nil]

/-- **The end of an output:** it is in place, or it was given up.  Whichever step is refused, what
is left is one of the two. -/
theorem finalizeUnder (h : o.Waits start place fs content) (refused : Refusals) :
    ((o.finalizeUnder fs refused).1 = .ok () →
        PutInPlace start o.target content (o.finalizeUnder fs refused).2) ∧
      ∀ e, (o.finalizeUnder fs refused).1 = .error e →
        GivenUp start o.target (o.finalizeUnder fs refused).2 := by
  rw [Output.finalizeUnder]
  split
  · exact ⟨fun hok => absurd hok (by simp), fun _ _ => h.discard⟩
  · split
    · next moved hattempt =>
        refine ⟨fun _ => ?_, fun _ herror => absurd herror (by simp)⟩
        exact h.rename (eq_ok_of_attempt hattempt)
    · exact ⟨fun hok => absurd hok (by simp), fun _ _ => h.discard⟩

end Waits

/-! ### The beginning of an output -/

/-- A temporary file that was opened is the beginning of an output. -/
theorem waits_of_create {fs opened : FileSystem} {target : String} {size : Nat} {file : FileId}
    (h : fs.create (temporaryFor target) size = .ok (file, opened)) :
    ∃ place, Waits fs place ⟨file, temporaryFor target, target, size⟩ opened
      (List.replicate size 0) := by
  obtain ⟨place, hleads, hnamed, hplain, hfound, hholds, hsame⟩ := create_spec h
  exact ⟨place, rfl, hleads, hnamed, hplain, hfound, hholds, hsame⟩

section Creation

variable {refused : Refusals} {fs created : FileSystem} {target : String} {size : Nat}

/-- **An output that cannot be made** leaves everything, or is given up as soon as its temporary
file was opened. -/
theorem givenUp_of_createUnder {e : Error}
    (h : createUnder refused fs target size = (.error e, created)) :
    created = fs ∨ GivenUp fs target created := by
  rw [createUnder] at h
  split at h
  · exact .inl (Prod.mk.inj h).2.symm
  · next file opened hopened =>
      obtain ⟨place, hwaits⟩ := waits_of_create (eq_ok_of_attempt hopened)
      split at h
      · exact .inr ((Prod.mk.inj h).2 ▸ hwaits.discard)
      · exact .inr ((Prod.mk.inj h).2 ▸ hwaits.discard)
      · exact absurd (Prod.mk.inj h).1 (by simp)

/-- **An output that was made is under way.**  Its file has the size that was asked for, all zeros,
even if an old file was taken over. -/
theorem waits_of_createUnder {o : Output}
    (h : createUnder refused fs target size = (.ok o, created)) :
    o.target = target ∧ o.size = size ∧
      ∃ place, o.Waits fs place created (List.replicate o.size 0) := by
  rw [createUnder] at h
  split at h
  · exact absurd (Prod.mk.inj h).1 (by simp)
  · next file opened hopened =>
      split at h
      · exact absurd (Prod.mk.inj h).1 (by simp)
      · exact absurd (Prod.mk.inj h).1 (by simp)
      · obtain ⟨hmade, rfl⟩ := Prod.mk.inj h
        obtain rfl := Except.ok.inj hmade
        exact ⟨rfl, rfl, waits_of_create (eq_ok_of_attempt hopened)⟩

end Creation

end Output

/-! ### Whole files -/

/-- One write of everything. -/
theorem bytesAfter_whole (content : Bytes) :
    bytesAfter content.length [⟨0, content⟩] = content := by
  have hfits : (⟨0, content⟩ : Write).fits content.length = true :=
    decide_eq_true (Nat.le_of_eq (Nat.zero_add _))
  have hone := bytesAfter_concat content.length [] ⟨0, content⟩
  rw [List.nil_append, hfits, if_pos rfl, bytesAfter_nil] at hone
  rw [hone, splice, List.take_zero, List.nil_append, List.length_replicate, Nat.zero_add,
    List.take_left]

/-- **A saved file is in place, or everything is as it was.**  What is left of a save that failed is
an output that was given up. -/
theorem FileSystem.saveUnder_spec (refused : Refusals) (fs : FileSystem) (target : String)
    (content : Bytes) :
    ((fs.saveUnder refused target content).1 = .ok () →
        PutInPlace fs target content (fs.saveUnder refused target content).2) ∧
      ∀ e, (fs.saveUnder refused target content).1 = .error e →
        (fs.saveUnder refused target content).2 = fs ∨
          GivenUp fs target (fs.saveUnder refused target content).2 := by
  rw [saveUnder]
  split
  · next e created hcreated =>
      exact ⟨fun hok => absurd hok (by simp), fun _ _ => Output.givenUp_of_createUnder hcreated⟩
  · next o created hcreated =>
      obtain ⟨rfl, hsize, place, hwaits⟩ := Output.waits_of_createUnder hcreated
      have hwritten := hwaits.afterWrites [⟨0, content⟩]
      split
      · exact ⟨fun hok => absurd hok (by simp), fun _ _ => .inr hwaits.discard⟩
      · next written hwrite =>
          have hfiles : o.afterWrites created [⟨0, content⟩] = written := by
            change (o.writeAt created 0 content).toOption.getD created = written
            rw [hwrite]
            rfl
          rw [hfiles, hsize, bytesAfter_whole] at hwritten
          obtain ⟨hok, herror⟩ := hwritten.finalizeUnder refused
          exact ⟨hok, fun e he => .inr (herror e he)⟩

/-! ### Atomic outputs -/

/-- **An output appears at once and byte for byte.**  Let the system refuse any steps.  An output
that cannot be made leaves the files, or is given up.  On one that was made a write succeeds just if
it fits, and otherwise changes nothing; whatever was written, the target is what it was and nothing
but the temporary file is touched; to drop it is to give it up; and at the end it is in place with
the bytes of the writes, or it was given up.  So a saved module is at the path byte for byte, or the
files are as they were. -/
theorem output_is_atomic (refused : Refusals) (fs : FileSystem) (target : String) :
    (∀ size e created, Output.createUnder refused fs target size = (.error e, created) →
      created = fs ∨ GivenUp fs target created) ∧
    (∀ size o created, Output.createUnder refused fs target size = (.ok o, created) →
      ∀ writes : List Write,
        let written := o.afterWrites created writes
        (∀ w : Write, (∃ after, o.writeAt written w.offset w.data = .ok after) ↔
          w.offset + w.data.length ≤ size) ∧
        (∀ w : Write, size < w.offset + w.data.length →
          o.afterWrites created (writes ++ [w]) = written) ∧
        (written.lookup? target = fs.lookup? target ∧
          fs.TouchesOnly [Output.temporaryFor target] written) ∧
        GivenUp fs target (o.discard written) ∧
        ((o.finalizeUnder written refused).1 = .ok () →
          PutInPlace fs target (bytesAfter size writes) (o.finalizeUnder written refused).2) ∧
        ∀ e, (o.finalizeUnder written refused).1 = .error e →
          GivenUp fs target (o.finalizeUnder written refused).2) ∧
    ∀ options module,
      let outcome := Image.saveUnder refused fs options module target
      (outcome.result = .ok () →
        PutInPlace fs target (utf8 (Image.encode options module)) outcome.files) ∧
      ∀ e, outcome.result = .error e →
        outcome.files = fs ∨ GivenUp fs target outcome.files := by
  refine ⟨fun size e created => Output.givenUp_of_createUnder,
    fun size o created hcreated writes => ?_,
    fun options module => fs.saveUnder_spec refused target _⟩
  obtain ⟨rfl, rfl, place, hwaits⟩ := Output.waits_of_createUnder hcreated
  have hwritten := hwaits.afterWrites writes
  refine ⟨fun w => ?_, fun w hlong => ?_, ?_, hwritten.discard, hwritten.finalizeUnder refused⟩
  · exact o.writeAt_eq_ok_iff _ w
  · rw [Output.afterWrites_concat, Output.toOption_writeAt, Write.fits,
      decide_eq_false (Nat.not_le.mpr hlong), if_neg Bool.false_ne_true, Option.getD_none]
  · exact ⟨hwritten.lookup?_target hwritten.same, hwritten.touchesOnly hwritten.same⟩

/-- Files with an old target and with the given bytes in its temporary file. -/
def filesBeside (temporary : Bytes) : FileSystem :=
  ⟨[⟨some ⟨.above 0, ["out.bin"]⟩, .file [1, 2, 3]⟩,
    ⟨some ⟨.above 0, [".out.bin.partial"]⟩, .file temporary⟩]⟩

/-- Files with an old target and with what an output left that was cut off. -/
def leftoverFiles : FileSystem := filesBeside [9]

/-- The files once a new output of four bytes has taken over what was left. -/
def reopenedFiles : FileSystem := filesBeside [0, 0, 0, 0]

/-- That output, which waits in the file that was left. -/
def reopenedOutput : Output := ⟨1, ".out.bin.partial", "out.bin", 4⟩

/-- Writes of which the second does not fit into four bytes. -/
def overlappingWrites : List Write := [⟨0, [1, 1]⟩, ⟨3, [8, 8]⟩, ⟨1, [5, 6]⟩]

/-- What an output left that was cut off is taken over by the next one.  Of overlapping writes the
later one counts, one that does not fit changes nothing, and the old target is there until the
end. -/
theorem leftoverFiles_output :
    ∃ o created, Output.createUnder {} leftoverFiles "out.bin" 4 = (.ok o, created) ∧
      let written := o.afterWrites created overlappingWrites
      written.lookup? "out.bin" = some (.file [1, 2, 3]) ∧
        GivenUp leftoverFiles "out.bin" (o.discard written) ∧
          PutInPlace leftoverFiles "out.bin" [1, 5, 6, 0] (o.finalizeUnder written {}).2 := by
  have hcreated : Output.createUnder {} leftoverFiles "out.bin" 4 =
      (.ok reopenedOutput, reopenedFiles) := by
    decide +kernel
  have hlookup : leftoverFiles.lookup? "out.bin" = some (.file [1, 2, 3]) := by decide +kernel
  have hmoved : (reopenedOutput.finalizeUnder
      (reopenedOutput.afterWrites reopenedFiles overlappingWrites) {}).1 = .ok () := by
    decide +kernel
  have hbytes : bytesAfter 4 overlappingWrites = [1, 5, 6, 0] := by decide
  obtain ⟨-, houtput, -⟩ := output_is_atomic {} leftoverFiles "out.bin"
  obtain ⟨-, -, ⟨hkept, -⟩, hdropped, hplaced, -⟩ :=
    houtput 4 reopenedOutput reopenedFiles hcreated overlappingWrites
  exact ⟨reopenedOutput, reopenedFiles, hcreated, hkept.trans hlookup, hdropped,
    hbytes ▸ hplaced hmoved⟩

end CilRepair
