import CilRepair.Files.Output
import CilRepair.Proofs.SplitText
import Mathlib.Data.List.TakeWhile

/-!
# Where paths lead

A path is followed segment by segment, and of what is in the files the way depends on one thing
only: which places are directories.  Operations on files leave these alone, and so a path leads
where it led before.

* `Path.segments_append`, `Path.exists_segments_of_fileName?` — the segments of a path with another
  file name, and of one that names a file.
* `FileSystem.follow_cons_eq_ok_iff`, `follow_append_eq_ok_iff` — a way, taken apart.
* `FileSystem.resolve_of_enter` — to enter a directory and look a name up in it is to follow the
  path, unless the path ends in a slash.
* `FileSystem.resolve_eq_ok_congr` — only directories count.
* `Output.place_ne_temporary` — an output never waits at the place that it is meant for.

## Design notes

A way is stated as an equation `follow place segments = .ok last`, and an equivalence takes it
apart: at its first segment, or between any two.  Failed ways are never compared.  The operations
resolve the same path in different manners, as a whole, or by its directory and its name, and with
empty segments kept or dropped; that these agree where both succeed is what the equivalences are
for.

That an operation moves no path is `resolve_eq_ok_congr`: its hypothesis is about directories and
about nothing else in the files, which is what `SameBut` gives later on.

Where a temporary file waits is decided by names alone.  If the target has a file name, the
temporary one is longer; if it has none, the target leads to a directory and the temporary file is
inside of it.  No assumption about the files is needed for either.
-/

namespace CilRepair

/-! ### Segments -/

namespace Path

variable {path base name : String}

/-- What is behind a slash and has none in it is the last segment, and before it are the segments of
the rest. -/
theorem segments_of_toList_eq (cs : List Char) (h : path.toList = cs ++ '/' :: name.toList)
    (hname : '/' ∉ name.toList) :
    segments path = (splitAtEach '/' cs).map String.ofList ++ [name] := by
  rw [segments, splitText, h, splitAtEach_append, splitAtEach_of_notMem hname, List.map_append,
    List.map_singleton, String.ofList_toList]

theorem slash_notMem_of_mem_segments (h : name ∈ segments path) : '/' ∉ name.toList := by
  obtain ⟨piece, hpiece, rfl⟩ := List.mem_map.mp h
  rw [String.toList_ofList]
  exact notMem_of_mem_splitAtEach hpiece

/-- **A name behind a path is the last segment,** and before it are those of the path.  A path that
ends in a slash has an empty segment there, which the name takes the place of. -/
theorem segments_append (base : String) (hname : '/' ∉ name.toList) :
    ∃ before, segments (append base name) = before ++ [name] ∧
      (base ≠ "" → segments base = before ∨ segments base = before ++ [""]) := by
  by_cases hempty : base = ""
  · refine ⟨[], ?_, fun hne => absurd hempty hne⟩
    have hname' : append base name = name := by simp [append, hempty]
    rw [hname', segments, splitText, splitAtEach_of_notMem hname, List.map_singleton,
      String.ofList_toList, List.nil_append]
  · have hisEmpty : base.isEmpty = false := by simpa using hempty
    rw [append, hisEmpty, Bool.false_or]
    by_cases hend : base.toList.getLast? = some '/'
    · rw [if_pos (beq_iff_eq.mpr hend)]
      obtain ⟨cs, hcs⟩ := List.getLast?_eq_some_iff.mp hend
      refine ⟨_, segments_of_toList_eq cs ?_ hname, fun _ => .inr ?_⟩
      · rw [String.toList_append, hcs, List.append_assoc]
        rfl
      · exact segments_of_toList_eq cs hcs (by decide)
    · rw [if_neg (by simpa using hend)]
      refine ⟨segments base, segments_of_toList_eq _ ?_ hname, fun _ => .inl rfl⟩
      rw [String.toList_append, String.toList_append, List.append_assoc]
      rfl

/-- A name behind a path does not change where its way starts: at the root, or where the program
runs. -/
theorem head?_append (hne : base ≠ "") (name : String) :
    (append base name).toList.head? = base.toList.head? := by
  have hcs : base.toList ≠ [] := fun h => hne (String.toList_eq_nil_iff.mp h)
  rw [append]
  split
  · rw [String.toList_append, List.head?_append_of_ne_nil _ hcs]
  · rw [String.toList_append, String.toList_append, List.append_assoc,
      List.head?_append_of_ne_nil _ hcs]

/-- A path that does not end in a slash has something in its last segment. -/
theorem exists_segments_eq_concat (hne : path ≠ "") (hend : endsInSlash path = false) :
    ∃ before last, segments path = before ++ [last] ∧ last ≠ "" := by
  have hcs : path.toList ≠ [] := fun h => hne (String.toList_eq_nil_iff.mp h)
  have hslash : path.toList.getLast? ≠ some '/' := by simpa [endsInSlash] using hend
  obtain ⟨pieces, last, hsplit, hlast⟩ := exists_splitAtEach_eq_concat hcs hslash
  refine ⟨pieces.map String.ofList, String.ofList last, ?_, fun h => hlast ?_⟩
  · rw [segments, splitText, hsplit, List.map_append, List.map_singleton]
  · have hempty := congrArg String.toList h
    rwa [String.toList_ofList] at hempty

/-- What is dropped at the end of a path means nothing. -/
theorem exists_append_dropIdleTail (xs : List String) :
    ∃ idle, xs = dropIdleTail xs ++ idle ∧ ∀ segment ∈ idle, isIdle segment = true := by
  cases xs with
  | nil => exact ⟨[], rfl, List.forall_mem_nil _⟩
  | cons first rest =>
      refine ⟨(rest.reverse.takeWhile isIdle).reverse, ?_, fun segment hsegment => ?_⟩
      · rw [dropIdleTail, List.cons_append, ← List.reverse_append, List.takeWhile_append_dropWhile,
          List.reverse_reverse]
      · exact List.mem_takeWhile_imp (List.mem_reverse.mp hsegment)

/-- **A path that names a file** has the name in it, and nothing behind that means anything.  The
name is none of the special ones, so following it goes down. -/
theorem exists_segments_of_fileName? (h : fileName? path = some name) :
    ∃ before idle, segments path = before ++ name :: idle ∧
      (∀ segment ∈ idle, isIdle segment = true) ∧ isSpecial name = false := by
  rw [fileName?] at h
  split at h
  · next last hlast =>
      split at h
      · exact absurd h (by simp)
      · next hspecial =>
          obtain rfl := Option.some.inj h
          rw [trimmed] at hlast
          split at hlast
          · exact absurd hlast (by simp)
          · obtain ⟨idle, hsplit, hidle⟩ := exists_append_dropIdleTail (segments path)
            obtain ⟨before, hbefore⟩ := List.getLast?_eq_some_iff.mp hlast
            refine ⟨before, idle, ?_, hidle, by simpa [isSpecial] using hspecial⟩
            rw [hsplit, hbefore, List.append_assoc, List.singleton_append]
  · exact absurd h (by simp)

end Path

/-! ### Steps -/

namespace Location

variable {place next : Location} {segment : String}

/-- A segment that means nothing leads nowhere else. -/
theorem step_of_isIdle (h : Path.isIdle segment = true) : place.step segment = .ok place := if_pos h

/-- A name leads down. -/
theorem eq_child_of_step (hname : Path.isSpecial segment = false)
    (h : place.step segment = .ok next) : next = place.child segment := by
  rw [Path.isSpecial, Bool.or_eq_false_iff] at hname
  rw [step, hname.1, hname.2] at h
  simp only [Bool.false_eq_true, if_false] at h
  split at h
  · exact absurd h (by simp)
  · exact (Except.ok.inj h).symm

theorem names_ne_nil_of_step (hname : Path.isSpecial segment = false)
    (h : place.step segment = .ok next) : next.names ≠ [] := by
  rw [eq_child_of_step hname h]
  exact List.append_ne_nil_of_right_ne_nil _ (List.cons_ne_nil _ _)

end Location

/-! ### Ways -/

namespace FileSystem

variable {fs after : FileSystem} {place last : Location} {path : String}

/-- **A way begins at a directory.**  A way without segments does not have to. -/
theorem follow_cons_eq_ok_iff {segment : String} {rest : List String} :
    fs.follow place (segment :: rest) = .ok last ↔ fs.entry? place = some .directory ∧
      ∃ next, place.step segment = .ok next ∧ fs.follow next rest = .ok last := by
  rw [follow]
  cases fs.entry? place with
  | none => simp
  | some entry =>
      cases entry with
      | file content => simp
      | directory => cases place.step segment <;> simp

/-- **A way goes on where it was left.**  By induction on its first part. -/
theorem follow_append_eq_ok_iff {segments rest : List String} :
    fs.follow place (segments ++ rest) = .ok last ↔
      ∃ next, fs.follow place segments = .ok next ∧ fs.follow next rest = .ok last := by
  induction segments generalizing place with
  | nil => simp [follow]
  | cons segment segments ih =>
      rw [List.cons_append, follow_cons_eq_ok_iff]
      simp only [ih, follow_cons_eq_ok_iff]
      constructor
      · rintro ⟨hdirectory, next, hstep, further, hsegments, hrest⟩
        exact ⟨further, ⟨hdirectory, next, hstep, hsegments⟩, hrest⟩
      · rintro ⟨further, ⟨hdirectory, next, hstep, hsegments⟩, hrest⟩
        exact ⟨hdirectory, next, hstep, further, hsegments, hrest⟩

/-- A way along segments that mean nothing leads nowhere else. -/
theorem eq_of_follow_idle {idle : List String}
    (hidle : ∀ segment ∈ idle, Path.isIdle segment = true)
    (h : fs.follow place idle = .ok last) : last = place := by
  induction idle with
  | nil => exact (Except.ok.inj h).symm
  | cons segment idle ih =>
      rw [follow_cons_eq_ok_iff, Location.step_of_isIdle (hidle segment List.mem_cons_self)] at h
      obtain ⟨-, next, hnext, hrest⟩ := h
      obtain rfl := Except.ok.inj hnext
      exact ih (fun segment hsegment => hidle segment (List.mem_cons_of_mem _ hsegment)) hrest

/-- **Empty segments only ask for a directory,** and what follows asks for it anyway.  The empty
segment at the end stands for that, so that both ways end at a directory. -/
theorem follow_filter_eq_ok_iff {segments : List String} :
    fs.follow place (segments.filter (!·.isEmpty) ++ [""]) = .ok last ↔
      fs.follow place (segments ++ [""]) = .ok last := by
  induction segments generalizing place with
  | nil => rfl
  | cons segment segments ih =>
      by_cases hempty : segment = ""
      · subst hempty
        have hidle : place.step "" = .ok place := Location.step_of_isIdle rfl
        rw [List.filter_cons_of_neg (by decide), ih, List.cons_append, follow_cons_eq_ok_iff, hidle]
        constructor
        · intro h
          have hne : segments ++ [""] ≠ [] := List.append_ne_nil_of_right_ne_nil _ (by decide)
          obtain ⟨segment, rest, hcons⟩ := List.exists_cons_of_ne_nil hne
          exact ⟨(follow_cons_eq_ok_iff.mp (hcons ▸ h)).1, place, rfl, h⟩
        · rintro ⟨-, next, hnext, h⟩
          obtain rfl := Except.ok.inj hnext
          exact h
      · rw [List.filter_cons_of_pos (by simpa using hempty), List.cons_append, List.cons_append,
          follow_cons_eq_ok_iff, follow_cons_eq_ok_iff]
        simp only [ih]

/-- A path leads to a place if the way along its segments does. -/
theorem resolve_eq_ok_iff : fs.resolve path = .ok last ↔
    Path.fault? path = none ∧ fs.follow (.start path) (Path.segments path) = .ok last := by
  rw [resolve]
  cases Path.fault? path <;> simp

/-- To enter the directory of a path is to follow it without its last segment, and without empty
ones. -/
theorem enter_eq_ok {directory : Location} {name : String}
    (h : fs.enter path = .ok (directory, name)) :
    Path.fault? path = none ∧
      fs.follow (.start path)
          (((Path.segments path).filter (!·.isEmpty)).dropLast ++ [""]) = .ok directory ∧
        name = ((Path.segments path).filter (!·.isEmpty)).getLastD "" := by
  rw [enter] at h
  cases hfault : Path.fault? path with
  | some e => simp [hfault] at h
  | none =>
      rw [hfault] at h
      dsimp only at h
      split at h
      · exact absurd h (by simp)
      · next entered hentered =>
          obtain ⟨rfl, rfl⟩ := Prod.mk.inj (Except.ok.inj h)
          exact ⟨rfl, hentered, rfl⟩

/-- **The place of a name in the directory that is entered is where the path leads.**  A slash at
the end would ask for a directory in addition. -/
theorem resolve_of_enter {directory : Location} {name : String}
    (h : fs.enter path = .ok (directory, name)) (hend : Path.endsInSlash path = false)
    (hstep : directory.step name = .ok last) : fs.resolve path = .ok last := by
  obtain ⟨hfault, hfollow, rfl⟩ := enter_eq_ok h
  have hne : path ≠ "" := by
    rintro rfl
    exact absurd hfault (by decide)
  obtain ⟨before, segment, hsegments, hsegment⟩ := Path.exists_segments_eq_concat hne hend
  have hfilter : (Path.segments path).filter (!·.isEmpty) =
      before.filter (!·.isEmpty) ++ [segment] := by
    rw [hsegments, List.filter_append, List.filter_cons_of_pos (by simpa using hsegment),
      List.filter_nil]
  rw [hfilter, List.dropLast_concat, follow_filter_eq_ok_iff, follow_append_eq_ok_iff] at hfollow
  obtain ⟨next, hnext, hdirectory⟩ := hfollow
  rw [hfilter, List.getLastD_concat] at hstep
  obtain rfl := eq_of_follow_idle (List.forall_mem_singleton.mpr rfl) hdirectory
  rw [resolve_eq_ok_iff, hsegments, follow_append_eq_ok_iff]
  refine ⟨hfault, directory, hnext, follow_cons_eq_ok_iff.mpr ⟨?_, last, hstep, rfl⟩⟩
  exact (follow_cons_eq_ok_iff.mp hdirectory).1

/-! ### Only directories count -/

section Directories

variable (h : ∀ place, after.entry? place = some .directory ↔ fs.entry? place = some .directory)

include h

/-- A way depends on directories only. -/
theorem follow_eq_ok_congr {segments : List String} :
    after.follow place segments = .ok last ↔ fs.follow place segments = .ok last := by
  induction segments generalizing place with
  | nil => rfl
  | cons segment segments ih =>
      rw [follow_cons_eq_ok_iff, follow_cons_eq_ok_iff, h place]
      simp only [ih]

/-- **With the same directories a path leads to the same place.** -/
theorem resolve_eq_ok_congr : after.resolve path = .ok last ↔ fs.resolve path = .ok last := by
  rw [resolve_eq_ok_iff, resolve_eq_ok_iff, follow_eq_ok_congr h]

end Directories

end FileSystem

/-! ### The place of a temporary file -/

open CilRepair.Path

namespace Output

variable {fs : FileSystem} {target : String} {place waiting : Location}

/-- The name of a temporary file is one segment, -/
theorem slash_notMem_temporaryName (target : String) : '/' ∉ (temporaryName target).toList := by
  have hname : '/' ∉ ((fileName? target).getD "output").toList := by
    cases hfile : fileName? target with
    | none => decide
    | some name =>
        obtain ⟨before, idle, hsegments, -⟩ := exists_segments_of_fileName? hfile
        have hmem : name ∈ segments target := by
          rw [hsegments]
          exact List.mem_append_right _ List.mem_cons_self
        exact slash_notMem_of_mem_segments hmem
  simp only [temporaryName, String.toList_append, List.mem_append]
  rintro ((h | h) | h)
  exacts [absurd h (by decide), hname h, absurd h (by decide)]

/-- and leads down.  The names that do not are shorter than what is put around the name of the
target. -/
theorem isSpecial_temporaryName (target : String) : isSpecial (temporaryName target) = false := by
  have hlength : 9 ≤ (temporaryName target).toList.length := by
    simp only [temporaryName, String.toList_append, List.length_append]
    have hdot : ".".toList.length = 1 := rfl
    have hpartial : ".partial".toList.length = 8 := rfl
    omega
  have hne : ∀ short : String, short.toList.length < 9 → temporaryName target ≠ short := by
    rintro short hshort rfl
    exact absurd hlength (Nat.not_le.mpr hshort)
  have hempty := hne "" (by decide)
  have hpoint := hne "." (by decide)
  have hparent := hne ".." (by decide)
  simp [isSpecial, isIdle, hempty, hpoint, hparent]

/-- The name of a target is shorter than that of its temporary file, which has something in front of
it and behind it. -/
theorem temporaryName_ne {name : String} (h : fileName? target = some name) :
    temporaryName target ≠ name := by
  intro heq
  have hlength := congrArg (fun s : String => s.toList.length) heq
  simp only [temporaryName, h, Option.getD_some, String.toList_append, List.length_append]
    at hlength
  have hdot : ".".toList.length = 1 := rfl
  omega

/-- **The temporary file is in a directory,** which is what the target leads to if it names no
file. -/
theorem exists_directory_of_temporary (h : fs.resolve (temporaryFor target) = .ok waiting) :
    ∃ directory : Location, waiting = directory.child (temporaryName target) ∧
      (fileName? target = none → ∀ place, fs.resolve target = .ok place → place = directory) := by
  obtain ⟨before, hsegments, hbase⟩ := segments_append
    (if (fileName? target).isSome then parent target else target)
    (slash_notMem_temporaryName target)
  have htemporary : segments (temporaryFor target) = before ++ [temporaryName target] := hsegments
  obtain ⟨-, hfollow⟩ := FileSystem.resolve_eq_ok_iff.mp h
  rw [htemporary, FileSystem.follow_append_eq_ok_iff] at hfollow
  obtain ⟨directory, hdirectory, hname⟩ := hfollow
  obtain ⟨-, next, hstep, hlast⟩ := FileSystem.follow_cons_eq_ok_iff.mp hname
  obtain rfl := Except.ok.inj hlast
  refine ⟨directory, Location.eq_child_of_step (isSpecial_temporaryName target) hstep, ?_⟩
  intro hfile place htarget
  obtain ⟨hfault, htarget⟩ := FileSystem.resolve_eq_ok_iff.mp htarget
  have hne : target ≠ "" := by
    rintro rfl
    exact absurd hfault (by decide)
  rw [hfile, Option.isSome_none, if_neg Bool.false_ne_true] at hbase
  -- A target that names no file is taken for a directory, so both paths start alike.
  have hstart : Location.start (temporaryFor target) = Location.start target := by
    have htemporary : temporaryFor target = append target (temporaryName target) := by
      rw [temporaryFor, withFileName, hfile, Option.isSome_none, if_neg Bool.false_ne_true]
    rw [Location.start, htemporary, head?_append hne, Location.start]
  rw [hstart] at hdirectory
  -- The slash between the two may be the one that the target ends in.
  rcases hbase hne with hsame | hsame <;> rw [hsame] at htarget
  · exact Except.ok.inj (htarget.symm.trans hdirectory)
  · rw [FileSystem.follow_append_eq_ok_iff, hdirectory] at htarget
    obtain ⟨next, hnext, hidle⟩ := htarget
    obtain rfl := Except.ok.inj hnext
    exact FileSystem.eq_of_follow_idle (List.forall_mem_singleton.mpr rfl) hidle

/-- **An output never waits at the place that it is meant for.**  If the target names a file, the
temporary file has a longer name; otherwise it is inside of what the target leads to.  So what is
written while it waits cannot be seen at the target. -/
theorem place_ne_temporary (htarget : fs.resolve target = .ok place)
    (htemporary : fs.resolve (temporaryFor target) = .ok waiting) : place ≠ waiting := by
  obtain ⟨directory, rfl, hdirectory⟩ := exists_directory_of_temporary htemporary
  intro heq
  have hnames := congrArg Location.names heq
  cases hfile : fileName? target with
  | none =>
      rw [hdirectory hfile place htarget] at hnames
      exact absurd (List.self_eq_append_right.mp hnames) (List.cons_ne_nil _ _)
  | some name =>
      obtain ⟨-, hfollow⟩ := FileSystem.resolve_eq_ok_iff.mp htarget
      obtain ⟨before, idle, hsegments, hidle, hname⟩ := exists_segments_of_fileName? hfile
      rw [hsegments, FileSystem.follow_append_eq_ok_iff] at hfollow
      obtain ⟨home, -, hfollow⟩ := hfollow
      obtain ⟨-, child, hchild, hrest⟩ := FileSystem.follow_cons_eq_ok_iff.mp hfollow
      obtain rfl := FileSystem.eq_of_follow_idle hidle hrest
      rw [Location.eq_child_of_step hname hchild] at hnames
      obtain ⟨-, hlast⟩ := List.append_inj' hnames rfl
      exact temporaryName_ne hfile (List.singleton_inj.mp hlast).symm

end Output

end CilRepair
