import CilRepair.Proofs.FilePaths

/-!
# What operations do to files

Each operation on files is about one or two places.  Elsewhere everything stays, and no directory
comes or goes; so paths lead where they led, and operations are put together place by place.

* `FileSystem.place?`, `FileSystem.lookup?` — the place that a path leads to, and what is there.
* `FileSystem.SameBut` — two file systems that differ at some places only, in files.
* `FileSystem.create_spec`, `overwrite_spec`, `removeFile_spec`, `rename_spec` — one operation each:
  what it does at its places, and that it leaves the rest.

Nothing is asked of the table.  Several rows may claim one place, and then the first one counts.

## Design notes

Operations work on rows, and what callers ask about is places.  Each operation has one law that says
what is at the places it is about and that the rest is as it was; the proofs look at rows, and no
later proof does.

`SameBut` also says that no directory comes or goes.  That is what makes paths stable: a path is
resolved through directories only, so that a change of files moves no path.  With `trans` and `mono`
the operations of an output are then put together without looking at a path again.

Files are found by their number in the table.  To take a file away or to move it changes the place
in its row and leaves the row, so that numbers that were given out keep their meaning.
-/

namespace CilRepair

namespace FileSystem

variable {fs after further : FileSystem} {place origin destination : Location} {path : String}
  {id : FileId} {content : Bytes}

/-- The place that a path leads to, whether or not something is there. -/
def place? (fs : FileSystem) (path : String) : Option Location := (fs.resolve path).toOption

/-- **What a path leads to.** -/
def lookup? (fs : FileSystem) (path : String) : Option Entry := (fs.place? path).bind fs.entry?

theorem place?_eq_some_iff : fs.place? path = some place ↔ fs.resolve path = .ok place := by
  rw [place?]
  cases fs.resolve path <;> simp [Except.toOption]

theorem lookup?_of_resolve (h : fs.resolve path = .ok place) :
    fs.lookup? path = fs.entry? place := by
  rw [lookup?, place?_eq_some_iff.mpr h, Option.bind_some]

/-! ### Entries -/

theorem entry?_eq_ite (fs : FileSystem) (place : Location) : fs.entry? place =
    if place.names.isEmpty then some .directory
    else (fs.find? place).bind fun id => (fs.nodes[id]?).map (·.entry) := rfl

/-- The root is a directory, whatever the table says. -/
theorem entry?_of_names_eq_nil (h : place.names = []) : fs.entry? place = some .directory := by
  rw [entry?_eq_ite, h, List.isEmpty_nil, if_pos rfl]

/-- The first row that is at a place counts. -/
theorem entry?_eq_find? (h : place.names ≠ []) :
    fs.entry? place = (fs.nodes.find? fun node => node.place == some place).map (·.entry) := by
  rw [entry?_eq_ite, List.isEmpty_eq_false_iff.mpr h, if_neg Bool.false_ne_true, find?,
    List.find?_eq_bind_findIdx?_getElem?, Option.map_bind]
  rfl

theorem exists_of_find? (h : fs.find? place = some id) :
    ∃ node, fs.nodes[id]? = some node ∧ node.place = some place := by
  obtain ⟨hlt, hplace, -⟩ := List.findIdx?_eq_some_iff_getElem.mp h
  exact ⟨fs.nodes[id], List.getElem?_eq_getElem hlt, beq_iff_eq.mp hplace⟩

/-- A file that is found with its content is what is at the place. -/
theorem entry?_of_find? (hnamed : place.names ≠ []) (h : fs.find? place = some id)
    (hcontent : fs.content? id = some content) : fs.entry? place = some (.file content) := by
  rw [entry?_eq_ite, List.isEmpty_eq_false_iff.mpr hnamed, if_neg Bool.false_ne_true, h,
    Option.bind_some]
  rw [content?] at hcontent
  split at hcontent
  · next stored hnode =>
      rw [hnode, Option.map_some, Option.some.inj hcontent]
  · exact absurd hcontent (by simp)

theorem find?_eq_none_iff (hnamed : place.names ≠ []) :
    fs.find? place = none ↔ fs.entry? place = none := by
  rw [entry?_eq_find? hnamed, Option.map_eq_none_iff, find?, List.findIdx?_eq_none_iff,
    List.find?_eq_none]
  simp only [Bool.not_eq_true]

/-! ### Differences -/

/-- **Two file systems that differ at some places only,** and in files: directories are the same
everywhere. -/
structure SameBut (changed : List Location) (fs after : FileSystem) : Prop where
  entries : ∀ place, place ∉ changed → after.entry? place = fs.entry? place
  directories : ∀ place, after.entry? place = some .directory ↔ fs.entry? place = some .directory

namespace SameBut

variable {changed more : List Location}

/-- Two operations about the same places; others come in through `mono`. -/
theorem trans (h : SameBut changed fs after) (h' : SameBut changed after further) :
    SameBut changed fs further :=
  ⟨fun place hplace => (h'.entries place hplace).trans (h.entries place hplace),
    fun place => (h'.directories place).trans (h.directories place)⟩

/-- To differ at fewer places is to differ at more of them at most. -/
theorem mono (h : SameBut changed fs after) (hsub : changed ⊆ more) : SameBut more fs after :=
  ⟨fun place hplace => h.entries place (mt (@hsub place) hplace), h.directories⟩

/-- It is enough that no directory comes or goes at the places themselves, and that everything else
that has a name stays. -/
theorem of_files
    (hentries : ∀ place, place ∉ changed → place.names ≠ [] → after.entry? place = fs.entry? place)
    (hfiles : ∀ place ∈ changed,
      fs.entry? place ≠ some .directory ∧ after.entry? place ≠ some .directory) :
    SameBut changed fs after := by
  have hothers : ∀ place, place ∉ changed → after.entry? place = fs.entry? place := by
    intro place hplace
    by_cases hnamed : place.names = []
    · rw [entry?_of_names_eq_nil hnamed, entry?_of_names_eq_nil hnamed]
    · exact hentries place hplace hnamed
  refine ⟨hothers, fun place => ?_⟩
  by_cases hplace : place ∈ changed
  · exact iff_of_false (hfiles place hplace).2 (hfiles place hplace).1
  · rw [hothers place hplace]

/-- A path is resolved through directories, and those are the same. -/
theorem resolve_iff (h : SameBut changed fs after) :
    after.resolve path = .ok place ↔ fs.resolve path = .ok place :=
  resolve_eq_ok_congr h.directories

/-- **Every path leads where it led.** -/
theorem place?_eq (h : SameBut changed fs after) (path : String) :
    after.place? path = fs.place? path :=
  Option.ext fun place => by rw [place?_eq_some_iff, place?_eq_some_iff, h.resolve_iff]

/-- **A path that leads to none of the places leads to what it led to.** -/
theorem lookup?_eq (h : SameBut changed fs after)
    (hpath : ∀ place, fs.resolve path = .ok place → place ∉ changed) :
    after.lookup? path = fs.lookup? path := by
  rw [lookup?, lookup?, h.place?_eq]
  cases hplace : fs.place? path with
  | none => rfl
  | some place => exact h.entries place (hpath place (place?_eq_some_iff.mp hplace))

end SameBut

/-! ### Contents -/

/-- Another content moves no row.  A row is found by its place, and only its entry is written. -/
theorem find?_setContent (fs : FileSystem) (id : FileId) (content : Bytes) (place : Location) :
    (fs.setContent id content).find? place = fs.find? place := by
  have hplaces : (fs.setContent id content).nodes.map (·.place) = fs.nodes.map (·.place) := by
    refine List.ext_getElem? fun n => ?_
    rw [List.getElem?_map, List.getElem?_map, setContent, List.getElem?_modify]
    cases fs.nodes[n]? with
    | none => rfl
    | some node =>
        refine congrArg some ?_
        dsimp only
        split <;> rfl
  have hfind : ∀ nodes : List Node, nodes.findIdx? (fun node => node.place == some place) =
      (nodes.map (·.place)).findIdx? (· == some place) := by
    intro nodes
    rw [List.findIdx?_map]
    rfl
  rw [find?, hfind, hplaces, ← hfind, find?]

/-- The file has the content that was set, -/
theorem content?_setContent (h : fs.find? place = some id) (content : Bytes) :
    (fs.setContent id content).content? id = some content := by
  obtain ⟨node, hnode, -⟩ := exists_of_find? h
  have hset : (fs.setContent id content).nodes[id]? =
      some { node with entry := .file content } := by
    rw [setContent, List.getElem?_modify, hnode]
    exact congrArg some (if_pos rfl)
  rw [content?, hset]

/-- and what is at other places stays. -/
theorem entry?_setContent_of_ne (h : fs.find? place = some id) (content : Bytes)
    {other : Location} (hne : other ≠ place) :
    entry? (fs.setContent id content) other = fs.entry? other := by
  rw [entry?_eq_ite, entry?_eq_ite, find?_setContent]
  cases hother : fs.find? other with
  | none => rfl
  | some row =>
      have hrow : id ≠ row := by
        rintro rfl
        obtain ⟨node, hnode, hplace⟩ := exists_of_find? h
        obtain ⟨same, hsame, hplace'⟩ := exists_of_find? hother
        obtain rfl := Option.some.inj (hnode.symm.trans hsame)
        exact hne (Option.some.inj (hplace'.symm.trans hplace))
      have hget : (fs.setContent id content).nodes[row]? = fs.nodes[row]? := by
        rw [setContent, List.getElem?_modify]
        cases fs.nodes[row]? with
        | none => rfl
        | some node => exact congrArg some (if_neg hrow)
      rw [Option.bind_some, Option.bind_some, hget]

/-- Another content in the file at a place changes nothing elsewhere. -/
theorem sameBut_setContent (hnamed : place.names ≠ []) (h : fs.find? place = some id)
    (hfile : fs.entry? place ≠ some .directory) (content : Bytes) :
    SameBut [place] fs (fs.setContent id content) := by
  refine .of_files (fun other hother _ => ?_) fun other hother => ?_
  · exact entry?_setContent_of_ne h content (by simpa using hother)
  · obtain rfl := List.mem_singleton.mp hother
    have hfind := (find?_setContent fs id content other).trans h
    rw [entry?_of_find? hnamed hfind (content?_setContent h content)]
    exact ⟨hfile, by simp⟩

/-! ### Rows that come and go -/

/-- Something new where nothing was.  Its row is the last one, and no row in front of it is at its
place. -/
theorem add_spec (hnamed : place.names ≠ []) (h : fs.find? place = none) (content : Bytes) :
    (fs.add place (.file content)).find? place = some fs.nodes.length ∧
      (fs.add place (.file content)).content? fs.nodes.length = some content ∧
        SameBut [place] fs (fs.add place (.file content)) := by
  have hfind : (fs.add place (.file content)).find? place = some fs.nodes.length := by
    rw [find?] at h
    rw [find?, add, List.findIdx?_append, h]
    simp
  have hcontent : (fs.add place (.file content)).content? fs.nodes.length = some content := by
    rw [content?, add, List.getElem?_append_right (Nat.le_refl _), Nat.sub_self]
    rfl
  refine ⟨hfind, hcontent, .of_files (fun other hother hother' => ?_) fun other hother => ?_⟩
  · have hne : place ≠ other := fun heq => hother (List.mem_singleton.mpr heq.symm)
    have hmiss : [(⟨some place, .file content⟩ : Node)].find?
        (fun node => node.place == some other) = none := by
      simpa using hne
    rw [entry?_eq_find? hother', entry?_eq_find? hother', add, List.find?_append, hmiss,
      Option.or_none]
  · obtain rfl := List.mem_singleton.mp hother
    rw [entry?_of_find? hnamed hfind hcontent, (find?_eq_none_iff hnamed).mp h]
    exact ⟨by simp, by simp⟩

section Moves

variable {g : Node → Node} (hentry : ∀ node, (g node).entry = node.entry)

include hentry

/-- What is at a place after rows have moved. -/
theorem entry?_map (hnamed : place.names ≠ []) :
    entry? ⟨fs.nodes.map g⟩ place =
      (fs.nodes.find? fun node => (g node).place == some place).map (·.entry) := by
  rw [entry?_eq_find? hnamed, List.find?_map, Option.map_map]
  exact congrArg (Option.map · _) (funext hentry)

/-- **A place has what was at the place that its rows come from.**  The first of the rows counts
before and after, and they are the same rows in the same order. -/
theorem entry?_map_of_comes (hnamed : place.names ≠ []) (horigin : origin.names ≠ [])
    (hcomes : ∀ node, (g node).place = some place ↔ node.place = some origin) :
    entry? ⟨fs.nodes.map g⟩ place = fs.entry? origin := by
  rw [entry?_map hentry hnamed, entry?_eq_find? horigin]
  refine congrArg (fun test => (fs.nodes.find? test).map (·.entry)) (funext fun node => ?_)
  rw [Bool.eq_iff_iff, beq_iff_eq, beq_iff_eq, hcomes]

/-- A place that no row comes to has nothing. -/
theorem entry?_map_of_left (hnamed : place.names ≠ [])
    (hleft : ∀ node, (g node).place ≠ some place) : entry? ⟨fs.nodes.map g⟩ place = none := by
  rw [entry?_map hentry hnamed, Option.map_eq_none_iff, List.find?_eq_none]
  intro node _
  rw [beq_iff_eq]
  exact hleft node

end Moves

/-- **A file taken away.**  Every row at its place loses it, so nothing that it hid comes to
light. -/
theorem detach_spec (hnamed : place.names ≠ []) (hfile : fs.entry? place ≠ some .directory) :
    entry? (fs.detach place) place = none ∧ SameBut [place] fs (fs.detach place) := by
  have hentry : ∀ node : Node, (if node.place == some place then { node with place := none }
      else node).entry = node.entry := by
    intro node
    split <;> rfl
  have hgone : entry? (fs.detach place) place = none := by
    refine entry?_map_of_left hentry hnamed fun node => ?_
    split
    · simp
    · next hnode => exact fun hplace => hnode (beq_iff_eq.mpr hplace)
  refine ⟨hgone, .of_files (fun other hother hother' => ?_) fun other hother => ?_⟩
  · have hne : other ≠ place := fun heq => hother (List.mem_singleton.mpr heq)
    refine entry?_map_of_comes hentry hother' hother' fun node => ?_
    split
    · next hnode => simp [beq_iff_eq.mp hnode, Ne.symm hne]
    · rfl
  · obtain rfl := List.mem_singleton.mp hother
    exact ⟨hfile, by simp [hgone]⟩

/-- **A file taken to another place,** instead of what was there.  Rows that were at the new place
lose it, or they would hide the file that is moved. -/
theorem move_spec (horigin : origin.names ≠ []) (hdestination : destination.names ≠ [])
    (hne : destination ≠ origin) (hfile : fs.entry? origin = some (.file content))
    (hreplaced : fs.entry? destination ≠ some .directory) :
    entry? (fs.move origin destination) destination = some (.file content) ∧
      entry? (fs.move origin destination) origin = none ∧
        SameBut [origin, destination] fs (fs.move origin destination) := by
  have hentry : ∀ node : Node, (if node.place == some origin
      then { node with place := some destination }
      else if node.place == some destination then { node with place := none } else node).entry =
        node.entry := by
    intro node
    split
    · rfl
    · split <;> rfl
  -- The row of the origin is the one that comes to the destination,
  have hmoved : entry? (fs.move origin destination) destination = some (.file content) := by
    rw [← hfile]
    refine entry?_map_of_comes hentry hdestination horigin fun node => ?_
    split
    · next hnode => simp [beq_iff_eq.mp hnode]
    · next hnode =>
        have hnode' : node.place ≠ some origin := fun hplace => hnode (beq_iff_eq.mpr hplace)
        split
        · simp [hnode']
        · next hother => exact iff_of_false (fun hplace => hother (beq_iff_eq.mpr hplace)) hnode'
  -- and no row stays behind.
  have hgone : entry? (fs.move origin destination) origin = none := by
    refine entry?_map_of_left hentry horigin fun node => ?_
    split
    · simpa using hne
    · next hnode =>
        split
        · simp
        · exact fun hplace => hnode (beq_iff_eq.mpr hplace)
  refine ⟨hmoved, hgone, .of_files (fun other hother hother' => ?_) fun other hother => ?_⟩
  · simp only [List.mem_cons, List.not_mem_nil, or_false, not_or] at hother
    refine entry?_map_of_comes hentry hother' hother' fun node => ?_
    split
    · next hnode => simp [beq_iff_eq.mp hnode, Ne.symm hother.1, Ne.symm hother.2]
    · split
      · next hnode => simp [beq_iff_eq.mp hnode, Ne.symm hother.2]
      · rfl
  · rcases List.mem_cons.mp hother with rfl | hother
    · exact ⟨by simp [hfile], by simp [hgone]⟩
    · obtain rfl := List.mem_singleton.mp hother
      exact ⟨hreplaced, by simp [hmoved]⟩

/-! ### Operations -/

/-- A mapped result succeeds if the result did. -/
theorem exists_eq_ok_of_map {ε α β : Type} {f : α → β} {result : Except ε α} {y : β}
    (h : result.map f = .ok y) : ∃ x, result = .ok x ∧ f x = y := by
  cases result with
  | error e => exact absurd h (by simp [Except.map])
  | ok x => exact ⟨x, rfl, Except.ok.inj h⟩

/-- **A file created:** it is where the path leads, and it is all zeros.  Whether something was
there before, which is then overwritten, makes no difference to the statement. -/
theorem create_spec {size : Nat} (h : fs.create path size = .ok (id, after)) :
    ∃ place, fs.resolve path = .ok place ∧ place.names ≠ [] ∧ Path.endsInSlash path = false ∧
      after.find? place = some id ∧ after.content? id = some (List.replicate size 0) ∧
        SameBut [place] fs after := by
  rw [create] at h
  split at h
  · exact absurd h (by simp)
  · next directory name henter =>
      split at h
      · exact absurd h (by simp)
      · next hplain =>
          rw [Bool.not_eq_true, Bool.or_eq_false_iff] at hplain
          split at h
          · exact absurd h (by simp)
          · next place hstep =>
              have hnamed := Location.names_ne_nil_of_step hplain.1 hstep
              refine ⟨place, resolve_of_enter henter hplain.2 hstep, hnamed, hplain.2, ?_⟩
              -- A file at the place gets the zeros for its content; a free place gets a new file.
              rw [createAt] at h
              split at h
              · exact absurd h (by simp)
              · next row hfind hfile =>
                  obtain ⟨rfl, rfl⟩ := Prod.mk.inj (Except.ok.inj h)
                  exact ⟨(find?_setContent fs row _ place).trans hfind,
                    content?_setContent hfind _, sameBut_setContent hnamed hfind hfile _⟩
              · next hfind _ =>
                  obtain ⟨rfl, rfl⟩ := Prod.mk.inj (Except.ok.inj h)
                  exact add_spec hnamed hfind _

/-- **Bytes put over others** in the file that is at a place. -/
theorem overwrite_spec (hnamed : place.names ≠ []) (hfind : fs.find? place = some id)
    (hcontent : fs.content? id = some content) (offset : Nat) (data : Bytes) :
    (fs.overwrite id offset data).find? place = some id ∧
      (fs.overwrite id offset data).content? id = some (splice content offset data) ∧
        SameBut [place] fs (fs.overwrite id offset data) := by
  have hset : fs.overwrite id offset data = fs.setContent id (splice content offset data) := by
    rw [overwrite, hcontent]
  rw [hset]
  refine ⟨(find?_setContent fs id _ place).trans hfind, content?_setContent hfind _,
    sameBut_setContent hnamed hfind ?_ _⟩
  rw [entry?_of_find? hnamed hfind hcontent]
  simp

/-- **A file removed.**  Nothing is at its place afterwards. -/
theorem removeFile_spec (hpath : fs.resolve path = .ok place) (hnamed : place.names ≠ [])
    (hfile : fs.entry? place = some (.file content)) :
    entry? (fs.removeFile path) place = none ∧ SameBut [place] fs (fs.removeFile path) := by
  have hdetach : fs.removeFile path = fs.detach place := by
    rw [removeFile, hpath]
    dsimp only
    rw [hfile]
  rw [hdetach]
  exact detach_spec hnamed (by simp [hfile])

/-- A destination is a step into a directory, and not a directory itself.  A name that says it is a
directory, by a slash at its end, is refused as well. -/
theorem eq_ok_of_destination {directory : Location} {name : String} {saysDirectory : Bool}
    (h : fs.destination directory name saysDirectory = .ok place) :
    directory.step name = .ok place ∧ saysDirectory = false ∧
      fs.entry? place ≠ some .directory := by
  rw [FileSystem.destination] at h
  split at h
  · exact absurd h (by simp)
  · next next hstep =>
      split at h
      · exact absurd h (by simp)
      · next hsays =>
          split at h
          · exact absurd h (by simp)
          · next hfile =>
              obtain rfl := Except.ok.inj h
              exact ⟨hstep, eq_false_of_ne_true hsays, hfile⟩

/-- **A file moved:** from where the one path leads to where the other does.  Both are resolved
before anything moves, and afterwards they lead to the same places. -/
theorem rename_spec {source target : String} (hplain : Path.endsInSlash source = false)
    (horigin : fs.resolve source = .ok origin) (hfile : fs.entry? origin = some (.file content))
    (h : fs.rename source target = .ok after)
    (hne : ∀ destination, fs.resolve target = .ok destination → destination ≠ origin) :
    ∃ destination, fs.resolve target = .ok destination ∧
      after.entry? destination = some (.file content) ∧ after.entry? origin = none ∧
        SameBut [origin, destination] fs after := by
  rw [rename] at h
  split at h
  · exact absurd h (by simp)
  · exact absurd h (by simp)
  · next home name directory last hsource htarget =>
      split at h
      · exact absurd h (by simp)
      · next hspecial =>
          rw [Bool.not_eq_true, Bool.or_eq_false_iff] at hspecial
          split at h
          · exact absurd h (by simp)
          · next place hstep =>
              -- The place that the file is taken from is the one that the path leads to.
              obtain rfl : place = origin :=
                Except.ok.inj ((resolve_of_enter hsource hplain hstep).symm.trans horigin)
              rw [hfile] at h
              dsimp only at h
              obtain ⟨destination, hdestination, rfl⟩ := exists_eq_ok_of_map h
              obtain ⟨hlast, hends, hreplaced⟩ := eq_ok_of_destination hdestination
              have hleads := resolve_of_enter htarget hends hlast
              exact ⟨destination, hleads, move_spec (Location.names_ne_nil_of_step hspecial.1 hstep)
                (Location.names_ne_nil_of_step hspecial.2 hlast) (hne destination hleads) hfile
                hreplaced⟩

end FileSystem

end CilRepair
