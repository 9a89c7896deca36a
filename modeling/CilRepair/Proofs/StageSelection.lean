import CilRepair.Proofs.Lists
import CilRepair.Proofs.SplitText
import CilRepair.Proofs.StageRegistration

/-!
# Selected stages

A text selects stages by their names, and two kinds of names stand for others: that of all stages,
wherever it is listed, and those of presets, which count only if they are the whole text.  A
selection is then read in two steps: which names the text lists, and which stages are registered
under them.

* `listedNames` — the names that a text lists; blanks around the text make no difference to them.
* `expand_fst`, `resolve_fst` — the two steps.
* `StageRegistry.Serves` — what a registry has to do after some registrations.
* `StageRegistry.registerAll_serves` — every registry does it, with or without the built-in stages.

## Design notes

What a text lists does not depend on the registry, apart from the name of all stages.  So the names
that are listed come first, as a function of the text alone, and the registry expands them.

Presets are a table here and a match on texts in the code.  They count only for a whole text,
trimmed on both sides; a number among other pieces is a name like any other, and no built-in stage
has it.

`Serves` is a structure, because the behaviour of a registry is one thing with several parts: a
change of the registry that breaks one of them should break one clause.
-/

namespace CilRepair

/-! ### The names that a text lists -/

/-- The pieces of a text between commas, trimmed and in lower case, without the blank ones. -/
def pieceNames (text : String) : List String :=
  ((splitText ',' text).map fun piece => lowerAscii (trimText piece)).filter (!·.isEmpty)

/-- What a whole text may stand for: nothing but blanks, and the numbers of presets. -/
def presets : List (String × List String) :=
  [("", ["rename"]), ("1", ["rename"]), ("2", ["rename", "fold"]), ("3", ["rename", "nops"]),
    ("4", ["full"])]

/-- **The names that a text lists.** -/
def listedNames (text : String) : List String :=
  (presets.lookup (trimText text)).getD (pieceNames text)

theorem trimText_trimText (text : String) : trimText (trimText text) = trimText text := by
  rw [trimText, trimText, String.toList_ofList, trim_trim]

theorem pieceNames_eq (text : String) :
    pieceNames text = (((splitAtEach ',' text.toList).map trim).map fun piece =>
      lowerAscii (String.ofList piece)).filter (!·.isEmpty) := by
  rw [pieceNames, splitText, List.map_map, List.map_map]
  refine congrArg (List.filter _) (List.map_congr_left fun piece _ => ?_)
  rw [Function.comp_apply, Function.comp_apply, trimText, String.toList_ofList]

/-- Blanks around a text make no difference to its pieces. -/
theorem pieceNames_trimText (text : String) : pieceNames (trimText text) = pieceNames text := by
  rw [pieceNames_eq, pieceNames_eq, trimText, String.toList_ofList, map_trim_splitAtEach_trim rfl]

/-- The text that is cut into pieces: the default for a blank text, what a preset stands for, or the
text itself. -/
def writtenOut (text : String) : String :=
  let selection := if (trimText text).isEmpty then defaultSelection else trimText text
  (expandPreset? selection).getD selection

/-- A text that is no preset is taken as it is, trimmed. -/
theorem writtenOut_of_lookup {text : String} (h : presets.lookup (trimText text) = none) :
    writtenOut text = trimText text := by
  simp only [presets, List.lookup_eq_none_iff, List.forall_mem_cons, bne_iff_ne] at h
  obtain ⟨hblank, hone, htwo, hthree, hfour, -⟩ := h
  have hpreset : expandPreset? (trimText text) = none := by
    rw [expandPreset?, trimText_trimText]
    split
    exacts [absurd ‹_› hone, absurd ‹_› htwo, absurd ‹_› hthree, absurd ‹_› hfour, rfl]
  have hsome : ¬ (trimText text).isEmpty = true := by simpa using hblank
  rw [writtenOut, if_neg hsome, hpreset, Option.getD_none]

/-- **The pieces of the text that is written out are the names that are listed.**  The table of
presets is gone through once, and each is its own text. -/
theorem pieceNames_writtenOut (text : String) :
    pieceNames (writtenOut text) = listedNames text := by
  rw [listedNames]
  cases hpreset : presets.lookup (trimText text) with
  | none =>
      rw [writtenOut_of_lookup hpreset, pieceNames_trimText, Option.getD_none]
  | some names =>
      have hmem := mem_of_lookup hpreset
      simp only [presets, List.mem_cons, Prod.mk.injEq, List.not_mem_nil, or_false] at hmem
      rw [writtenOut, Option.getD_some]
      rcases hmem with ⟨ht, rfl⟩ | ⟨ht, rfl⟩ | ⟨ht, rfl⟩ | ⟨ht, rfl⟩ | ⟨ht, rfl⟩ <;>
        (rw [ht]; decide +kernel)

example : listedNames " NOPS ,, Full" = ["nops", "full"] ∧ listedNames " 2 " = ["rename", "fold"] ∧
    listedNames "2,4" = ["2", "4"] := by
  decide +kernel

namespace StageRegistry

variable {σ : Type} (r : StageRegistry σ)

/-! ### Names expanded -/

/-- What a name stands for in a registry. -/
def expandName (name : String) : List String :=
  if name = fullSelection then r.names else [name]

/-- Pieces are trimmed and put in lower case one by one, blank ones stand for nothing, and what is
left is expanded as a name. -/
theorem flatMap_expandPiece (pieces : List String) :
    pieces.flatMap r.expandPiece =
      ((pieces.map fun piece => lowerAscii (trimText piece)).filter
        (!·.isEmpty)).flatMap r.expandName := by
  induction pieces with
  | nil => simp only [List.flatMap_nil, List.map_nil, List.filter_nil]
  | cons piece pieces ih =>
      rw [List.flatMap_cons, ih, List.map_cons, List.filter_cons, expandPiece]
      cases (lowerAscii (trimText piece)).isEmpty with
      | true => simp
      | false => simp [expandName]

/-- **A text selects what its names stand for.** -/
theorem expand_fst (text : String) :
    (r.expand text).1 = (listedNames text).flatMap r.expandName := by
  have hexpand : (r.expand text).1 = (splitText ',' (writtenOut text)).flatMap r.expandPiece := by
    unfold expand writtenOut
    dsimp only
    split <;> rfl
  rw [hexpand, flatMap_expandPiece, ← pieceNames, pieceNames_writtenOut]

/-! ### Stages found -/

/-- The names that are found, in order; the others are left out. -/
theorem createAll_fst (names : List String) : (r.createAll names).1 = names.filterMap r.find? := by
  induction names with
  | nil => rfl
  | cons name rest ih =>
      rw [createAll, List.filterMap_cons, ← ih, create]
      cases r.find? name <;> rfl

/-- **A text that selects no stage is an error, and no other is.**  An unknown name is none as long
as another one is known. -/
theorem resolve_fst (text : String) :
    (r.resolve text).1 =
      let stages := (r.expand text).1.filterMap r.find?
      if stages.isEmpty then .error .noStages else .ok stages := by
  rw [← createAll_fst, resolve]
  dsimp only
  split <;> rfl

/-! ### After registrations -/

/-- **What a registry does after some registrations.**  Names are compared without regard to case.
* Its names are the registered ones, each where and as it was first registered; no two are alike.
* A name leads to the stage last registered under it, and a name without one is unknown.
* A text selects the names that it lists, and that of all stages, wherever it is listed, stands for
  every registered name; so it contributes every registered stage once.
* The stages of a text are those of the names that it selects, in order and as often as they are
  selected, the unknown names left out; it is an error just if all are unknown. -/
structure Serves (registrations : List (String × Stage σ)) : Prop where
  names_eq : r.names = (registrations.map (·.1)).eraseDupsBy sameIgnoringCase
  names_distinct : r.names.Pairwise fun a b => sameIgnoringCase a b = false
  create_eq : ∀ name, r.create name =
    match latest? registrations name with
    | some stage => .ok stage
    | none => .error (.unknownStage name)
  expand_eq : ∀ text, (r.expand text).1 =
    (listedNames text).flatMap fun name => if name = fullSelection then r.names else [name]
  full_once : r.names.filterMap (latest? registrations) = r.entries.map (·.2)
  resolve_eq : ∀ text, (r.resolve text).1 =
    let stages := (r.expand text).1.filterMap (latest? registrations)
    if stages.isEmpty then .error .noStages else .ok stages
  resolve_error_iff : ∀ text, (r.resolve text).1 = .error .noStages ↔
    ∀ name ∈ (r.expand text).1, latest? registrations name = none

variable {r}

/-- The two views of a registry are all that its service depends on.  Each clause follows from what
a name finds, from the list of names, or from both. -/
theorem serves_of_find? {registrations : List (String × Stage σ)} (h : r.Unambiguous)
    (hnames : r.names = (registrations.map (·.1)).eraseDupsBy sameIgnoringCase)
    (hfind : r.find? = latest? registrations) : r.Serves registrations where
  names_eq := hnames
  names_distinct := h
  create_eq name := by
    rw [← hfind]
    rfl
  expand_eq := r.expand_fst
  full_once := by
    have hfull := congrArg (List.filterMap id) h.map_find?_names
    rw [← hfind]
    simpa only [List.filterMap_map, Function.id_comp, Function.comp_def, id_eq,
      List.filterMap_eq_map'] using hfull
  resolve_eq text := by
    rw [← hfind]
    exact r.resolve_fst text
  resolve_error_iff text := by
    rw [r.resolve_fst, ← hfind, ← List.filterMap_eq_nil_iff, ← List.isEmpty_iff]
    dsimp only
    split
    · next hnone => exact iff_of_true rfl hnone
    · next hsome => exact iff_of_false (by simp) hsome

/-- The built-in stages, as they are registered. -/
def builtinRegistrations [DrawSource σ] : List (String × Stage σ) :=
  builtinStages.map fun stage => (stage.name, stage)

theorem registerAll_append (r : StageRegistry σ) (first second : List (String × Stage σ)) :
    r.registerAll (first ++ second) = (r.registerAll first).registerAll second :=
  List.foldl_append

/-- The registry of built-in stages is made by registrations like any other. -/
theorem builtin_eq [DrawSource σ] :
    (builtin : StageRegistry σ) = empty.registerAll builtinRegistrations := by
  rw [builtin, registerAll, builtinRegistrations, List.foldl_map]

/-- Hence the registrations behind an empty registry are all there is to know. -/
theorem serves_registerAll_empty (registrations : List (String × Stage σ)) :
    (empty.registerAll registrations).Serves registrations := by
  have hempty : (empty : StageRegistry σ).names = [] := rfl
  refine serves_of_find? (unambiguous_empty.registerAll registrations) ?_ ?_
  · rw [names_registerAll, hempty, List.nil_append]
    simp only [List.any_nil, Bool.not_false, List.filter_true]
  · funext name
    rw [find?_registerAll]
    exact Option.or_none

/-- **A registry serves whatever was registered,** with or without the built-in stages before. -/
theorem registerAll_serves [DrawSource σ] (registrations : List (String × Stage σ)) :
    (empty.registerAll registrations).Serves registrations ∧
      (builtin.registerAll registrations).Serves (builtinRegistrations ++ registrations) := by
  refine ⟨serves_registerAll_empty registrations, ?_⟩
  rw [builtin_eq, ← registerAll_append]
  exact serves_registerAll_empty _

end StageRegistry

end CilRepair
