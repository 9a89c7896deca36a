import CilRepair.Proofs.JsonTokens
import CilRepair.Proofs.TextBytes

/-!
# Text of JSON values

Every value is read back from its text, in either layout.

* `JsonLayout` — where blanks stand in a text; `compactLayout`, `prettyLayout` are the two in use.
* `JsonLayout.chars` — a text in a layout.
* `readValue_chars` — the reader finds the value at the start of its text.
* `ofBytes?_compact`, `ofBytes?_pretty` — whole documents, from their bytes.

## Design notes

The two texts of a value differ in blanks only, and the reader skips blanks.  So there is one
statement with the layout as a parameter, and the texts in use are shown to be two cases of it.

`ValueReads`, `ItemsRead` and `MembersRead` are what the three mutually recursive readers are asked
for, each with whatever follows and with fuel by the length of the text.  One lemma for each way to
build a value goes from the parts to the whole; the recursion over values only puts these together.

A number is the one value without an end of its own, which is why every statement asks that what
follows ends a number.  In a document what follows is a separator, a blank, or nothing.
-/

namespace CilRepair

/-! ### Layouts -/

/-- **Where blanks stand in a text:** in front of each item or member of a container and of the
bracket that closes it, by level, and behind a colon. -/
structure JsonLayout where
  breakAt : Nat → List Char
  afterColon : List Char
  breakAt_blank : ∀ level, ∀ c ∈ breakAt level, isJsonBlank c = true
  afterColon_blank : ∀ c ∈ afterColon, isJsonBlank c = true

namespace JsonLayout

variable (l : JsonLayout)

mutual

/-- **The text of a value** in a layout. -/
def chars (level : Nat) : Json → List Char
  | .null => ['n', 'u', 'l', 'l']
  | .bool true => ['t', 'r', 'u', 'e']
  | .bool false => ['f', 'a', 'l', 's', 'e']
  | .number value => value.chars
  | .string text => quoted text
  | .array [] => ['[', ']']
  | .array (item :: rest) =>
    '[' :: (itemChars (level + 1) (item :: rest) ++ (l.breakAt level ++ [']']))
  | .object [] => ['\x7b', '\x7d']
  | .object (member :: rest) =>
    '\x7b' :: (memberChars (level + 1) (member :: rest) ++ (l.breakAt level ++ ['\x7d']))

/-- The text of items. -/
def itemChars (level : Nat) : List Json → List Char
  | [] => []
  | [item] => l.breakAt level ++ chars level item
  | item :: rest => l.breakAt level ++ (chars level item ++ ',' :: itemChars level rest)

/-- The text of members. -/
def memberChars (level : Nat) : List (Option String × Json) → List Char
  | [] => []
  | [(key, value)] =>
    l.breakAt level ++ (quoted key ++ ':' :: (l.afterColon ++ chars level value))
  | (key, value) :: rest =>
    l.breakAt level ++ (quoted key
      ++ ':' :: (l.afterColon ++ (chars level value ++ ',' :: memberChars level rest)))

end

end JsonLayout

/-- No blanks. -/
def compactLayout : JsonLayout where
  breakAt _ := []
  afterColon := []
  breakAt_blank _ _ h := absurd h List.not_mem_nil
  afterColon_blank _ h := absurd h List.not_mem_nil

/-- A line for each item or member. -/
def prettyLayout : JsonLayout where
  breakAt := Json.lineBreak
  afterColon := [' ']
  breakAt_blank level c h := by
    rcases List.mem_cons.mp h with rfl | h
    · rfl
    · rw [List.eq_of_mem_replicate h]
      rfl
  afterColon_blank c h := by
    rw [List.mem_singleton.mp h]
    rfl

namespace Json

mutual

/-- The text without blanks is a text in a layout. -/
theorem compactChars_eq (level : Nat) : ∀ value : Json,
    value.compactChars = compactLayout.chars level value
  | null | bool true | bool false | number _ | string _ | array [] | object [] => by
      simp [compactChars, JsonLayout.chars, compactItems, compactMembers]
  | array (item :: rest) => by
      rw [compactChars, JsonLayout.chars, compactItems_eq (level + 1) (item :: rest)]
      rfl
  | object (member :: rest) => by
      rw [compactChars, JsonLayout.chars, compactMembers_eq (level + 1) (member :: rest)]
      rfl

theorem compactItems_eq (level : Nat) : ∀ items : List Json,
    compactItems items = compactLayout.itemChars level items
  | [] => by simp [compactItems, JsonLayout.itemChars]
  | [item] => by
      rw [compactItems, JsonLayout.itemChars, compactChars_eq level item]
      rfl
  | item :: next :: rest => by
      rw [compactItems, JsonLayout.itemChars, compactChars_eq level item,
        compactItems_eq level (next :: rest)]
      · rfl
      · simp
      · simp

theorem compactMembers_eq (level : Nat) : ∀ members : List (Option String × Json),
    compactMembers members = compactLayout.memberChars level members
  | [] => by simp [compactMembers, JsonLayout.memberChars]
  | [(key, value)] => by
      rw [compactMembers, JsonLayout.memberChars, compactChars_eq level value]
      rfl
  | (key, value) :: next :: rest => by
      rw [compactMembers, JsonLayout.memberChars, compactChars_eq level value,
        compactMembers_eq level (next :: rest)]
      · rfl
      · simp
      · simp

end

mutual

/-- So is the text with line breaks. -/
theorem prettyChars_eq (level : Nat) : ∀ value : Json,
    value.prettyChars level = prettyLayout.chars level value
  | null | bool true | bool false | number _ | string _ | array [] | object [] => by
      simp [prettyChars, JsonLayout.chars]
  | array (item :: rest) => by
      rw [prettyChars, JsonLayout.chars, prettyItems_eq (level + 1) (item :: rest),
        List.append_assoc]
      · rfl
      · simp
  | object (member :: rest) => by
      rw [prettyChars, JsonLayout.chars, prettyMembers_eq (level + 1) (member :: rest),
        List.append_assoc]
      · rfl
      · simp

theorem prettyItems_eq (level : Nat) : ∀ items : List Json,
    prettyItems level items = prettyLayout.itemChars level items
  | [] => by simp [prettyItems, JsonLayout.itemChars]
  | [item] => by
      rw [prettyItems, JsonLayout.itemChars, prettyChars_eq level item]
      rfl
  | item :: next :: rest => by
      rw [prettyItems, JsonLayout.itemChars, prettyChars_eq level item,
        prettyItems_eq level (next :: rest), List.append_assoc]
      · rfl
      · simp
      · simp

theorem prettyMembers_eq (level : Nat) : ∀ members : List (Option String × Json),
    prettyMembers level members = prettyLayout.memberChars level members
  | [] => by simp [prettyMembers, JsonLayout.memberChars]
  | [(key, value)] => by
      rw [prettyMembers, JsonLayout.memberChars, prettyChars_eq level value, List.append_assoc]
      rfl
  | (key, value) :: next :: rest => by
      rw [prettyMembers, JsonLayout.memberChars, prettyChars_eq level value,
        prettyMembers_eq level (next :: rest), List.append_assoc]
      · rfl
      · simp
      · simp

end

end Json

/-! ### Blanks -/

/-- Blanks are skipped, and then what follows. -/
theorem skipBlanks_append {blanks : List Char} (h : ∀ c ∈ blanks, isJsonBlank c = true)
    (input : Glyphs) : skipBlanks (blanks.map some ++ input) = skipBlanks input := by
  induction blanks with
  | nil => rfl
  | cons c blanks ih =>
      rw [List.map_cons, List.cons_append, skipBlanks, if_pos (h c List.mem_cons_self)]
      exact ih fun c hc => h c (List.mem_cons_of_mem _ hc)

theorem skipBlanks_cons {c : Char} (h : isJsonBlank c = false) (input : Glyphs) :
    skipBlanks (some c :: input) = some c :: input := by
  rw [skipBlanks, h, if_neg Bool.false_ne_true]

/-- What a text begins with is no blank and closes no array. -/
theorem exists_chars (l : JsonLayout) (level : Nat) (value : Json) :
    ∃ c tail, l.chars level value = c :: tail ∧ isJsonBlank c = false ∧ c ≠ ']' := by
  match value with
  | .null | .bool true | .bool false | .string _ | .array [] | .object [] | .array (_ :: _)
  | .object (_ :: _) =>
    rw [JsonLayout.chars]
    exact ⟨_, _, rfl, by decide, by decide⟩
  | .number n =>
    obtain ⟨c, hc, tail, heq⟩ := n.exists_chars
    have hstarts : JsonNumber.starts.all fun c => isJsonBlank c = false ∧ c ≠ ']' := by decide
    exact ⟨c, tail, heq, of_decide_eq_true (List.all_eq_true.mp hstarts c hc)⟩

/-- A value is found behind blanks, for its text does not begin with one. -/
theorem skipBlanks_chars (l : JsonLayout) (level : Nat) (value : Json) {blanks : List Char}
    (h : ∀ c ∈ blanks, isJsonBlank c = true) (rest : Glyphs) :
    skipBlanks ((blanks ++ l.chars level value).map some ++ rest) =
      (l.chars level value).map some ++ rest := by
  obtain ⟨c, tail, heq, hblank, -⟩ := exists_chars l level value
  rw [List.map_append, List.append_assoc, skipBlanks_append h, heq, List.map_cons, List.cons_append,
    skipBlanks_cons hblank]

/-! ### Reading -/

namespace Json

/-- What begins like a number is read as one: none of the other values begins with a digit or a
sign. -/
theorem readValue_of_starts {c : Char} (h : c ∈ JsonNumber.starts) (fuel : Nat) (input : Glyphs) :
    readValue (fuel + 1) (some c :: input) =
      (readNumber? (some c :: input)).map fun (value, rest) => (number value, rest) := by
  have hstarts : JsonNumber.starts.all fun c =>
      c ≠ 'n' ∧ c ≠ 't' ∧ c ≠ 'f' ∧ c ≠ '"' ∧ c ≠ '[' ∧ c ≠ '\x7b' := by decide
  obtain ⟨hn, ht, hf, hquote, harray, hobject⟩ :=
    of_decide_eq_true (List.all_eq_true.mp hstarts c h)
  rw [readValue]
  all_goals intro rest heq
  all_goals have hc := Option.some.inj (List.cons.inj heq).1
  · exact hn hc
  · exact ht hc
  · exact hf hc
  · exact hquote hc
  · exact harray hc
  · exact hobject hc

/-- What may stand behind a value. -/
def separators : List Char := [',', ']', '\x7d', ' ', '\n', '\t', '\r']

theorem mem_separators_of_blank {c : Char} (h : isJsonBlank c = true) : c ∈ separators := by
  simp only [isJsonBlank, Bool.or_eq_true, beq_iff_eq] at h
  rcases h with ((rfl | rfl) | rfl) | rfl <;> decide

/-- A separator is no part of a number. -/
theorem endsNumber_cons {c : Char} (h : c ∈ separators) (rest : Glyphs) :
    EndsNumber (some c :: rest) := by
  have hends : separators.all fun c =>
      Digit.ofChar? c = none ∧ c ≠ '.' ∧ c ≠ 'e' ∧ c ≠ 'E' := by decide
  rintro c' rest' heq
  obtain rfl := Option.some.inj (List.cons.inj heq).1
  exact of_decide_eq_true (List.all_eq_true.mp hends c h)

/-- Blanks and what stands behind them end a number. -/
theorem endsNumber_append {blanks : List Char} (hblank : ∀ c ∈ blanks, isJsonBlank c = true)
    {c : Char} (h : c ∈ separators) (rest : Glyphs) :
    EndsNumber (blanks.map some ++ some c :: rest) := by
  cases blanks with
  | nil => exact endsNumber_cons h rest
  | cons blank blanks =>
      exact endsNumber_cons (mem_separators_of_blank (hblank blank List.mem_cons_self)) _

section Steps

variable (l : JsonLayout) (level : Nat)

/-- **The reader finds the value at the start of its text,** whatever follows. -/
def ValueReads (value : Json) : Prop :=
  ∀ (rest : Glyphs) (fuel : Nat), EndsNumber rest → 2 * (l.chars level value).length ≤ fuel + 1 →
    readValue fuel ((l.chars level value).map some ++ rest) = some (value, rest)

/-- The reader finds the items of an array. -/
def ItemsRead (items : List Json) : Prop :=
  ∀ (blanks : List Char) (rest : Glyphs) (fuel : Nat), (∀ c ∈ blanks, isJsonBlank c = true) →
    2 * (l.itemChars level items).length ≤ fuel →
    readItems fuel (skipBlanks ((l.itemChars level items).map some ++
      (blanks.map some ++ some ']' :: rest))) = some (items, rest)

/-- The reader finds the members of an object. -/
def MembersRead (members : List (Option String × Json)) : Prop :=
  ∀ (blanks : List Char) (rest : Glyphs) (fuel : Nat), (∀ c ∈ blanks, isJsonBlank c = true) →
    2 * (l.memberChars level members).length ≤ fuel →
    readMembers fuel (skipBlanks ((l.memberChars level members).map some ++
      (blanks.map some ++ some '\x7d' :: rest))) = some (members, rest)

variable {l level} {item next value : Json} {items : List Json} {key : Option String}
  {member : Option String × Json} {members : List (Option String × Json)}

/-- A number is read up to its end. -/
theorem valueReads_number (n : JsonNumber) : ValueReads l level (number n) := by
  intro rest fuel hrest hfuel
  obtain ⟨c, hc, tail, heq⟩ := n.exists_chars
  have hread := JsonNumber.readNumber?_chars n hrest
  rw [JsonLayout.chars, heq, List.length_cons] at hfuel
  obtain ⟨fuel, rfl⟩ : ∃ f, fuel = f + 1 := ⟨fuel - 1, by omega⟩
  rw [heq, List.map_cons, List.cons_append] at hread
  rw [JsonLayout.chars, heq, List.map_cons, List.cons_append, readValue_of_starts hc, hread]
  rfl

/-- A string ends with its quote. -/
theorem valueReads_string (text : Option String) : ValueReads l level (string text) := by
  intro rest fuel _ hfuel
  rw [JsonLayout.chars, quoted, List.length_cons] at hfuel
  obtain ⟨fuel, rfl⟩ : ∃ f, fuel = f + 1 := ⟨fuel - 1, by omega⟩
  rw [JsonLayout.chars, quoted, List.map_cons, List.cons_append, readValue, List.map_append,
    List.append_assoc]
  exact congrArg _ (readLiteral?_literalChars text rest)

theorem skipBlanks_itemChars_singleton (rest : Glyphs) :
    skipBlanks ((l.itemChars level [item]).map some ++ rest) =
      (l.chars level item).map some ++ rest := by
  rw [JsonLayout.itemChars, skipBlanks_chars l level item (l.breakAt_blank level)]

theorem itemChars_cons_cons :
    l.itemChars level (item :: next :: items) =
      (l.breakAt level ++ l.chars level item) ++ ',' :: l.itemChars level (next :: items) := by
  rw [JsonLayout.itemChars, List.append_assoc]
  exact List.cons_ne_nil next items

theorem skipBlanks_itemChars_cons (rest : Glyphs) :
    skipBlanks ((l.itemChars level (item :: next :: items)).map some ++ rest) =
      (l.chars level item).map some ++
        some ',' :: ((l.itemChars level (next :: items)).map some ++ rest) := by
  rw [itemChars_cons_cons, List.map_append, List.append_assoc,
    skipBlanks_chars l level item (l.breakAt_blank level)]
  rfl

/-- Items begin with their first item. -/
theorem exists_itemChars (l : JsonLayout) (level : Nat) (item : Json) (items : List Json)
    (rest : Glyphs) : ∃ c tail, c ≠ ']' ∧
      skipBlanks ((l.itemChars level (item :: items)).map some ++ rest) = some c :: tail := by
  obtain ⟨c, tail, heq, -, hne⟩ := exists_chars l level item
  cases items with
  | nil =>
      rw [skipBlanks_itemChars_singleton, heq]
      exact ⟨c, _, hne, rfl⟩
  | cons next items =>
      rw [skipBlanks_itemChars_cons, heq]
      exact ⟨c, _, hne, rfl⟩

/-- From the items to the array.  The closing bracket stands behind the blanks of the outer
level. -/
theorem valueReads_array (h : ItemsRead l (level + 1) (item :: items)) :
    ValueReads l level (array (item :: items)) := by
  intro rest fuel _ hfuel
  rw [JsonLayout.chars, List.length_cons, List.length_append] at hfuel
  obtain ⟨fuel, rfl⟩ : ∃ f, fuel = f + 1 := ⟨fuel - 1, by omega⟩
  have hitems := h (l.breakAt level) rest fuel (l.breakAt_blank level) (by omega)
  obtain ⟨c, tail, hne, hfirst⟩ := exists_itemChars l (level + 1) item items
    ((l.breakAt level).map some ++ some ']' :: rest)
  rw [JsonLayout.chars, List.map_cons, List.cons_append, readValue, List.map_append,
    List.append_assoc, List.map_append, List.append_assoc, List.map_singleton,
    List.singleton_append]
  rw [hfirst] at hitems ⊢
  split
  · next heq => exact absurd (Option.some.inj (List.cons.inj heq).1) hne
  · rw [hitems]
    rfl

/-- The last item, behind which the array is closed. -/
theorem itemsRead_singleton (h : ValueReads l level item) : ItemsRead l level [item] := by
  intro blanks rest fuel hblanks hfuel
  obtain ⟨c, tail, heq, -, -⟩ := exists_chars l level item
  have hpos : 0 < (l.chars level item).length := heq ▸ Nat.succ_pos tail.length
  rw [JsonLayout.itemChars, List.length_append] at hfuel
  obtain ⟨fuel, rfl⟩ : ∃ f, fuel = f + 1 := ⟨fuel - 1, by omega⟩
  rw [skipBlanks_itemChars_singleton, readItems,
    h _ fuel (endsNumber_append hblanks (by decide) rest) (by omega)]
  dsimp only
  rw [skipBlanks_append hblanks, skipBlanks_cons (by decide)]
  rfl

/-- An item in front of others, with a comma between. -/
theorem itemsRead_cons (h : ValueReads l level item) (hrest : ItemsRead l level (next :: items)) :
    ItemsRead l level (item :: next :: items) := by
  intro blanks rest fuel hblanks hfuel
  rw [itemChars_cons_cons, List.length_append, List.length_append, List.length_cons] at hfuel
  obtain ⟨fuel, rfl⟩ : ∃ f, fuel = f + 1 := ⟨fuel - 1, by omega⟩
  rw [skipBlanks_itemChars_cons, readItems, h _ fuel (endsNumber_cons (by decide) _) (by omega)]
  dsimp only
  rw [skipBlanks_cons (by decide)]
  exact congrArg (Option.map fun read => (item :: read.1, read.2))
    (hrest blanks rest fuel hblanks (by omega))

/-- The text of a member without the blanks in front of it. -/
def memberText (l : JsonLayout) (level : Nat) (key : Option String) (value : Json) : List Char :=
  '"' :: (literalChars key ++ '"' :: ':' :: (l.afterColon ++ l.chars level value))

theorem memberChars_singleton :
    l.memberChars level [(key, value)] = l.breakAt level ++ memberText l level key value := by
  rw [JsonLayout.memberChars, quoted, memberText]
  simp

theorem memberChars_cons_cons :
    l.memberChars level ((key, value) :: member :: members) =
      (l.breakAt level ++ memberText l level key value) ++
        ',' :: l.memberChars level (member :: members) := by
  rw [JsonLayout.memberChars, quoted, memberText]
  · simp
  · exact List.cons_ne_nil member members

/-- A member begins with a quote, so that blanks in front of it are all that is skipped. -/
theorem skipBlanks_memberText (rest : Glyphs) :
    skipBlanks ((l.breakAt level ++ memberText l level key value).map some ++ rest) =
      (memberText l level key value).map some ++ rest := by
  rw [List.map_append, List.append_assoc, skipBlanks_append (l.breakAt_blank level), memberText,
    List.map_cons, List.cons_append, skipBlanks_cons (by decide)]

/-- Members begin with a quote. -/
theorem exists_memberChars (l : JsonLayout) (level : Nat) (member : Option String × Json)
    (members : List (Option String × Json)) (rest : Glyphs) : ∃ tail,
      skipBlanks ((l.memberChars level (member :: members)).map some ++ rest) =
        some '"' :: tail := by
  obtain ⟨key, value⟩ := member
  cases members with
  | nil =>
      rw [memberChars_singleton, skipBlanks_memberText]
      exact ⟨_, rfl⟩
  | cons next members =>
      rw [memberChars_cons_cons, List.map_append, List.append_assoc, skipBlanks_memberText]
      exact ⟨_, rfl⟩

/-- From the members to the object. -/
theorem valueReads_object (h : MembersRead l (level + 1) (member :: members)) :
    ValueReads l level (object (member :: members)) := by
  intro rest fuel _ hfuel
  rw [JsonLayout.chars, List.length_cons, List.length_append] at hfuel
  obtain ⟨fuel, rfl⟩ : ∃ f, fuel = f + 1 := ⟨fuel - 1, by omega⟩
  have hmembers := h (l.breakAt level) rest fuel (l.breakAt_blank level) (by omega)
  obtain ⟨tail, hfirst⟩ := exists_memberChars l (level + 1) member members
    ((l.breakAt level).map some ++ some '\x7d' :: rest)
  rw [JsonLayout.chars, List.map_cons, List.cons_append, readValue, List.map_append,
    List.append_assoc, List.map_append, List.append_assoc, List.map_singleton,
    List.singleton_append]
  rw [hfirst] at hmembers ⊢
  exact congrArg (Option.map fun read => (object read.1, read.2)) hmembers

/-- The reader finds a key and the value behind it, and then goes by what comes next: a brace, a
comma, or something that it refuses. -/
theorem readMembers_memberText (h : ValueReads l level value) {fuel : Nat}
    (hfuel : 2 * (l.chars level value).length ≤ fuel + 1) {rest : Glyphs}
    (hrest : EndsNumber rest) :
    readMembers (fuel + 1) ((memberText l level key value).map some ++ rest) =
    match skipBlanks rest with
    | some '\x7d' :: rest => some ([(key, value)], rest)
    | some ',' :: rest =>
      (readMembers fuel (skipBlanks rest)).map fun (members, rest) =>
        ((key, value) :: members, rest)
    | _ => none := by
  rw [memberText, List.map_cons, List.cons_append, List.map_append, List.append_assoc,
    List.map_cons, List.map_cons, List.cons_append, List.cons_append, readMembers,
    readLiteral?_literalChars]
  dsimp only
  rw [skipBlanks_cons (by decide)]
  simp only
  -- What is left is the same match on both sides.
  rewrite [skipBlanks_chars l level value l.afterColon_blank, h rest fuel hrest hfuel]
  rfl

/-- The last member, behind which the object is closed. -/
theorem membersRead_singleton (h : ValueReads l level value) :
    MembersRead l level [(key, value)] := by
  intro blanks rest fuel hblanks hfuel
  rw [memberChars_singleton, memberText] at hfuel
  simp only [List.length_append, List.length_cons] at hfuel
  obtain ⟨fuel, rfl⟩ : ∃ f, fuel = f + 1 := ⟨fuel - 1, by omega⟩
  rw [memberChars_singleton, skipBlanks_memberText, readMembers_memberText h (by omega)
    (endsNumber_append hblanks (by decide) rest), skipBlanks_append hblanks,
    skipBlanks_cons (by decide)]
  rfl

/-- A member in front of others, with a comma between. -/
theorem membersRead_cons (h : ValueReads l level value)
    (hrest : MembersRead l level (member :: members)) :
    MembersRead l level ((key, value) :: member :: members) := by
  intro blanks rest fuel hblanks hfuel
  rw [memberChars_cons_cons, memberText] at hfuel
  simp only [List.length_append, List.length_cons] at hfuel
  obtain ⟨fuel, rfl⟩ : ∃ f, fuel = f + 1 := ⟨fuel - 1, by omega⟩
  rw [memberChars_cons_cons, List.map_append, List.append_assoc, skipBlanks_memberText,
    List.map_cons, List.cons_append,
    readMembers_memberText h (by omega) (endsNumber_cons (by decide) _),
    skipBlanks_cons (by decide)]
  exact congrArg (Option.map fun read => ((key, value) :: read.1, read.2))
    (hrest blanks rest fuel hblanks (by omega))

end Steps

/-! ### Documents -/

section Documents

variable (l : JsonLayout)

mutual

/-- **A value is read back from its text.**  By recursion over the value, with its items and members
alongside; each case is one of the lemmas above. -/
theorem readValue_chars (level : Nat) : ∀ value : Json, ValueReads l level value
  | null | bool true | bool false | array [] | object [] => by
      intro rest fuel _ hfuel
      rw [JsonLayout.chars] at hfuel ⊢
      simp only [List.length_cons, List.length_nil] at hfuel
      obtain ⟨fuel, rfl⟩ : ∃ f, fuel = f + 1 := ⟨fuel - 1, by omega⟩
      rw [List.map_cons, List.cons_append, readValue]
      rfl
  | number n => valueReads_number n
  | string text => valueReads_string text
  | array (item :: items) =>
      valueReads_array (readItems_chars (level + 1) (item :: items) (List.cons_ne_nil item items))
  | object (member :: members) =>
      valueReads_object
        (readMembers_chars (level + 1) (member :: members) (List.cons_ne_nil member members))

theorem readItems_chars (level : Nat) : ∀ items : List Json, items ≠ [] → ItemsRead l level items
  | [], h => absurd rfl h
  | [item], _ => itemsRead_singleton (readValue_chars level item)
  | item :: next :: items, _ =>
      itemsRead_cons (readValue_chars level item)
        (readItems_chars level (next :: items) (List.cons_ne_nil next items))

theorem readMembers_chars (level : Nat) : ∀ members : List (Option String × Json),
    members ≠ [] → MembersRead l level members
  | [], h => absurd rfl h
  | [(_, value)], _ => membersRead_singleton (readValue_chars level value)
  | (_, value) :: next :: members, _ =>
      membersRead_cons (readValue_chars level value)
        (readMembers_chars level (next :: members) (List.cons_ne_nil next members))

end

theorem endsNumber_nil : EndsNumber [] := fun _ _ heq => absurd heq.symm (List.cons_ne_nil _ _)

/-- A document is read back from its text: the fuel of a document is enough, and nothing follows
it. -/
theorem read?_chars (value : Json) : read? ((l.chars 0 value).map some) = some value := by
  have hread := readValue_chars l 0 value [] (2 * ((l.chars 0 value).map some).length + 1)
    endsNumber_nil (by rw [List.length_map]; omega)
  have hskip := skipBlanks_chars l 0 value (List.forall_mem_nil _) []
  rw [List.nil_append, List.append_nil] at hskip
  rw [List.append_nil] at hread
  rw [read?, hskip, hread]
  rfl

/-- **Every value is read back from the bytes of its text without blanks.** -/
theorem ofBytes?_compact (value : Json) : ofBytes? (utf8 value.compact) = some value := by
  rw [ofBytes?, glyphs_utf8, compact, String.toList_ofList, compactChars_eq 0, read?_chars]

/-- **Every value is read back from the bytes of its text with line breaks.** -/
theorem ofBytes?_pretty (value : Json) : ofBytes? (utf8 value.pretty) = some value := by
  rw [ofBytes?, glyphs_utf8, pretty, String.toList_ofList, prettyChars_eq, read?_chars]

end Documents

end Json

end CilRepair
