import DualPackage.Config.Json
import DualPackage.Proofs.Json.Scalars
import DualPackage.Run.Marker
import Mathlib.Data.List.DropRight
/-!
# What is written is read back

A value is exact if a text can tell it as it is: its numbers are integers that
64 bits hold, and no object has a key twice. An exact value that is not nested
deeper than the reader goes is read back from what is written of it, its fields
in the same order (`parse_pretty`). The induction is on the value; that the
items of an array and the fields of an object are read back if each of them is,
is shown of the reader's loops beforehand. Whatever the program writes is exact
and shallow, so it denotes what it was made from (`written_reads_back`).
-/

namespace DualPackage

namespace Json

/-! ## Exact values -/

/-- The values that are told exactly by a text. -/
inductive Value.Exact : Value → Prop where
  | null : Exact .null
  | bool (b : Bool) : Exact (.bool b)
  | integer (i : ℤ) : InWord i → Exact (.number (.integer i))
  | string (s : String) : Exact (.string s)
  | array (items : List Value) : (∀ item ∈ items, item.Exact) → Exact (.array items)
  | object (fields : List (String × Value)) : (fields.map Prod.fst).Nodup →
      (∀ field ∈ fields, field.2.Exact) → Exact (.object fields)

mutual

/-- How many arrays and objects stand inside each other. -/
def Value.nesting : Value → ℕ
  | .array items => nestingOfItems items + 1
  | .object fields => nestingOfFields fields + 1
  | .null | .bool _ | .number _ | .string _ => 0

/-- The deepest nesting among the items of an array. -/
def nestingOfItems : List Value → ℕ
  | [] => 0
  | item :: items => max item.nesting (nestingOfItems items)

/-- The deepest nesting among the fields of an object. -/
def nestingOfFields : List (String × Value) → ℕ
  | [] => 0
  | (_, value) :: fields => max value.nesting (nestingOfFields fields)

end

variable {v : Value} {items : List Value} {fields read : List (String × Value)} {key : String}
  {rest : List Char} {n bound depth : ℕ}

theorem nesting_le_of_mem_items (h : v ∈ items) : v.nesting ≤ nestingOfItems items := by
  induction items with
  | nil => cases h
  | cons item items ih =>
    rw [nestingOfItems]
    rcases List.mem_cons.1 h with rfl | h
    · exact le_max_left _ _
    · exact (ih h).trans (le_max_right _ _)

theorem nesting_le_of_mem_fields {field : String × Value} (h : field ∈ fields) :
    field.2.nesting ≤ nestingOfFields fields := by
  induction fields with
  | nil => cases h
  | cons field' fields ih =>
    rw [nestingOfFields]
    rcases List.mem_cons.1 h with rfl | h
    · exact le_max_left _ _
    · exact (ih h).trans (le_max_right _ _)

/-! ## White space -/

theorem skipSpace_newLine (depth : ℕ) (text : List Char) :
    skipSpace (newLine depth ++ text) = skipSpace text := by
  have hspace : ∀ c ∈ newLine depth, isSpace c = true := by
    simp [newLine, isSpace]
  exact List.dropWhile_append_of_pos hspace

theorem skipSpace_cons {c : Char} (h : isSpace c = false) (text : List Char) :
    skipSpace (c :: text) = c :: text := by
  simp [skipSpace, h]

theorem readValue_skipSpace (text : List Char) :
    readValue n (skipSpace text) = readValue n text := by
  have hskip : skipSpace (skipSpace text) = skipSpace text := List.dropWhile_idempotent _ _
  unfold readValue
  rw [hskip]

theorem ends_newLine (depth : ℕ) (text : List Char) : Ends (newLine depth ++ text) := by
  rw [newLine, List.cons_append, ends_cons]
  decide

theorem ends_itemsText (depth outer : ℕ) (items : List Value) (text : List Char) :
    Ends (itemsText depth items ++ (newLine outer ++ text)) := by
  cases items with
  | nil => exact ends_newLine outer text
  | cons item items =>
    simp only [itemsText, List.cons_append, ends_cons]
    decide

theorem ends_fieldsText (depth outer : ℕ) (fields : List (String × Value)) (text : List Char) :
    Ends (fieldsText depth fields ++ (newLine outer ++ text)) := by
  cases fields with
  | nil => exact ends_newLine outer text
  | cons field fields =>
    simp only [fieldsText, List.cons_append, ends_cons]
    decide

/-! ## Scalars -/

theorem readValue_null (text : List Char) :
    readValue n ('n' :: 'u' :: 'l' :: 'l' :: text) = .ok (.null, text) := by
  cases n <;> rfl

theorem readValue_true (text : List Char) :
    readValue n ('t' :: 'r' :: 'u' :: 'e' :: text) = .ok (.bool true, text) := by
  cases n <;> rfl

theorem readValue_false (text : List Char) :
    readValue n ('f' :: 'a' :: 'l' :: 's' :: 'e' :: text) = .ok (.bool false, text) := by
  cases n <;> rfl

theorem readValue_quote (text : List Char) :
    readValue n ('"' :: text) = readString text >>= fun read => .ok (.string read.1, read.2) := by
  cases n <;> rfl

theorem readValue_minus (text : List Char) :
    readValue n ('-' :: text) =
      readNumber true text >>= fun read => .ok (.number read.1, read.2) := by
  cases n <;> rfl

theorem isSpace_of_isDigit {c : Char} (hc : c.isDigit) : isSpace c = false := by
  by_contra hspace
  simp only [isSpace, Bool.not_eq_false, Bool.or_eq_true, beq_iff_eq] at hspace
  rcases hspace with ((rfl | rfl) | rfl) | rfl <;> exact absurd hc (by decide)

theorem readValue_digit {c : Char} (hc : c.isDigit) (text : List Char) :
    readValue n (c :: text) =
      readNumber false (c :: text) >>= fun read => .ok (.number read.1, read.2) := by
  unfold readValue
  rw [skipSpace_cons (isSpace_of_isDigit hc)]
  dsimp only
  -- a digit is none of the characters that begin another value
  split
  case h_8 => exact if_pos hc
  all_goals exact absurd hc (by decide)

theorem exists_toDigits_eq_cons (m : ℕ) :
    ∃ c text, Nat.toDigits 10 m = c :: text ∧ c.isDigit := by
  obtain ⟨c, text, htext⟩ := List.exists_cons_of_ne_nil (Nat.toDigits_ne_nil (n := m) (b := 10))
  exact ⟨c, text, htext, isDigit_of_mem_toDigits (htext ▸ List.mem_cons_self)⟩

/-- **An integer is read back.** -/
theorem readValue_integerText {i : ℤ} (hi : InWord i) (hrest : Ends rest) :
    readValue n (integerText i ++ rest) = .ok (.number (.integer i), rest) := by
  obtain ⟨hlow, hhigh⟩ := hi
  have hlimit : i.natAbs < significandLimit := by
    show i.natAbs < 2 ^ 64
    omega
  rw [integerText_eq]
  rcases lt_or_ge i 0 with hneg | hpos
  · have hread : readNumber true (Nat.toDigits 10 i.natAbs ++ rest) =
        .ok (wholeNumber true i.natAbs, rest) :=
      readNumber_toDigits hlimit hrest
    rw [wholeNumber_negative (by omega) (by omega)] at hread
    rw [if_pos hneg, List.append_assoc, List.singleton_append, readValue_minus, hread]
    have habs : -(i.natAbs : ℤ) = i := by omega
    show Except.ok (Value.number (.integer (-(i.natAbs : ℤ))), rest) = _
    rw [habs]
  · have hread : readNumber false (Nat.toDigits 10 i.natAbs ++ rest) =
        .ok (wholeNumber false i.natAbs, rest) :=
      readNumber_toDigits hlimit hrest
    obtain ⟨c, text, htext, hc⟩ := exists_toDigits_eq_cons i.natAbs
    rw [if_neg (by omega), List.nil_append]
    rw [htext, List.cons_append] at hread ⊢
    have habs : (i.natAbs : ℤ) = i := by omega
    rw [readValue_digit hc, hread]
    show Except.ok (Value.number (.integer (i.natAbs : ℤ)), rest) = _
    rw [habs]

/-! ## The loops of the reader -/

/-- A value is read back at any depth, with anything behind it that does not go
on with a number. -/
def ReadsBack (n : ℕ) (v : Value) : Prop :=
  ∀ depth rest, Ends rest → readValue n (v.text depth ++ rest) = .ok (v, rest)

/-- A text that begins with neither white space nor a closing bracket. -/
def Opens (text : List Char) : Prop :=
  ∃ c more, text = c :: more ∧ isSpace c = false ∧ c ≠ ']'

theorem Opens.append {text : List Char} (h : Opens text) (rest : List Char) :
    Opens (text ++ rest) := by
  obtain ⟨c, more, rfl, hspace, hbracket⟩ := h
  exact ⟨c, more ++ rest, rfl, hspace, hbracket⟩

theorem Value.Exact.opens (h : v.Exact) (depth : ℕ) : Opens (v.text depth) := by
  cases h with
  | null => exact ⟨_, _, rfl, by decide, by decide⟩
  | bool b => cases b <;> exact ⟨_, _, rfl, by decide, by decide⟩
  | integer i =>
    show Opens (integerText i)
    rw [integerText_eq]
    split
    · exact ⟨_, _, rfl, by decide, by decide⟩
    · obtain ⟨c, text, htext, hc⟩ := exists_toDigits_eq_cons i.natAbs
      refine ⟨c, text, htext, isSpace_of_isDigit hc, ?_⟩
      rintro rfl
      exact absurd hc (by decide)
  | string s => exact ⟨_, _, rfl, by decide, by decide⟩
  | array items => cases items <;> exact ⟨_, _, rfl, by decide, by decide⟩
  | object fields =>
    rcases fields with - | ⟨⟨key, value⟩, fields⟩ <;> exact ⟨_, _, rfl, by decide, by decide⟩

theorem readItems_close (item : Reader Value) (first : Bool) (outer : ℕ) (hbound : 0 < bound) :
    readItems item bound first (newLine outer ++ ']' :: rest) = .ok ([], rest) := by
  obtain ⟨bound, rfl⟩ := Nat.exists_eq_succ_of_ne_zero hbound.ne'
  rw [readItems, skipSpace_newLine, skipSpace_cons (by decide)]
  rfl

/-- The first item is read wherever it stands. -/
theorem readItems_first {item : Reader Value} {text after : List Char} (hopens : Opens text)
    (hitem : item text = .ok (v, after)) :
    readItems item (bound + 1) true (newLine depth ++ text) =
      (readItems item bound false after).map fun read => (v :: read.1, read.2) := by
  obtain ⟨c, more, rfl, hspace, hbracket⟩ := hopens
  rw [readItems, skipSpace_newLine, skipSpace_cons hspace]
  dsimp only
  rw [if_neg hbracket, if_pos rfl, hitem]
  show (readItems item bound false after >>= _) = _
  cases readItems item bound false after <;> rfl

/-- And so is one behind a comma. -/
theorem readItems_next {item : Reader Value} {text after : List Char} (hopens : Opens text)
    (hitem : item text = .ok (v, after)) :
    readItems item (bound + 1) false (',' :: (newLine depth ++ text)) =
      (readItems item bound false after).map fun read => (v :: read.1, read.2) := by
  obtain ⟨c, more, rfl, hspace, hbracket⟩ := hopens
  rw [readItems, skipSpace_cons (by decide)]
  dsimp only
  rw [if_neg (by decide), if_neg (by decide), if_pos rfl, skipSpace_newLine, skipSpace_cons hspace]
  dsimp only
  rw [if_neg hbracket, hitem]
  show (readItems item bound false after >>= _) = _
  cases readItems item bound false after <;> rfl

theorem readItems_itemsText (hexact : ∀ item ∈ items, item.Exact)
    (hitems : ∀ item ∈ items, ReadsBack n item) (hbound : items.length < bound) (outer : ℕ) :
    readItems (readValue n) bound false
      (itemsText depth items ++ (newLine outer ++ ']' :: rest)) = .ok (items, rest) := by
  induction items generalizing bound with
  | nil => exact readItems_close _ _ _ hbound
  | cons item items ih =>
    obtain ⟨hexact, hexacts⟩ := List.forall_mem_cons.1 hexact
    obtain ⟨hitem, hitems⟩ := List.forall_mem_cons.1 hitems
    obtain ⟨bound, rfl⟩ := Nat.exists_eq_succ_of_ne_zero (by omega : bound ≠ 0)
    simp only [itemsText, List.cons_append, List.append_assoc]
    rw [readItems_next ((hexact.opens depth).append _)
      (hitem depth _ (ends_itemsText depth outer items _)),
      ih hexacts hitems (by simpa using hbound)]
    rfl

theorem readFields_close (item : Reader Value) (first : Bool) (outer : ℕ) (hbound : 0 < bound) :
    readFields item bound first read (newLine outer ++ '}' :: rest) = .ok (read, rest) := by
  obtain ⟨bound, rfl⟩ := Nat.exists_eq_succ_of_ne_zero hbound.ne'
  rw [readFields, skipSpace_newLine, skipSpace_cons (by decide)]
  rfl

/-- A key and its value, behind the opening quote. -/
theorem readField_text (hvalue : ReadsBack n v) (hrest : Ends rest) :
    readField (readValue n)
      (key.toList.flatMap escapeChar ++ '"' :: ':' :: ' ' :: (v.text depth ++ rest)) =
      .ok ((key, v), rest) := by
  have hspace : readValue n (' ' :: (v.text depth ++ rest)) = .ok (v, rest) := by
    rw [← readValue_skipSpace, ← hvalue depth rest hrest,
      ← readValue_skipSpace (v.text depth ++ rest)]
    rfl
  rw [readField, readString_escaped]
  show (readValue n _ >>= _) = _
  rw [hspace]
  rfl

theorem quoted_append (text : List Char) :
    quoted key ++ text = '"' :: (key.toList.flatMap escapeChar ++ '"' :: text) := by
  simp [quoted]

theorem readFields_first (hvalue : ReadsBack n v) (hrest : Ends rest) :
    readFields (readValue n) (bound + 1) true read
      (newLine depth ++ (quoted key ++ ':' :: ' ' :: (v.text depth ++ rest))) =
      readFields (readValue n) bound false (Fields.set read key v) rest := by
  rw [quoted_append, readFields, skipSpace_newLine, skipSpace_cons (by decide)]
  dsimp only
  rw [if_neg (by decide), if_pos rfl, if_pos rfl, readField_text hvalue hrest]
  rfl

theorem readFields_next (hvalue : ReadsBack n v) (hrest : Ends rest) :
    readFields (readValue n) (bound + 1) false read
      (',' :: (newLine depth ++ (quoted key ++ ':' :: ' ' :: (v.text depth ++ rest)))) =
      readFields (readValue n) bound false (Fields.set read key v) rest := by
  rw [quoted_append, readFields, skipSpace_cons (by decide)]
  dsimp only
  rw [if_neg (by decide), if_neg (by decide), if_pos rfl, skipSpace_newLine,
    skipSpace_cons (by decide)]
  dsimp only
  rw [if_pos rfl, readField_text hvalue hrest]
  rfl

/-- A key that is new goes to the end. -/
theorem Fields.set_of_not_mem (h : key ∉ read.map Prod.fst) :
    Fields.set read key v = read ++ [(key, v)] := by
  induction read with
  | nil => rfl
  | cons field read ih =>
    obtain ⟨k, value⟩ := field
    simp only [List.map_cons, List.mem_cons, not_or] at h
    rw [Fields.set, if_neg (Ne.symm h.1), ih h.2]
    rfl

theorem readFields_fieldsText (hfields : ∀ field ∈ fields, ReadsBack n field.2)
    (hkeys : ((read ++ fields).map Prod.fst).Nodup) (hbound : fields.length < bound)
    (outer : ℕ) :
    readFields (readValue n) bound false read
      (fieldsText depth fields ++ (newLine outer ++ '}' :: rest)) = .ok (read ++ fields, rest) := by
  induction fields generalizing read bound with
  | nil =>
    rw [List.append_nil]
    exact readFields_close _ _ _ hbound
  | cons field fields ih =>
    obtain ⟨key, value⟩ := field
    obtain ⟨hvalue, hfields⟩ := List.forall_mem_cons.1 hfields
    obtain ⟨bound, rfl⟩ := Nat.exists_eq_succ_of_ne_zero (by omega : bound ≠ 0)
    rw [List.append_cons] at hkeys
    have hnew : key ∉ read.map Prod.fst := by
      rw [List.map_append, List.map_append, List.append_assoc] at hkeys
      intro hmem
      exact (List.nodup_append.1 hkeys).2.2 _ hmem key (by simp) rfl
    simp only [fieldsText, List.cons_append, List.append_assoc]
    rw [readFields_next hvalue (ends_fieldsText depth outer fields _), Fields.set_of_not_mem hnew,
      ih hfields hkeys (by simpa using hbound), ← List.append_cons]

/-! ## Values -/

theorem length_le_itemsText (depth : ℕ) (items : List Value) :
    items.length ≤ (itemsText depth items).length := by
  induction items with
  | nil => simp
  | cons item items ih =>
    simp only [itemsText, List.length_cons, List.length_append, List.cons_append]
    omega

theorem length_le_fieldsText (depth : ℕ) (fields : List (String × Value)) :
    fields.length ≤ (fieldsText depth fields).length := by
  induction fields with
  | nil => simp
  | cons field fields ih =>
    simp only [fieldsText, List.length_cons, List.length_append, List.cons_append]
    omega

theorem readValue_array (hexact : ∀ item ∈ items, item.Exact)
    (hitems : ∀ item ∈ items, ReadsBack n item) : ReadsBack (n + 1) (.array items) := by
  intro depth rest hrest
  cases items with
  | nil => rfl
  | cons item items =>
    obtain ⟨hexact, hexacts⟩ := List.forall_mem_cons.1 hexact
    obtain ⟨hitem, hitems⟩ := List.forall_mem_cons.1 hitems
    simp only [Value.text, List.cons_append, List.append_assoc, List.nil_append]
    show (readItems (readValue n) _ true _ >>= _) = _
    rw [readItems_first ((hexact.opens _).append _)
      (hitem _ _ (ends_itemsText (depth + 1) depth items _)),
      readItems_itemsText hexacts hitems ?_]
    · rfl
    · have := length_le_itemsText (depth + 1) items
      simp only [List.length_append, newLine, List.length_cons]
      omega

theorem readValue_object (hkeys : (fields.map Prod.fst).Nodup)
    (hfields : ∀ field ∈ fields, ReadsBack n field.2) : ReadsBack (n + 1) (.object fields) := by
  intro depth rest hrest
  rcases fields with - | ⟨⟨key, value⟩, fields⟩
  · rfl
  · obtain ⟨hvalue, hfields⟩ := List.forall_mem_cons.1 hfields
    simp only [Value.text, List.cons_append, List.append_assoc, List.nil_append]
    show (readFields (readValue n) _ true [] _ >>= _) = _
    rw [readFields_first hvalue (ends_fieldsText (depth + 1) depth fields _),
      Fields.set_of_not_mem (by simp), List.nil_append,
      readFields_fieldsText hfields (by simpa using hkeys) ?_]
    · rfl
    · have := length_le_fieldsText (depth + 1) fields
      simp only [List.length_append, List.length_cons]
      omega

/-- **An exact value is read back**, if the reader goes as deep as it is
nested. -/
theorem Value.Exact.readsBack (h : v.Exact) (hnesting : v.nesting ≤ n) : ReadsBack n v := by
  induction h generalizing n with
  | null => exact fun _ rest _ => readValue_null rest
  | bool b =>
    intro depth rest _
    cases b with
    | false => exact readValue_false rest
    | true => exact readValue_true rest
  | integer i hi => exact fun _ _ hrest => readValue_integerText hi hrest
  | string s =>
    intro depth rest _
    show readValue n (quoted s ++ rest) = _
    rw [quoted_append, readValue_quote, readString_escaped]
    rfl
  | array items hexact ih =>
    rw [nesting] at hnesting
    obtain ⟨n, rfl⟩ := Nat.exists_eq_succ_of_ne_zero (by omega : n ≠ 0)
    refine readValue_array hexact fun item hitem => ih item hitem ?_
    exact (nesting_le_of_mem_items hitem).trans (by omega)
  | object fields hkeys hexact ih =>
    rw [nesting] at hnesting
    obtain ⟨n, rfl⟩ := Nat.exists_eq_succ_of_ne_zero (by omega : n ≠ 0)
    refine readValue_object hkeys fun field hfield => ih field hfield ?_
    exact (nesting_le_of_mem_fields hfield).trans (by omega)

/-- What is written of a value is read back, with white space behind it. -/
theorem parse_pretty_append (hexact : v.Exact) (hnesting : v.nesting ≤ maxDepth) {blank : String}
    (hblank : ∀ c ∈ blank.toList, isSpace c) : parse (v.pretty ++ blank) = .ok v := by
  have hskip : skipSpace blank.toList = [] := List.dropWhile_eq_nil_iff.2 hblank
  have hends : Ends blank.toList := by
    intro c hc
    have hspace := hblank c (List.mem_of_mem_head? hc)
    simp only [isSpace, Bool.or_eq_true, beq_iff_eq] at hspace
    rcases hspace with ((rfl | rfl) | rfl) | rfl <;> decide
  have htext : (v.pretty ++ blank).toList = v.text 0 ++ blank.toList := by
    simp [Value.pretty]
  have hread : readText (v.pretty ++ blank).toList = .ok v := by
    rw [htext, readText, hexact.readsBack hnesting 0 _ hends]
    simp only [bind, Except.bind, hskip]
  rw [parse, hread]
  rfl

/-- **What is written of a value is read back.** -/
theorem parse_pretty (hexact : v.Exact) (hnesting : v.nesting ≤ maxDepth) :
    parse v.pretty = .ok v := by
  have h : parse (v.pretty ++ "") = .ok v := parse_pretty_append hexact hnesting (by simp)
  rwa [String.append_empty] at h

/-! ## What the program writes -/

theorem Value.exact_ofOption {α : Type} {f : α → Value} (h : ∀ a, (f a).Exact) (o : Option α) :
    (Value.ofOption f o).Exact := by
  cases o with
  | none => exact .null
  | some a => exact h a

theorem nesting_ofOption_le {α : Type} {f : α → Value} (h : ∀ a, (f a).nesting ≤ n)
    (o : Option α) : (Value.ofOption f o).nesting ≤ n := by
  cases o with
  | none => exact Nat.zero_le n
  | some a => exact h a

theorem nestingOfItems_map_le {α : Type} {f : α → Value} (h : ∀ a, (f a).nesting ≤ n)
    (as : List α) : nestingOfItems (as.map f) ≤ n := by
  induction as with
  | nil => exact Nat.zero_le n
  | cons a as ih => exact max_le (h a) ih

theorem exact_strings (texts : List String) : (Value.array (texts.map .string)).Exact := by
  refine .array _ fun item hitem => ?_
  obtain ⟨s, -, rfl⟩ := List.mem_map.1 hitem
  exact .string s

theorem exact_policy (policy : CopyPolicy) : policy.toJson.Exact :=
  .object _ (by simp) <|
    List.forall_iff_forall_mem.1 ⟨.string _, exact_strings policy.exclude⟩

theorem exact_aliases (table : AliasTable) : table.toJson.Exact := by
  refine .array _ fun item hitem => ?_
  obtain ⟨a, -, rfl⟩ := List.mem_map.1 hitem
  exact .object _ (by simp) (List.forall_iff_forall_mem.1 ⟨.string _, .string _⟩)

/-- A configuration is told exactly, whatever its paths, endings and aliases
are. -/
theorem exact_config (config : Config) : config.toJson.Exact := by
  have hpath : ∀ p : Path, p.toJson.Exact := fun p => .string p.text
  refine .object _ (by simp) (List.forall_iff_forall_mem.1 ?_)
  exact ⟨hpath _, Value.exact_ofOption hpath _, Value.exact_ofOption hpath _,
    Value.exact_ofOption exact_policy _, .bool _, Value.exact_ofOption exact_aliases _, .bool _⟩

theorem nesting_config_le (config : Config) : config.toJson.nesting ≤ 3 := by
  have hpath : ∀ p : Path, p.toJson.nesting ≤ 2 := fun p => Nat.zero_le 2
  have hpolicy : ∀ policy : CopyPolicy, policy.toJson.nesting ≤ 2 := by
    intro policy
    have hendings := nestingOfItems_map_le (n := 0) (f := Value.string) (fun _ => le_rfl)
      policy.exclude
    simp only [CopyPolicy.toJson, Path.toJson, Value.nesting, nestingOfFields]
    omega
  have haliases : ∀ table : AliasTable, table.toJson.nesting ≤ 2 := by
    intro table
    have hentry := nestingOfItems_map_le (n := 1) (f := Alias.toJson) (fun _ => le_rfl)
      table.entries
    simp only [AliasTable.toJson, Value.nesting]
    omega
  have hesm := nesting_ofOption_le hpath config.esmDir
  have hcjs := nesting_ofOption_le hpath config.cjsDir
  have hcopies := nesting_ofOption_le hpolicy config.copyFiles
  have htable := nesting_ofOption_le haliases config.aliases
  have hroot := hpath config.root
  simp only [Config.toJson, Value.nesting, nestingOfFields]
  omega

theorem exact_template : Config.templateJson.Exact := by
  have hpolicy : (Value.object [("from", .string "src"),
      ("exclude", .array [.string ".js"])]).Exact := exact_policy ⟨⟨"src"⟩, [".js"]⟩
  refine .object _ (by simp) (List.forall_iff_forall_mem.1 ?_)
  exact ⟨.string _, .string _, .bool _, hpolicy, .bool _⟩

theorem exact_marker (kind : ModuleKind) :
    (Value.object [("type", .string kind.packageType)]).Exact :=
  .object _ (by simp) (List.forall_mem_singleton.2 (.string _))

/-- **What is written denotes what it was made from**: an exact value that the
reader can go down into, and so the markers, the template and every
configuration that is shown, whatever characters stand in their strings. -/
theorem written_reads_back :
    (∀ v : Value, v.Exact → v.nesting ≤ maxDepth → parse v.pretty = .ok v) ∧
      (∀ kind, parse (Marker.content kind) =
        .ok (.object [("type", .string kind.packageType)])) ∧
      parse Config.template = .ok Config.templateJson ∧
      ∀ config : Config, parse config.toJson.pretty = .ok config.toJson := by
  have hpretty : ∀ v : Value, v.Exact → v.nesting ≤ maxDepth → parse v.pretty = .ok v :=
    fun _ => parse_pretty
  refine ⟨hpretty, fun kind => ?_, ?_, fun config => ?_⟩
  · exact hpretty _ (exact_marker kind) (by simp [Value.nesting, nestingOfFields, maxDepth])
  · -- the template ends with a line break
    have hbreak : ∀ c ∈ "\n".toList, isSpace c := by simp [isSpace]
    exact parse_pretty_append exact_template (by decide) hbreak
  · exact hpretty _ (exact_config config) ((nesting_config_le config).trans (by decide))

/-- Some values that are awkward to write: the longest integers, empty arrays
and objects within others, and strings of quotes, escapes, and characters that
cannot be seen or that take several bytes. -/
def awkward : Value :=
  .object
    [("\u0000\u001f\"\\\n\t/", .array [.array [], .object [], .null]),
      ("", .number (.integer (-9223372036854775808))),
      ("é \u007f 😀", .number (.integer 18446744073709551615)),
      ("\\u0041", .array [.bool true, .string "\r\n\\\"", .object [("", .string "")]])]

theorem awkward_reads_back : parse awkward.pretty = .ok awkward := by
  have hempty : (Value.array [.array [], .object [], .null]).Exact :=
    .array _ (List.forall_iff_forall_mem.1
      ⟨.array _ (by simp), .object _ (by simp) (by simp), .null⟩)
  have hmixed : (Value.array [.bool true, .string "\r\n\\\"", .object [("", .string "")]]).Exact :=
    .array _ (List.forall_iff_forall_mem.1
      ⟨.bool _, .string _, .object _ (by simp) (List.forall_mem_singleton.2 (.string _))⟩)
  refine written_reads_back.1 awkward (.object _ (by decide) ?_) (by decide)
  exact List.forall_iff_forall_mem.1
    ⟨hempty, .integer _ (by constructor <;> decide), .integer _ (by constructor <;> decide), hmixed⟩

end Json

end DualPackage
