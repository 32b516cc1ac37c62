import DualPackage.Json.Reader
import DualPackage.Proofs.Keyed
/-!
# Objects as they are written

A text may give the key of an object again and again. `written` reads a text
with all the members of its objects, in the order in which they stand there;
`Value.merged` keeps of the members of each object the last value of each key,
at the place where the key stands first. Reading a text is doing both
(`parse_eq_written`), so what is said of an object that was read can be said of
the text.
-/

namespace DualPackage

namespace Json

open Keyed

/-! ## Reading all members -/

/-- The members of an object up to its closing brace, in the order of the text.
`first` says that none has been read yet. -/
def readMembers (item : Reader Value) : ℕ → Bool → List Char → Except Fault (Fields × List Char)
  | 0, _, _ => .error (faultAtEnd .endInObject)
  | bound + 1, first, text =>
    match skipSpace text with
    | [] => .error (faultAtEnd .endInObject)
    | c :: rest =>
      if c = '}' then .ok ([], rest)
      else if first then
        if c = '"' then do
          let (member, after) ← readField item rest
          let (members, after) ← readMembers item bound false after
          .ok (member :: members, after)
        else .error (faultAt .keyNotString (c :: rest))
      else if c = ',' then
        match skipSpace rest with
        | [] => .error (faultAtEnd .endInValue)
        | d :: more =>
          if d = '"' then do
            let (member, after) ← readField item more
            let (members, after) ← readMembers item bound false after
            .ok (member :: members, after)
          else if d = '}' then .error (faultAt .trailingComma (d :: more))
          else .error (faultAt .keyNotString (d :: more))
      else .error (faultAt .expectedCommaOrBrace (c :: rest))

/-- The value at the head of a text, with all the members of its objects, when
`depth` more arrays and objects may be opened. -/
def readWritten : ℕ → Reader Value
  | 0, text => readValue 0 text
  | depth + 1, text =>
    match skipSpace text with
    | '[' :: rest => do
      let (items, after) ← readItems (readWritten depth) (rest.length + 1) true rest
      .ok (.array items, after)
    | '{' :: rest => do
      let (members, after) ← readMembers (readWritten depth) (rest.length + 1) true rest
      .ok (.object members, after)
    | _ => readValue (depth + 1) text

/-- A whole text, with all the members of its objects. -/
def readWrittenText (text : List Char) : Except Fault Value := do
  let (v, rest) ← readWritten maxDepth text
  match skipSpace rest with
  | [] => .ok v
  | c :: more => .error (faultAt .trailingCharacters (c :: more))

/-- What a text holds, with all the members of its objects. -/
def written (text : String) : Except TextFault Value :=
  (readWrittenText text.toList).mapError (·.inText text.toList)

/-! ## Merging them -/

mutual

/-- The value with the members of its objects merged. -/
def Value.merged : Value → Value
  | .array items => .array (mergedItems items)
  | .object members => .object (putAll (mergedMembers members))
  | .null => .null
  | .bool b => .bool b
  | .number n => .number n
  | .string s => .string s

/-- The items of an array, each merged. -/
def mergedItems : List Value → List Value
  | [] => []
  | item :: items => item.merged :: mergedItems items

/-- The members of an object with their values merged. -/
def mergedMembers : List (String × Value) → List (String × Value)
  | [] => []
  | (key, value) :: members => (key, value.merged) :: mergedMembers members

end

variable {item item' : Reader Value} {f : Value → Value} {fields members : Fields} {key : String}
  {text : String}

theorem mergedItems_eq (items : List Value) : mergedItems items = items.map Value.merged := by
  induction items with
  | nil => rfl
  | cons item items ih => rw [mergedItems, ih, List.map_cons]

theorem mergedMembers_eq (members : Fields) :
    mergedMembers members = members.map fun m => (m.1, m.2.merged) := by
  induction members with
  | nil => rfl
  | cons member members ih => rw [mergedMembers, ih, List.map_cons]

namespace Value

variable {v : Value} {s : String} {items : List Value}

theorem merged_eq_string : v.merged = .string s ↔ v = .string s := by
  cases v <;> simp [merged]

/-- Only strings are merged to strings. -/
theorem eq_strings_of_map_merged {strings : List String}
    (h : items.map merged = strings.map .string) : items = strings.map .string := by
  induction strings generalizing items with
  | nil => simpa using h
  | cons s strings ih =>
    cases items with
    | nil => cases h
    | cons item items =>
      rw [List.map_cons, List.map_cons, List.cons.injEq] at h
      rw [List.map_cons, ih h.2, merged_eq_string.1 h.1]

theorem merged_eq_array :
    v.merged = .array items ↔ ∃ written, v = .array written ∧ items = written.map merged := by
  cases v <;> simp [merged, mergedItems_eq, eq_comm]

theorem merged_eq_object :
    v.merged = .object fields ↔ ∃ members, v = .object members ∧
      fields = putAll (mergedMembers members) := by
  cases v <;> simp [merged, eq_comm]

end Value

theorem Fields.set_eq_put (fields : Fields) (key : String) (value : Value) :
    fields.set key value = put key value fields := by
  induction fields with
  | nil => rfl
  | cons field fields ih => rw [Fields.set, put, ih]

/-- The value of a key is the one it was given last. -/
theorem Fields.get?_eq_last? (h : Latest members fields) (key : String) :
    fields.get? key = last? members key := by
  have hlookup : ∀ fields : Fields, fields.get? key = fields.lookup key := by
    intro fields
    induction fields with
    | nil => rfl
    | cons field fields ih =>
      obtain ⟨k, v⟩ := field
      by_cases hk : k = key
      · simp [get?, hk]
      · rw [get?, if_neg hk, ih, List.lookup_cons, beq_false_of_ne (Ne.symm hk)]
  rw [hlookup, h.lookup_eq]

/-! ## Reading is merging what is written -/

section Reading

variable (hitem : ∀ text, item' text = (item text).map (Prod.map f id))

include hitem

theorem readField_map (text : List Char) :
    readField item' text = (readField item text).map (Prod.map (Prod.map id f) id) := by
  unfold readField
  cases readString text with
  | error fault => rfl
  | ok result =>
    obtain ⟨key, rest⟩ := result
    simp only [bind, Except.bind]
    split
    · rfl
    · split
      · rename_i c rest _ _
        rw [hitem]
        cases item rest <;> rfl
      · rfl

theorem readItems_map (bound : ℕ) (first : Bool) (text : List Char) :
    readItems item' bound first text =
      (readItems item bound first text).map (Prod.map (List.map f) id) := by
  induction bound generalizing first text with
  | zero => rfl
  | succ bound ih =>
    -- what is read of one item and of those behind it
    have hone : ∀ text, (do
        let (v, after) ← item' text
        let (vs, after) ← readItems item' bound false after
        .ok (v :: vs, after) : Except Fault (List Value × List Char)) =
          (do
            let (v, after) ← item text
            let (vs, after) ← readItems item bound false after
            .ok (v :: vs, after) : Except Fault (List Value × List Char)).map
              (Prod.map (List.map f) id) := by
      intro text
      rw [hitem]
      cases item text with
      | error fault => rfl
      | ok result =>
        obtain ⟨v, after⟩ := result
        simp only [bind, Except.bind, Except.map, Prod.map, id_eq, ih]
        cases readItems item bound false after <;> rfl
    unfold readItems
    cases skipSpace text with
    | nil => rfl
    | cons c rest =>
      dsimp only
      split
      · rfl
      · split
        · exact hone _
        · split
          · cases skipSpace rest with
            | nil => rfl
            | cons d more =>
              dsimp only
              split
              · rfl
              · exact hone _
          · rfl

/-- The fields that are read, with members put in as they come. -/
theorem readFields_eq (bound : ℕ) (first : Bool) (fields : Fields) (text : List Char) :
    readFields item' bound first fields text =
      (readMembers item bound first text).map (Prod.map (fun members =>
        (members.map (Prod.map id f)).foldl (fun kept m => put m.1 m.2 kept) fields) id) := by
  induction bound generalizing first fields text with
  | zero => rfl
  | succ bound ih =>
    -- one member, and those behind it
    have hone : ∀ text, (do
        let (field, after) ← readField item' text
        readFields item' bound false (fields.set field.1 field.2) after :
          Except Fault (Fields × List Char)) =
          (do
            let (member, after) ← readField item text
            let (members, after) ← readMembers item bound false after
            .ok (member :: members, after) : Except Fault (Fields × List Char)).map
              (Prod.map (fun members => (members.map (Prod.map id f)).foldl
                (fun kept m => put m.1 m.2 kept) fields) id) := by
      intro text
      rw [readField_map hitem]
      cases readField item text with
      | error fault => rfl
      | ok result =>
        obtain ⟨⟨key, v⟩, after⟩ := result
        simp only [bind, Except.bind, Except.map, Prod.map, id_eq, ih, Fields.set_eq_put]
        cases readMembers item bound false after <;> rfl
    unfold readFields readMembers
    cases skipSpace text with
    | nil => rfl
    | cons c rest =>
      dsimp only
      split
      · rfl
      · split
        · split
          · exact hone _
          · rfl
        · split
          · cases skipSpace rest with
            | nil => rfl
            | cons d more =>
              dsimp only
              split
              · exact hone _
              · split <;> rfl
          · rfl

end Reading

/-- What begins with no bracket, or with one that may not be opened, has nothing
to merge. -/
theorem merged_readValue {depth : ℕ} {text : List Char}
    (h : ∀ c ∈ (skipSpace text).head?, c = '[' ∨ c = '{' → depth = 0) :
    (readValue depth text).map (Prod.map Value.merged id) = readValue depth text := by
  have hident : ∀ (v : Value) (word text : List Char), v.merged = v →
      (readIdent v word text).map (Prod.map Value.merged id) = readIdent v word text := by
    intro v word text hv
    fun_induction readIdent v word text with
    | case1 => simp [Except.map, hv]
    | case2 => rfl
    | case3 _ _ _ ih => exact ih
    | case4 => rfl
  unfold readValue
  cases hskip : skipSpace text with
  | nil => rfl
  | cons c rest =>
    rw [hskip] at h
    have hbracket : c = '[' ∨ c = '{' → depth = 0 := h c rfl
    dsimp only
    split
    · exact hident _ _ _ rfl
    · exact hident _ _ _ rfl
    · exact hident _ _ _ rfl
    · cases readString rest <;> rfl
    · rw [hbracket (.inl rfl)]
      rfl
    · rw [hbracket (.inr rfl)]
      rfl
    · cases readNumber true rest <;> rfl
    · split
      · cases readNumber false (c :: rest) <;> rfl
      · rfl

/-- **A value is read as it is written, merged.** -/
theorem readValue_eq_written (depth : ℕ) (text : List Char) :
    readValue depth text = (readWritten depth text).map (Prod.map Value.merged id) := by
  induction depth generalizing text with
  | zero => exact (merged_readValue fun _ _ _ => rfl).symm
  | succ depth ih =>
    unfold readWritten
    split
    · rename_i rest hskip
      have hvalue : readValue (depth + 1) text = (do
          let (items, after) ← readItems (readValue depth) (rest.length + 1) true rest
          .ok (.array items, after) : Except Fault (Value × List Char)) := by
        rw [readValue, hskip]
        rfl
      rw [hvalue, readItems_map ih]
      cases readItems (readWritten depth) (rest.length + 1) true rest with
      | error fault => rfl
      | ok result =>
        simp only [bind, Except.bind, Except.map, Prod.map, Value.merged, mergedItems_eq]
    · rename_i rest hskip
      have hvalue : readValue (depth + 1) text = (do
          let (fields, after) ← readFields (readValue depth) (rest.length + 1) true [] rest
          .ok (.object fields, after) : Except Fault (Value × List Char)) := by
        rw [readValue, hskip]
        rfl
      rw [hvalue, readFields_eq ih]
      cases readMembers (readWritten depth) (rest.length + 1) true rest with
      | error fault => rfl
      | ok result =>
        simp only [bind, Except.bind, Except.map, Prod.map, Value.merged, mergedMembers_eq]
        rfl
    · rename_i harray hobject
      refine (merged_readValue fun c hc => ?_).symm
      obtain ⟨rest, hskip⟩ := List.head?_eq_some_iff.1 hc
      rintro (rfl | rfl)
      · exact absurd hskip (harray rest)
      · exact absurd hskip (hobject rest)

/-- **What is read of a text** is what is written there, merged. -/
theorem parse_eq_written (text : String) : parse text = (written text).map Value.merged := by
  have hread : readText text.toList = (readWrittenText text.toList).map Value.merged := by
    rw [readText, readWrittenText, readValue_eq_written]
    cases readWritten maxDepth text.toList with
    | error fault => rfl
    | ok result =>
      simp only [bind, Except.bind, Except.map, Prod.map, id_eq]
      cases skipSpace result.2 <;> rfl
  rw [parse, hread, written]
  cases readWrittenText text.toList <;> rfl

/-- The fields of an object that was read are the members of its text, each key
once. -/
theorem exists_written_of_parse (h : parse text = .ok (.object fields)) :
    ∃ members, written text = .ok (.object members) ∧ Latest (mergedMembers members) fields := by
  rw [parse_eq_written] at h
  cases hwritten : written text with
  | error fault =>
    rw [hwritten] at h
    cases h
  | ok v =>
    rw [hwritten] at h
    have hmerged : v.merged = .object fields := by simpa [Except.map] using h
    obtain ⟨members, rfl, rfl⟩ := Value.merged_eq_object.1 hmerged
    exact ⟨members, rfl, latest_putAll _⟩

/-! ## From the fields to the members -/

namespace Fields

variable (h : Latest (mergedMembers members) fields)

include h

/-- The value of a key is the last that is written for it, merged. -/
theorem get?_eq_merged (key : String) : fields.get? key = (last? members key).map Value.merged := by
  rw [get?_eq_last? h, mergedMembers_eq, last?_map]

theorem last?_eq_none (hget : fields.get? key = none) : last? members key = none := by
  rwa [get?_eq_merged h, Option.map_eq_none_iff] at hget

theorem last?_eq_string {s : String} (hget : fields.get? key = some (.string s)) :
    last? members key = some (.string s) := by
  rw [get?_eq_merged h, Option.map_eq_some_iff] at hget
  obtain ⟨v, hv, hmerged⟩ := hget
  rw [hv, Value.merged_eq_string.1 hmerged]

theorem last?_eq_object {policy : Fields} (hget : fields.get? key = some (.object policy)) :
    ∃ entries, last? members key = some (.object entries) ∧
      Latest (mergedMembers entries) policy := by
  rw [get?_eq_merged h, Option.map_eq_some_iff] at hget
  obtain ⟨v, hv, hmerged⟩ := hget
  obtain ⟨entries, rfl, rfl⟩ := Value.merged_eq_object.1 hmerged
  exact ⟨entries, hv, latest_putAll _⟩

/-- The items of an array of strings are those that are written. -/
theorem last?_eq_strings {strings : List String}
    (hget : fields.get? key = some (.array (strings.map .string))) :
    last? members key = some (.array (strings.map .string)) := by
  rw [get?_eq_merged h, Option.map_eq_some_iff] at hget
  obtain ⟨v, hv, hmerged⟩ := hget
  obtain ⟨items, rfl, hitems⟩ := Value.merged_eq_array.1 hmerged
  rw [hv, Value.eq_strings_of_map_merged hitems.symm]

end Fields

end Json

end DualPackage
