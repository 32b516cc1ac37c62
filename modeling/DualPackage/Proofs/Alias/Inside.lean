import DualPackage.Alias.Resolve
import DualPackage.Proofs.Clause.Extension
import DualPackage.Proofs.Clause.WellQuoted
/-!
# Aliases of the package itself

An alias whose resolved path begins with `.` or `/` leads back into the
package. What it makes of a specifier is one that points into the package
(`AliasTable.isRelativeOrRooted_resolved`), so no alias is resolved twice
(`AliasTable.resolved_resolved`), and since the path is given its extension
where it lacks one, it does not matter whether extensions are given before
or after (`AliasTable.resolved_extended`).
-/

namespace DualPackage

namespace Specifier

variable {s : Specifier}

theorem isRelativeOrRooted_append (hne : s ≠ []) (t : List Char) :
    isRelativeOrRooted (s ++ t) = isRelativeOrRooted s := by
  obtain ⟨c, s, rfl⟩ := List.exists_cons_of_ne_nil hne
  rfl

theorem ne_nil_of_isRelativeOrRooted (h : s.isRelativeOrRooted) : s ≠ [] := by
  rintro rfl
  cases h

theorem isRelativeOrRooted_extended (s : Specifier) :
    s.extended.isRelativeOrRooted = s.isRelativeOrRooted := by
  by_cases hneeds : s.needsExtension
  · have hrel : s.isRelativeOrRooted := by
      simp only [needsExtension, Bool.and_eq_true] at hneeds
      exact hneeds.1
    rw [extended_of_needsExtension hneeds,
      isRelativeOrRooted_append (ne_nil_of_isRelativeOrRooted hrel)]
  · rw [Bool.not_eq_true] at hneeds
    rw [extended_of_not_needsExtension hneeds]

/-- A specifier of another package is given no extension. -/
theorem extended_of_not_isRelativeOrRooted (h : s.isRelativeOrRooted = false) : s.extended = s :=
  extended_of_not_needsExtension (by simp [needsExtension, h])

theorem extended_of_not_lacksExtension (h : s.lacksExtension = false) : s.extended = s :=
  extended_of_not_needsExtension (by simp [needsExtension, h])

end Specifier

namespace Alias

/-- The resolved path of an alias begins with `.` or `/`, and holds no quote,
line end or brace. -/
structure PointsInside (a : Alias) : Prop where
  relativeOrRooted : Specifier.isRelativeOrRooted a.resolved.toList
  plain : a.resolved.toList.all isPlain

instance (a : Alias) : Decidable a.PointsInside :=
  decidable_of_iff (Specifier.isRelativeOrRooted a.resolved.toList ∧ a.resolved.toList.all isPlain)
    ⟨fun h => ⟨h.1, h.2⟩, fun h => ⟨h.relativeOrRooted, h.plain⟩⟩

variable {resolved remainder : List Char}

theorem trimSlashes_isPrefix (text : List Char) : trimSlashes text <+: text := by
  rw [← List.reverse_suffix, trimSlashes, List.reverse_reverse]
  exact List.dropWhile_suffix _

/-- However the remainder is joined, the path begins as the resolved one
does, or with a slash. -/
theorem isRelativeOrRooted_joinRemainder (h : Specifier.isRelativeOrRooted resolved)
    (remainder : List Char) : Specifier.isRelativeOrRooted (joinRemainder resolved remainder) := by
  have hne := Specifier.ne_nil_of_isRelativeOrRooted h
  unfold joinRemainder
  split
  · rename_i hslash
    -- a resolved path of slashes alone leaves the slash of the remainder
    by_cases htrim : trimSlashes resolved = []
    · rw [htrim, List.nil_append]
      cases remainder with
      | nil => cases hslash
      | cons c remainder =>
        obtain rfl : c = '/' := by simpa using hslash
        rfl
    · obtain ⟨t, ht⟩ := trimSlashes_isPrefix resolved
      rw [Specifier.isRelativeOrRooted_append htrim, ← Specifier.isRelativeOrRooted_append htrim t,
        ht]
      exact h
  · rwa [Specifier.isRelativeOrRooted_append hne]

theorem all_joinRemainder {p : Char → Bool} (h : resolved.all p) (hrem : remainder.all p) :
    (joinRemainder resolved remainder).all p := by
  have htrim : (trimSlashes resolved).all p := by
    rw [List.all_eq_true] at h ⊢
    exact fun c hc => h c ((trimSlashes_isPrefix resolved).subset hc)
  unfold joinRemainder
  split <;> simp only [List.all_append, h, hrem, htrim, Bool.and_self]

theorem eq_joinRemainder_of_resolve? {a : Alias} {s path : Specifier}
    (h : a.resolve? s = some path) :
    path = joinRemainder a.resolved.toList (s.drop a.literal.length) := by
  unfold resolve? at h
  split at h
  · exact (Option.some.inj h).symm
  · cases h

end Alias

namespace AliasTable

variable {table : AliasTable} {s : Specifier}

/-- What the pass over aliases makes of a specifier, with extensions. -/
def resolved (table : AliasTable) (s : Specifier) : Specifier :=
  (table.rewrite? true s).getD s

theorem resolved_of_isRelativeOrRooted (h : s.isRelativeOrRooted) : table.resolved s = s := by
  simp [resolved, rewrite?, h]

/-- A specifier stays as it is, or some alias of the table resolves it to a
path that has its extension. -/
theorem resolved_cases (table : AliasTable) (s : Specifier) :
    table.resolved s = s ∨
      ∃ a ∈ table.entries, ∃ path, a.resolve? s = some path ∧
        table.resolved s =
          if Specifier.lacksExtension path then path ++ Specifier.scriptExtension else path := by
  by_cases hrel : s.isRelativeOrRooted
  · exact .inl (resolved_of_isRelativeOrRooted hrel)
  rw [Bool.not_eq_true] at hrel
  cases hfind : table.catching? s with
  | none => exact .inl (by simp [resolved, rewrite?, hrel, resolve?, hfind])
  | some a =>
    rw [catching?] at hfind
    have hcatches : a.catches s := by simpa using List.find?_some hfind
    have hpath : a.resolve? s =
        some (Alias.joinRemainder a.resolved.toList (s.drop a.literal.length)) := by
      simp [Alias.resolve?, hcatches]
    refine .inr ⟨a, List.mem_of_find?_eq_some hfind, _, hpath, ?_⟩
    simp [resolved, rewrite?, hrel, resolve?, catching?, hfind, hpath]

theorem lacksExtension_resolved_or (table : AliasTable) (s : Specifier) :
    table.resolved s = s ∨ Specifier.lacksExtension (table.resolved s) = false := by
  rcases table.resolved_cases s with h | ⟨a, -, path, -, h⟩
  · exact .inl h
  · refine .inr ?_
    rw [h]
    split
    · exact Specifier.lacksExtension_append_scriptExtension path
    · rename_i hpath
      simpa using hpath

/-- **Extensions before or after aliases.** -/
theorem resolved_extended (table : AliasTable) (s : Specifier) :
    table.resolved s.extended = (table.resolved s).extended := by
  by_cases hrel : s.isRelativeOrRooted
  · rw [resolved_of_isRelativeOrRooted hrel,
      resolved_of_isRelativeOrRooted ((Specifier.isRelativeOrRooted_extended s).trans hrel)]
  · rw [Bool.not_eq_true] at hrel
    -- such a specifier is given no extension, and what an alias resolves has one
    have hself := Specifier.extended_of_not_isRelativeOrRooted hrel
    rw [hself]
    rcases table.lacksExtension_resolved_or s with h | h
    · rw [h, hself]
    · rw [Specifier.extended_of_not_lacksExtension h]

/-- What is resolved points into the package. -/
theorem isRelativeOrRooted_resolved (htable : ∀ a ∈ table.entries, a.PointsInside)
    (s : Specifier) :
    table.resolved s = s ∨ Specifier.isRelativeOrRooted (table.resolved s) := by
  rcases table.resolved_cases s with h | ⟨a, ha, path, hpath, h⟩
  · exact .inl h
  · have hrel : Specifier.isRelativeOrRooted path := by
      rw [Alias.eq_joinRemainder_of_resolve? hpath]
      exact Alias.isRelativeOrRooted_joinRemainder (htable a ha).relativeOrRooted _
    refine .inr ?_
    rw [h]
    split
    · rwa [Specifier.isRelativeOrRooted_append (Specifier.ne_nil_of_isRelativeOrRooted hrel)]
    · exact hrel

/-- **No alias is resolved twice.** -/
theorem resolved_resolved (htable : ∀ a ∈ table.entries, a.PointsInside) (s : Specifier) :
    table.resolved (table.resolved s) = table.resolved s := by
  rcases isRelativeOrRooted_resolved htable s with h | h
  · rw [h, h]
  · exact resolved_of_isRelativeOrRooted h

theorem keepsPlain_resolved (htable : ∀ a ∈ table.entries, a.PointsInside) (hs : s.all isPlain)
    (hne : s ≠ []) : Form.KeepsPlain table.resolved s := by
  constructor
  · rcases table.resolved_cases s with h | ⟨a, ha, path, hpath, h⟩
    · rwa [h]
    · have hplain : path.all isPlain := by
        rw [Alias.eq_joinRemainder_of_resolve? hpath]
        refine Alias.all_joinRemainder (htable a ha).plain ?_
        rw [List.all_eq_true] at hs ⊢
        intro c hc
        exact hs c (List.mem_of_mem_drop hc)
      have hext : Specifier.scriptExtension.all isPlain := by decide
      rw [h]
      split <;> simp only [List.all_append, hplain, hext, Bool.and_self]
  · rcases isRelativeOrRooted_resolved htable s with h | h
    · rw [h]
    · have hne' := Specifier.ne_nil_of_isRelativeOrRooted h
      rw [Bool.eq_iff_iff, List.isEmpty_iff, List.isEmpty_iff]
      exact iff_of_false hne' hne

end AliasTable

end DualPackage
