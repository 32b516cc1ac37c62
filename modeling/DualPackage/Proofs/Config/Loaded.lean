import DualPackage.Proofs.Alias.Precedence
import DualPackage.Proofs.Config.Format
import DualPackage.Proofs.Json.Members
import DualPackage.Proofs.Path.Tidy
import Mathlib.Data.String.Basic
/-!
# What a loaded configuration is made of

A configuration that was loaded for a root that is absolute is in a normal
form, told by `Loaded` from the members of the text it was loaded from, the
repeated ones included. Its paths are those of the text read from the root and
written anew. The endings that keep a file from being copied are a set with
`.ts` in it. The alias table has each alias once, in the order of the text.
`ofText_loaded` says this of everything that is loaded.
-/

namespace DualPackage

namespace CopyPolicy

variable {ending e : String} {endings endings' : List String}

/-! ## Sets of endings -/

theorem mem_addEnding : e ∈ addEnding ending endings ↔ e = ending ∨ e ∈ endings := by
  induction endings with
  | nil => simp [addEnding]
  | cons first rest ih =>
    rw [addEnding]
    split_ifs with hsame hless
    · subst hsame
      simp
    · simp
    · rw [List.mem_cons, ih, List.mem_cons]
      tauto

/-- Adding an ending keeps the list ascending. -/
theorem pairwise_addEnding (h : endings.Pairwise (· < ·)) :
    (addEnding ending endings).Pairwise (· < ·) := by
  induction endings with
  | nil => exact List.pairwise_singleton ..
  | cons first rest ih =>
    obtain ⟨hfirst, hrest⟩ := List.pairwise_cons.1 h
    rw [addEnding]
    split_ifs with hsame hless
    · exact h
    · refine List.pairwise_cons.2 ⟨fun e he => ?_, h⟩
      rcases List.mem_cons.1 he with rfl | he
      · exact hless
      · exact String.lt_trans hless (hfirst e he)
    · refine List.pairwise_cons.2 ⟨fun e he => ?_, ih hrest⟩
      rcases mem_addEnding.1 he with rfl | he
      · exact lt_of_le_of_ne (not_lt.1 hless) (Ne.symm hsame)
      · exact hfirst e he

theorem mem_exclude (source : Path) :
    e ∈ (ofEndings source endings).exclude ↔ e = sourceEnding ∨ e ∈ endings := by
  rw [ofEndings, List.foldr_cons, mem_addEnding]
  have hfold : e ∈ endings.foldr addEnding [] ↔ e ∈ endings := by
    induction endings with
    | nil => rfl
    | cons ending endings ih => rw [List.foldr_cons, mem_addEnding, ih, List.mem_cons]
  rw [hfold]

theorem pairwise_exclude (source : Path) (endings : List String) :
    (ofEndings source endings).exclude.Pairwise (· < ·) := by
  rw [ofEndings]
  induction sourceEnding :: endings with
  | nil => exact .nil
  | cons ending endings ih => exact pairwise_addEnding ih

/-- **Only the set of endings counts,** not their order, and not how often they
are given. -/
theorem exclude_congr {source source' : Path} (h : ∀ e, e ∈ endings ↔ e ∈ endings') :
    (ofEndings source endings).exclude = (ofEndings source' endings').exclude := by
  have hperm : (ofEndings source endings).exclude.Perm (ofEndings source' endings').exclude :=
    (List.perm_ext_iff_of_nodup
      ((pairwise_exclude source endings).imp fun hlt => ne_of_lt hlt)
      ((pairwise_exclude source' endings').imp fun hlt => ne_of_lt hlt)).2
        fun e => by rw [mem_exclude, mem_exclude, h]
  exact List.Perm.eq_of_pairwise (fun _ _ _ _ hlt hgt => absurd hlt (lt_asymm hgt))
    (pairwise_exclude source endings) (pairwise_exclude source' endings') hperm

end CopyPolicy

namespace Config

open Json (Value Fields mergedMembers)
open Keyed

variable {disk : Disk} {root path : Path} {text : String} {members fields : Fields}
  {config : Config}

/-! ## The normal form -/

/-- What a copy policy is, told from the members of its object. -/
structure LoadedPolicy (root : Path) (members : Fields) (policy : CopyPolicy) : Prop where
  /-- The source is the directory under `from`, or the usual one. -/
  source : ∃ named : Path, (last? members "from" = none ∧ named = defaultSource ∨
    last? members "from" = some (.string named.text)) ∧ (root.join named).Tidies policy.source
  /-- An ending begins with a dot. -/
  dotted : ∀ e ∈ policy.exclude, e.toList.head? = some '.'
  /-- Sources are never copied. -/
  sources : CopyPolicy.sourceEnding ∈ policy.exclude
  /-- The endings are those under `exclude` and that of sources, in whatever
  order and however often they are given. -/
  endings : ∃ given : List String, (last? members "exclude" = none ∧ given = [] ∨
    last? members "exclude" = some (.array (given.map .string))) ∧
      (∀ e, e ∈ policy.exclude ↔ e = CopyPolicy.sourceEnding ∨ e ∈ given) ∧
      ∀ given' : List String, (∀ e, e ∈ given' ↔ e ∈ given) →
        policy.exclude = (CopyPolicy.ofEndings policy.source given').exclude

/-- What a configuration is, told from the members of its object. -/
structure Loaded (root : Path) (members : Fields) (config : Config) : Prop where
  /-- An output directory is the one under the key of its tree, or the usual one
  in the place of `auto`. -/
  dirs : ∀ kind dir, config.outputDir? kind = some dir → ∃ s : String,
    last? members kind.configKey = some (.string s) ∧
      (root.join (if s = autoDir then kind.defaultDir else ⟨s⟩)).Tidies dir
  copyFiles : ∀ policy, config.copyFiles = some policy → ∃ entries,
    last? members "copyFiles" = some (.object entries) ∧ LoadedPolicy root entries policy
  /-- An alias stands where it is given first, and has the path it is given
  last. -/
  aliases : ∀ table, config.aliases = some table → ∃ entries,
    last? members "aliases" = some (.object entries) ∧ table.names.Nodup ∧
      Latest entries (table.pairs.map fun pair => (pair.1, .string pair.2))

/-! ## The parts of a configuration -/

/-- A path of the text, read from an absolute root. -/
theorem tidies_resolvePath (hroot : root.isAbsolute) (p : Path) :
    (root.join p).Tidies (resolvePath root p) :=
  Path.tidies_normalized (Path.isAbsolute_join_of hroot p)

theorem described_dirs (hroot : root.isAbsolute) (h : Latest (mergedMembers members) fields)
    {kind : ModuleKind} {dir : Path} (hdir : (described root fields).outputDir? kind = some dir) :
    ∃ s : String, last? members kind.configKey = some (.string s) ∧
      (root.join (if s = autoDir then kind.defaultDir else ⟨s⟩)).Tidies dir := by
  have hdescribed : dirOf? root fields kind = some dir := by
    cases kind <;> exact hdir
  obtain ⟨s, hs, rfl⟩ := Option.map_eq_some_iff.1 hdescribed
  obtain ⟨v, hget, hstring⟩ := Option.bind_eq_some_iff.1 hs
  cases v with
  | string s' =>
    obtain rfl : s' = s := Option.some.inj hstring
    exact ⟨s', Fields.last?_eq_string h hget, tidies_resolvePath hroot _⟩
  | _ => cases hstring

theorem exists_strings {p : String → Prop} {entries : List Value}
    (h : ∀ entry ∈ entries, ∃ s, entry = .string s ∧ p s) :
    ∃ given : List String, entries = given.map .string ∧ ∀ s ∈ given, p s := by
  induction entries with
  | nil => exact ⟨[], rfl, by simp⟩
  | cons entry entries ih =>
    obtain ⟨⟨s, rfl, hs⟩, hentries⟩ := List.forall_mem_cons.1 h
    obtain ⟨given, rfl, hgiven⟩ := ih hentries
    exact ⟨s :: given, rfl, List.forall_mem_cons.2 ⟨hs, hgiven⟩⟩

/-- The entries under `exclude` are the strings that are written there. -/
theorem exists_excluded (h : Latest (mergedMembers members) fields)
    (hdocumented : DocumentedPolicy disk root fields) :
    ∃ given : List String, (last? members "exclude" = none ∧ given = [] ∨
        last? members "exclude" = some (.array (given.map .string))) ∧
      (excluded fields).filterMap Value.string? = given ∧
      ∀ e ∈ given, e.toList.head? = some '.' := by
  cases hget : fields.get? "exclude" with
  | none => exact ⟨[], .inl ⟨Fields.last?_eq_none h hget, rfl⟩, by simp [excluded, hget], by simp⟩
  | some v =>
    obtain ⟨entries, rfl, hentries⟩ := hdocumented.exclude v hget
    obtain ⟨given, rfl, hdots⟩ := exists_strings fun entry hentry =>
      (hentries entry hentry).imp fun s hs => ⟨hs.1, hs.2.2⟩
    refine ⟨given, .inr (Fields.last?_eq_strings h hget), ?_, hdots⟩
    simp [excluded, hget, Value.array?, List.filterMap_map, Function.comp_def, Value.string?]

theorem exists_source (h : Latest (mergedMembers members) fields)
    (hdocumented : DocumentedPolicy disk root fields) :
    ∃ named : Path, (last? members "from" = none ∧ named = defaultSource ∨
        last? members "from" = some (.string named.text)) ∧
      sourceOf root fields = resolvePath root named := by
  cases hget : fields.get? "from" with
  | none =>
    exact ⟨defaultSource, .inl ⟨Fields.last?_eq_none h hget, rfl⟩, by simp [sourceOf, hget]⟩
  | some v =>
    obtain ⟨s, rfl, -⟩ := hdocumented.source v hget
    exact ⟨⟨s⟩, .inr (Fields.last?_eq_string h hget), by simp [sourceOf, hget, Value.string?]⟩

/-- A policy in the format. -/
theorem loaded_policy (hroot : root.isAbsolute) (h : Latest (mergedMembers members) fields)
    (hdocumented : DocumentedPolicy disk root fields) :
    LoadedPolicy root members
      (.ofEndings (sourceOf root fields) ((excluded fields).filterMap Value.string?)) := by
  obtain ⟨given, hgiven, hexcluded, hdots⟩ := exists_excluded h hdocumented
  obtain ⟨named, hnamed, hsource⟩ := exists_source h hdocumented
  rw [hexcluded, hsource]
  refine ⟨⟨named, hnamed, tidies_resolvePath hroot named⟩, fun e he => ?_,
    (CopyPolicy.mem_exclude _).2 (.inl rfl), given, hgiven, fun e => CopyPolicy.mem_exclude _,
    fun given' hsame => CopyPolicy.exclude_congr fun e => (hsame e).symm⟩
  rcases (CopyPolicy.mem_exclude _).1 he with rfl | he
  · decide
  · exact hdots e he

/-- Entries that are all strings are their pairs. -/
theorem map_pairs (hstrings : ∀ entry ∈ fields, ∃ s, entry.2 = .string s) :
    (pairs fields).map (fun pair => (pair.1, Value.string pair.2)) = fields := by
  induction fields with
  | nil => rfl
  | cons entry fields ih =>
    obtain ⟨⟨s, hs⟩, hrest⟩ := List.forall_mem_cons.1 hstrings
    obtain ⟨name, value⟩ := entry
    obtain rfl : value = .string s := hs
    have hpairs : pairs ((name, .string s) :: fields) = (name, s) :: pairs fields := rfl
    rw [hpairs, List.map_cons, ih hrest]

/-- The aliases of a table are those that are written. -/
theorem loaded_aliases (h : Latest (mergedMembers members) fields)
    (hstrings : ∀ entry ∈ fields, ∃ s, entry.2 = .string s) :
    (AliasTable.ofList (pairs fields)).names.Nodup ∧
      Latest members ((AliasTable.ofList (pairs fields)).pairs.map
        fun pair => (pair.1, .string pair.2)) := by
  have hkeys : (pairs fields).map Prod.fst = fields.map Prod.fst := by
    conv_rhs => rw [← map_pairs hstrings, List.map_map]
    rfl
  -- no key is repeated among the fields, so inserting them changes nothing
  have hgiven := (AliasTable.Inserted.inserted_ofList (pairs fields)).latest
  have hpairs : (AliasTable.ofList (pairs fields)).pairs = pairs fields :=
    (hgiven.unique (latest_putAll _)).trans (putAll_of_nodup (hkeys ▸ h.nodup))
  refine ⟨AliasTable.names_eq _ ▸ hgiven.nodup, Latest.of_map (f := Value.merged) ?_ ?_⟩
  · have hmerged : fields.map (fun entry => (entry.1, entry.2.merged)) = fields := by
      conv_lhs => rw [← map_pairs hstrings, List.map_map]
      exact map_pairs hstrings
    rwa [hpairs, map_pairs hstrings, hmerged, ← Json.mergedMembers_eq]
  · rintro pair hpair v hv
    obtain ⟨pair', -, rfl⟩ := List.mem_map.1 hpair
    exact Json.Value.merged_eq_string.1 hv

/-- **Everything that is loaded is in the normal form.** -/
theorem ofText_loaded (hroot : root.isAbsolute) (h : ofText disk root text path = .ok config) :
    ∃ members, Json.written text = .ok (.object members) ∧ Loaded root members config := by
  rw [ofText_eq_verdict, verdict_eq_ok, pass_checks] at h
  obtain ⟨⟨fields, hparse, hdocumented⟩, rfl⟩ := h
  obtain ⟨members, hwritten, hlatest⟩ := Json.exists_written_of_parse hparse
  have hobject : (object? text).getD [] = fields := by
    simp [object?, hparse, Except.toOption, Value.object?]
  rw [hobject]
  refine ⟨members, hwritten, fun kind dir hdir => described_dirs hroot hlatest hdir,
    fun policy hpolicy => ?_, fun table htable => ?_⟩
  · obtain ⟨policyFields, hfields, rfl⟩ := Option.map_eq_some_iff.1 hpolicy
    obtain ⟨v, hget, hv⟩ := Option.bind_eq_some_iff.1 hfields
    obtain ⟨policyFields', rfl, hpolicy'⟩ := hdocumented.copyFiles v hget
    obtain rfl : policyFields' = policyFields := Option.some.inj hv
    obtain ⟨entries, hentries, hlatest'⟩ := Fields.last?_eq_object hlatest hget
    exact ⟨entries, hentries, loaded_policy hroot hlatest' hpolicy'⟩
  · obtain ⟨aliasFields, hfields, rfl⟩ := Option.map_eq_some_iff.1 htable
    obtain ⟨v, hget, hv⟩ := Option.bind_eq_some_iff.1 hfields
    obtain ⟨aliasFields', rfl, hstrings⟩ := hdocumented.aliases v hget
    obtain rfl : aliasFields' = aliasFields := Option.some.inj hv
    obtain ⟨entries, hentries, hlatest'⟩ := Fields.last?_eq_object hlatest hget
    exact ⟨entries, hentries, loaded_aliases hlatest' hstrings⟩

/-- A text that gives keys again, an alias first as a number, and paths in
roundabout spellings. -/
def repeatedText : String :=
  "\x7b\"esmDir\":\"lost\",\"aliases\":\x7b\"@a\":1,\"@b\":\"y\",\"@a\":\"z\"\x7d," ++
    "\"copyFiles\":\x7b\"from\":\"..//w/.\",\"exclude\":[\".map\",\".js\",\".map\"]\x7d," ++
    "\"esmDir\":\"./out//../out/\"\x7d"

/-- The disk on which it is loaded. -/
def repeatedDisk : Disk := ⟨[(["w"], .dir), (["w", "out"], .dir)], []⟩

/-- What it is loaded as. -/
def repeatedConfig : Config :=
  { empty ⟨"/w"⟩ with
    esmDir := some ⟨"/w/out/../out"⟩
    copyFiles := some ⟨⟨"/w/../w"⟩, [".js", ".map", ".ts"]⟩
    aliases := some ⟨[⟨"@a", "z"⟩, ⟨"@b", "y"⟩]⟩ }

theorem ofText_loaded_repeated :
    ∃ members, Json.written repeatedText = .ok (.object members) ∧
      Loaded ⟨"/w"⟩ members repeatedConfig := by
  have hsome : (ofText repeatedDisk ⟨"/w"⟩ repeatedText fileName).toOption =
      some repeatedConfig := by decide +kernel
  have hload : ofText repeatedDisk ⟨"/w"⟩ repeatedText fileName = .ok repeatedConfig := by
    cases hload : ofText repeatedDisk ⟨"/w"⟩ repeatedText fileName with
    | error failure => simp [hload, Except.toOption] at hsome
    | ok config => simpa [hload, Except.toOption] using hsome
  exact ofText_loaded (by decide) hload

end Config

end DualPackage
