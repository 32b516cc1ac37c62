import DualPackage.Disk.Resolve
import Mathlib.Data.Bool.AllAny
import Mathlib.Data.List.Basic
/-!
# The location a path spells

A plain path begins at the root and has no `..` in it. Whatever slashes
and dots its text holds besides, it spells one location, the list of its
names (`Path.location`); components and joins can then be read off that
list.
-/

namespace DualPackage

namespace Path

variable {p q : Path} {x y : List Char}

/-- The location that the names of a path spell from the root. -/
def location (p : Path) : Location :=
  (Disk.steps p).filter (· != ".")

/-- A path from the root without any `..`. -/
structure IsPlain (p : Path) : Prop where
  isAbsolute : p.isAbsolute
  up_free : ".." ∉ p.segments

/-- A name that a path can spell in one segment. -/
structure IsName (n : String) : Prop where
  ne_empty : n ≠ ""
  ne_here : n ≠ "."
  ne_up : n ≠ ".."
  slash_free : ∀ c ∈ n.toList, c ≠ '/'

/-- What a text can hold between two slashes, and be a step. -/
structure IsSegment (n : String) : Prop where
  ne_empty : n ≠ ""
  slash_free : ∀ c ∈ n.toList, c ≠ '/'

theorem IsName.isSegment {n : String} (h : IsName n) : IsSegment n := ⟨h.ne_empty, h.slash_free⟩

instance (p : Path) : Decidable p.IsPlain :=
  decidable_of_iff (p.isAbsolute ∧ ".." ∉ p.segments)
    ⟨fun h => ⟨h.1, h.2⟩, fun h => ⟨h.isAbsolute, h.up_free⟩⟩

instance (n : String) : Decidable (IsName n) :=
  decidable_of_iff (n ≠ "" ∧ n ≠ "." ∧ n ≠ ".." ∧ n.toList.all fun c => c ≠ '/')
    ⟨fun h => ⟨h.1, h.2.1, h.2.2.1, List.all_iff_forall_prop.1 h.2.2.2⟩,
      fun h => ⟨h.ne_empty, h.ne_here, h.ne_up, List.all_iff_forall_prop.2 h.slash_free⟩⟩

theorem splitSlash_ne_nil (x : List Char) : splitSlash x ≠ [] := by
  cases x with
  | nil => simp [splitSlash]
  | cons c x =>
    rw [splitSlash]
    split
    · simp
    · split <;> simp

theorem splitSlash_of_slash_free (h : ∀ c ∈ x, c ≠ '/') : splitSlash x = [x] := by
  induction x with
  | nil => rfl
  | cons c x ih =>
    simp only [List.forall_mem_cons] at h
    simp [splitSlash, h.1, ih h.2]

/-- A slash divides the segments of a text. -/
theorem splitSlash_append (x y : List Char) :
    splitSlash (x ++ '/' :: y) = splitSlash x ++ splitSlash y := by
  induction x with
  | nil => simp [splitSlash]
  | cons c x ih =>
    by_cases hc : c = '/'
    · simp [splitSlash, hc, ih]
    · obtain ⟨seg, more, hx⟩ := List.exists_cons_of_ne_nil (splitSlash_ne_nil x)
      simp [splitSlash, hc, ih, hx]

theorem slash_free_of_mem_splitSlash {seg : List Char} (h : seg ∈ splitSlash x) :
    ∀ c ∈ seg, c ≠ '/' := by
  induction x generalizing seg with
  | nil => simp_all [splitSlash]
  | cons c x ih =>
    by_cases hc : c = '/'
    · simp only [splitSlash, hc, if_true, List.mem_cons] at h
      rcases h with rfl | h
      · simp
      · exact ih h
    · obtain ⟨seg', more, hx⟩ := List.exists_cons_of_ne_nil (splitSlash_ne_nil x)
      simp only [splitSlash, hc, if_false, hx, List.mem_cons] at h
      rcases h with rfl | h
      · have hseg : seg' ∈ splitSlash x := by simp [hx]
        simpa [hc] using ih hseg
      · exact ih (by simp [hx, h])

theorem slash_free_of_mem_segments {n : String} (h : n ∈ p.segments) : ∀ c ∈ n.toList, c ≠ '/' := by
  obtain ⟨seg, hseg, rfl⟩ := List.mem_map.1 h
  simpa using slash_free_of_mem_splitSlash hseg

theorem isSegment_of_mem_steps {n : String} (h : n ∈ Disk.steps p) : IsSegment n := by
  rw [Disk.steps, List.mem_filter, bne_iff_ne] at h
  exact ⟨h.2, slash_free_of_mem_segments h.1⟩

theorem up_mem_steps : ".." ∈ Disk.steps p ↔ ".." ∈ p.segments := by
  simp [Disk.steps]

/-- The text of a path joined to another. -/
theorem toList_join (hq : q.isAbsolute = false) :
    (p.join q).text.toList = p.text.toList ++
      (if p.text.isEmpty || p.endsInSlash then q.text.toList else '/' :: q.text.toList) := by
  simp only [join, hq, Bool.false_eq_true, if_false]
  split <;> simp

theorem join_of_isEmpty (hq : q.isAbsolute = false) (hp : p.text.isEmpty) : p.join q = q := by
  rw [String.isEmpty_iff] at hp
  simp [join, hq, hp]

/-- The segments of a path joined to another come behind those of the other,
but for the empty one that a slash at its end leaves. -/
theorem segments_join (hq : q.isAbsolute = false) (hp : p.text.isEmpty = false) :
    ∃ front, front ≠ [] ∧ (p.join q).segments = front ++ q.segments ∧
      (p.segments = front ∨ p.segments = front ++ [""]) := by
  simp only [segments, toList_join hq, hp, Bool.false_or]
  split
  · -- a path that ends in a slash is given no other
    rename_i hslash
    obtain ⟨x, hx⟩ : ∃ x, p.text.toList = x ++ ['/'] := by
      rw [endsInSlash, beq_iff_eq] at hslash
      exact ⟨_, (List.dropLast_append_getLast? _ hslash).symm⟩
    have hjoined : x ++ ['/'] ++ q.text.toList = x ++ '/' :: q.text.toList := by simp
    refine ⟨(splitSlash x).map String.ofList, by simpa using splitSlash_ne_nil x, ?_, .inr ?_⟩
    · rw [hx, hjoined, splitSlash_append, List.map_append]
    · rw [hx, splitSlash_append]
      simp [splitSlash]
  · exact ⟨(splitSlash p.text.toList).map String.ofList, by simpa using splitSlash_ne_nil _,
      by rw [splitSlash_append, List.map_append], .inl rfl⟩

/-- The steps of a path joined to another come behind those of the other. -/
theorem steps_join (hq : q.isAbsolute = false) :
    Disk.steps (p.join q) = Disk.steps p ++ Disk.steps q := by
  cases hp : p.text.isEmpty with
  | true =>
    rw [join_of_isEmpty hq hp]
    rw [String.isEmpty_iff] at hp
    simp [Disk.steps, segments, hp, splitSlash]
  | false =>
    obtain ⟨front, -, hjoined, hfront | hfront⟩ := segments_join hq hp <;>
      simp [Disk.steps, hjoined, hfront]

theorem location_join (hq : q.isAbsolute = false) :
    (p.join q).location = p.location ++ q.location := by
  simp [location, steps_join hq]

theorem isAbsolute_join (hq : q.isAbsolute = false) : (p.join q).isAbsolute = p.isAbsolute := by
  cases hp : p.text.isEmpty with
  | true =>
    rw [join_of_isEmpty hq hp, hq]
    rw [String.isEmpty_iff] at hp
    simp [isAbsolute, hp]
  | false =>
    obtain ⟨c, x, hx⟩ : ∃ c x, p.text.toList = c :: x := by
      refine List.exists_cons_of_ne_nil fun hnil => ?_
      rw [String.toList_eq_nil_iff] at hnil
      simp [hnil] at hp
    rw [isAbsolute, toList_join hq, isAbsolute, hx]
    rfl

theorem IsPlain.join (hp : p.IsPlain) (hq : q.isAbsolute = false) (hup : ".." ∉ q.segments) :
    (p.join q).IsPlain where
  isAbsolute := by rw [isAbsolute_join hq, hp.isAbsolute]
  up_free := by
    rw [← up_mem_steps, steps_join hq, List.mem_append, up_mem_steps, up_mem_steps]
    exact not_or.2 ⟨hp.up_free, hup⟩

/-- The location of a plain path is made of names. -/
theorem IsPlain.isName_of_mem_location (h : p.IsPlain) {n : String} (hn : n ∈ p.location) :
    IsName n := by
  simp only [location, Disk.steps, List.mem_filter, bne_iff_ne, ne_eq] at hn
  refine ⟨hn.1.2, hn.2, ?_, slash_free_of_mem_segments hn.1.1⟩
  rintro rfl
  exact h.up_free hn.1.1

/-! ## Paths made of names -/

variable {names : List String}

/-- Names with slashes between them are the segments of the text. -/
theorem splitSlash_intercalate (hne : names ≠ []) (h : ∀ n ∈ names, ∀ c ∈ n.toList, c ≠ '/') :
    splitSlash ("/".intercalate names).toList = names.map String.toList := by
  induction names with
  | nil => exact absurd rfl hne
  | cons n names ih =>
    have hn := splitSlash_of_slash_free (h n (by simp))
    cases names with
    | nil => simpa using hn
    | cons m names =>
      have hrest := ih (by simp) fun m hm => h m (by simp [hm])
      have htext : ("/".intercalate (n :: m :: names)).toList =
          n.toList ++ '/' :: ("/".intercalate (m :: names)).toList := by
        rw [String.intercalate_cons_cons]
        simp
      rw [htext, splitSlash_append, hn, hrest]
      rfl

theorem segments_joined (hne : names ≠ []) (h : ∀ n ∈ names, IsSegment n) :
    (⟨"/".intercalate names⟩ : Path).segments = names := by
  rw [segments, splitSlash_intercalate hne fun n hn => (h n hn).slash_free, List.map_map]
  simp [Function.comp_def]

theorem steps_joined (h : ∀ n ∈ names, IsSegment n) :
    Disk.steps ⟨"/".intercalate names⟩ = names := by
  by_cases hne : names = []
  · subst hne
    decide
  · rw [Disk.steps, segments_joined hne h, List.filter_eq_self]
    intro n hn
    simpa using (h n hn).ne_empty

theorem isAbsolute_joined (h : ∀ n ∈ names, IsSegment n) :
    (⟨"/".intercalate names⟩ : Path).isAbsolute = false := by
  cases names with
  | nil => decide
  | cons n names =>
    obtain ⟨c, x, hx⟩ : ∃ c x, n.toList = c :: x := by
      refine List.exists_cons_of_ne_nil fun hnil => (h n (by simp)).ne_empty ?_
      exact String.toList_eq_nil_iff.1 hnil
    have hc : c ≠ '/' := (h n (by simp)).slash_free c (by simp [hx])
    cases names <;> simp [isAbsolute, String.intercalate_cons_cons, hx, hc]

/-- The segments of a text from the root begin with an empty one. -/
theorem segments_rooted (text : String) :
    (⟨"/" ++ text⟩ : Path).segments = "" :: (⟨text⟩ : Path).segments := by
  simp [segments, splitSlash]

theorem steps_rooted_eq (text : String) :
    Disk.steps ⟨"/" ++ text⟩ = Disk.steps ⟨text⟩ := by
  simp [Disk.steps, segments_rooted]

theorem segments_intercalate (hne : names ≠ []) (h : ∀ n ∈ names, IsName n) :
    (⟨"/".intercalate names⟩ : Path).segments = names :=
  segments_joined hne fun n hn => (h n hn).isSegment

theorem steps_intercalate (h : ∀ n ∈ names, IsName n) :
    Disk.steps ⟨"/".intercalate names⟩ = names :=
  steps_joined fun n hn => (h n hn).isSegment

theorem location_intercalate (h : ∀ n ∈ names, IsName n) :
    (⟨"/".intercalate names⟩ : Path).location = names := by
  rw [location, steps_intercalate h, List.filter_eq_self]
  intro n hn
  simpa using (h n hn).ne_here

theorem isAbsolute_intercalate (h : ∀ n ∈ names, IsName n) :
    (⟨"/".intercalate names⟩ : Path).isAbsolute = false :=
  isAbsolute_joined fun n hn => (h n hn).isSegment

theorem up_free_intercalate (h : ∀ n ∈ names, IsName n) :
    ".." ∉ (⟨"/".intercalate names⟩ : Path).segments := by
  rw [← up_mem_steps, steps_intercalate h]
  exact fun hmem => (h ".." hmem).ne_up rfl

/-- The path from the root along names. -/
theorem steps_rooted (h : ∀ n ∈ names, IsName n) :
    Disk.steps ⟨"/" ++ "/".intercalate names⟩ = names := by
  rw [steps_rooted_eq, steps_intercalate h]

theorem location_rooted (h : ∀ n ∈ names, IsName n) :
    (⟨"/" ++ "/".intercalate names⟩ : Path).location = names := by
  rw [location, steps_rooted h, List.filter_eq_self]
  intro n hn
  simpa using (h n hn).ne_here

theorem isPlain_rooted (h : ∀ n ∈ names, IsName n) :
    (⟨"/" ++ "/".intercalate names⟩ : Path).IsPlain where
  isAbsolute := by simp [isAbsolute]
  up_free := by
    rw [← up_mem_steps, steps_rooted h]
    exact fun hmem => (h ".." hmem).ne_up rfl

/-! A name is a path of one segment. -/

namespace IsName

variable {n : String}

theorem isAbsolute (h : IsName n) : (⟨n⟩ : Path).isAbsolute = false := by
  have habs := isAbsolute_intercalate (List.forall_mem_singleton.2 h)
  rwa [String.intercalate_singleton] at habs

theorem segments (h : IsName n) : (⟨n⟩ : Path).segments = [n] := by
  have hsegments := segments_intercalate (List.cons_ne_nil n []) (List.forall_mem_singleton.2 h)
  rwa [String.intercalate_singleton] at hsegments

theorem steps (h : IsName n) : Disk.steps ⟨n⟩ = [n] := by
  have hsteps := steps_intercalate (List.forall_mem_singleton.2 h)
  rwa [String.intercalate_singleton] at hsteps

theorem location (h : IsName n) : (⟨n⟩ : Path).location = [n] := by
  have hlocation := location_intercalate (List.forall_mem_singleton.2 h)
  rwa [String.intercalate_singleton] at hlocation

theorem up_free (h : IsName n) : ".." ∉ (⟨n⟩ : Path).segments := by
  rw [h.segments, List.mem_singleton]
  exact Ne.symm h.ne_up

end IsName

/-! ## Components -/

theorem filterMap_ofSegment? (segments : List String) (h : ".." ∉ segments) :
    segments.filterMap Component.ofSegment? =
      ((segments.filter (· != "")).filter (· != ".")).map .name := by
  induction segments with
  | nil => rfl
  | cons s segments ih =>
    simp only [List.mem_cons, not_or] at h
    have hrest := ih h.2
    by_cases hs : s = ""
    · simpa [Component.ofSegment?, hs] using hrest
    · by_cases hs' : s = "."
      · simpa [Component.ofSegment?, hs'] using hrest
      · simpa [Component.ofSegment?, hs, hs', Ne.symm h.1] using hrest

/-- **The components of a plain path** are the root and its location. -/
theorem IsPlain.components_eq (h : p.IsPlain) :
    p.components = .root :: p.location.map .name := by
  simp only [components, h.isAbsolute, if_true, location, Disk.steps]
  rw [filterMap_ofSegment? _ h.up_free]

theorem map_name_injective : Function.Injective (List.map Component.name) :=
  List.map_injective_iff.2 fun _ _ h => by simpa using h

theorem IsPlain.same_iff (hp : p.IsPlain) (hq : q.IsPlain) :
    p.same q ↔ p.location = q.location := by
  -- components are compared, and those of a plain path are its location
  rw [same, beq_iff_eq, hp.components_eq, hq.components_eq, List.cons.injEq]
  simp only [true_and]
  exact map_name_injective.eq_iff

theorem ofComponents_names (names : List String) :
    ofComponents (names.map .name) = ⟨"/".intercalate names⟩ := by
  have htexts : (names.map Component.name).map Component.text = names := by
    simp [Function.comp_def, Component.text]
  cases names with
  | nil => rfl
  | cons n names =>
    show (⟨"/".intercalate (((n :: names).map Component.name).map Component.text)⟩ : Path) = _
    rw [htexts]

/-- What is left of a path below another are the names in between. -/
theorem below?_of_components (h : q.components = p.components ++ names.map .name) :
    q.below? p = some ⟨"/".intercalate names⟩ := by
  have hprefix : p.components.isPrefixOf? q.components = some (names.map .name) := by
    rw [List.isPrefixOf?_eq_some_iff_append_eq, h]
  simp [below?, hprefix, ofComponents_names]

theorem IsPlain.below?_eq_some (hp : p.IsPlain) (hq : q.IsPlain)
    (h : q.location = p.location ++ names) :
    q.below? p = some ⟨"/".intercalate names⟩ :=
  below?_of_components (by rw [hp.components_eq, hq.components_eq, h]; simp)

/-! ## Going down by names -/

/-- The path that a walk gives to what it finds along names below `p`. -/
def under (p : Path) (names : List String) : Path :=
  names.foldl (fun q n => q.join ⟨n⟩) p

@[simp] theorem under_nil (p : Path) : p.under [] = p := rfl

@[simp] theorem under_cons (p : Path) (n : String) (names : List String) :
    p.under (n :: names) = (p.join ⟨n⟩).under names := rfl

theorem under_append (p : Path) (x y : List String) : p.under (x ++ y) = (p.under x).under y :=
  List.foldl_append ..

theorem under_concat (p : Path) (names : List String) (n : String) :
    p.under (names ++ [n]) = (p.under names).join ⟨n⟩ := by
  rw [under_append, under_cons, under_nil]

theorem isPlain_join_name (hp : p.IsPlain) {n : String} (hn : IsName n) :
    (p.join ⟨n⟩).IsPlain ∧ (p.join ⟨n⟩).location = p.location ++ [n] :=
  ⟨hp.join hn.isAbsolute hn.up_free, by rw [location_join hn.isAbsolute, hn.location]⟩

/-- **Names lead down one location at a time.** -/
theorem isPlain_under (hp : p.IsPlain) (h : ∀ n ∈ names, IsName n) :
    (p.under names).IsPlain ∧ (p.under names).location = p.location ++ names := by
  induction names generalizing p with
  | nil => exact ⟨hp, by simp⟩
  | cons n names ih =>
    obtain ⟨hplain, hloc⟩ := isPlain_join_name hp (h n (by simp))
    obtain ⟨hplain', hloc'⟩ := ih hplain fun m hm => h m (by simp [hm])
    exact ⟨hplain', by rw [under_cons, hloc', hloc, List.append_assoc, List.singleton_append]⟩

/-- And so do all of them at once. -/
theorem isPlain_join_names (hp : p.IsPlain) (h : ∀ n ∈ names, IsName n) :
    (p.join ⟨"/".intercalate names⟩).IsPlain ∧
      (p.join ⟨"/".intercalate names⟩).location = p.location ++ names := by
  have habs := isAbsolute_intercalate h
  exact ⟨hp.join habs (up_free_intercalate h),
    by rw [location_join habs, location_intercalate h]⟩

/-! ## Paths apart -/

/-- Neither of two paths is, or is above, the other. -/
structure Apart (p q : Path) : Prop where
  not_above : ¬ p.location <+: q.location
  not_below : ¬ q.location <+: p.location

variable {q : Path}

instance (p q : Path) : Decidable (Apart p q) :=
  decidable_of_iff (¬ p.location <+: q.location ∧ ¬ q.location <+: p.location)
    ⟨fun h => ⟨h.1, h.2⟩, fun h => ⟨h.not_above, h.not_below⟩⟩

theorem Apart.symm (h : Apart p q) : Apart q p := ⟨h.not_below, h.not_above⟩

/-- Paths apart have no location below them in common. -/
theorem Apart.append_ne (h : Apart p q) (x y : List String) :
    p.location ++ x ≠ q.location ++ y := by
  intro heq
  rcases List.prefix_or_prefix_of_prefix (heq ▸ List.prefix_append p.location x)
    (List.prefix_append q.location y) with hp | hq
  · exact h.not_above hp
  · exact h.not_below hq

theorem Apart.not_prefix_append (h : Apart p q) (y : List String) :
    ¬ p.location <+: q.location ++ y := by
  rintro ⟨x, hx⟩
  exact h.append_ne x y hx

/-! ## Going up -/

theorem leadingParts_concat {α : Type} (x : List α) (a : α) :
    leadingParts (x ++ [a]) = x :: leadingParts x := by
  induction x with
  | nil => rfl
  | cons b x ih => simp [leadingParts, ih]

theorem prefix_of_mem_leadingParts {α : Type} {x l : List α} (h : x ∈ leadingParts l) :
    x <+: l := by
  induction l generalizing x with
  | nil => simp [leadingParts] at h
  | cons a l ih =>
    rw [leadingParts, List.mem_append, List.mem_map, List.mem_singleton] at h
    rcases h with ⟨y, hy, rfl⟩ | rfl
    · exact (List.prefix_cons_inj a).2 (ih hy)
    · exact List.nil_prefix

/-- The nearest path above a plain one spells the location above. -/
theorem IsPlain.ancestors_eq (hp : p.IsPlain) {loc : Location} {n : String}
    (h : p.location = loc ++ [n]) :
    ∃ parent : Path, parent.IsPlain ∧ parent.location = loc ∧
      p.ancestors = parent :: parent.ancestors := by
  have hnames : ∀ m ∈ loc, IsName m := fun m hm =>
    hp.isName_of_mem_location (by rw [h]; exact List.mem_append_left _ hm)
  -- the path above is spelled from the components, and need not be a part of the text
  refine ⟨⟨"/" ++ "/".intercalate loc⟩, isPlain_rooted hnames, location_rooted hnames, ?_⟩
  have hparent : ofComponents (.root :: loc.map .name) = ⟨"/" ++ "/".intercalate loc⟩ := by
    simp [ofComponents, Function.comp_def, Component.text]
  have hcomponents : p.components = (.root :: loc.map .name) ++ [.name n] := by
    rw [hp.components_eq, h]
    simp
  rw [ancestors, hcomponents, leadingParts_concat, List.map_cons, hparent, ancestors,
    (isPlain_rooted hnames).components_eq, location_rooted hnames]

/-- The paths above a plain one are plain, but for the empty path at the
end. -/
theorem IsPlain.mem_ancestors (hp : p.IsPlain) (hq : q ∈ p.ancestors) :
    q = ⟨""⟩ ∨ q.IsPlain ∧ q.location <+: p.location := by
  obtain ⟨x, hx, rfl⟩ := List.mem_map.1 hq
  have hleads := prefix_of_mem_leadingParts hx
  rw [hp.components_eq] at hleads
  cases x with
  | nil => exact .inl rfl
  | cons c x =>
    obtain ⟨rfl, hrest⟩ := List.cons_prefix_cons.1 hleads
    obtain ⟨names, hnames, rfl⟩ := List.prefix_map_iff.1 hrest
    have hproper : ∀ n ∈ names, IsName n := fun n hn =>
      hp.isName_of_mem_location (hnames.subset hn)
    have htext : ofComponents (.root :: names.map .name) = ⟨"/" ++ "/".intercalate names⟩ := by
      simp [ofComponents, Function.comp_def, Component.text]
    rw [htext]
    exact .inr ⟨isPlain_rooted hproper, by rwa [location_rooted hproper]⟩

end Path

end DualPackage
