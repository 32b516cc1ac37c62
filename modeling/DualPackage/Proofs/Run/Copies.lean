import DualPackage.Proofs.Run.Stages
/-!
# What a run copies

The copying stage walks through the source once for each output tree, on
the disk as the walk before has left it. What its walks meet
(`assetSightings`) and which files it copies (`copies`) are told here in
order. The files that it copies are those that the report counts
(`filesCopied_eq_length`), and what becomes of the disk is told from them
(`run_accounted`).
-/

namespace DualPackage

/-- The account covers what a run does to the trees in some directories: it
has nothing to tell of directories that are made or texts that are rewritten,
and tells each file that is copied. -/
structure Account.Covers (A : Account Disk Copied) (inv : Disk → Prop) (N : String → Prop)
    (dirs : List Path) : Prop where
  makeDir : ∀ p, (A.silent inv).Allows (·.makeDir p)
  copyFile : ∀ c d d', inv d → d.copyFile c.source c.target = .ok d' → inv d' ∧ A.holds [c] d d'
  rewritable : Run.Rewritable (A.silent inv) N dirs

namespace Run

variable {policy : CopyPolicy} {outputDirs : List Path} {outputs : List (ModuleKind × Path)}
  {kind : ModuleKind} {dir : Path} {config : Config} {w w' : World} {report report' : Report}

/-- What the copies into the given trees meet, in order, each with the
directory that is copied into. A copy that fails is the last one. -/
def sightingsInto (policy : CopyPolicy) (outputDirs : List Path) :
    List (ModuleKind × Path) → World → List (Path × Sighting)
  | [], _ => []
  | (kind, dir) :: rest, w =>
    let start := Outcome.state (Build.log (.copying kind) w)
    let met := (Tree.copySightings policy dir outputDirs start).map fun x => (dir, x)
    match (Tree.copy policy dir outputDirs >>= fun _ => adjustTree kind dir) start with
    | .ok _ w' => met ++ sightingsInto policy outputDirs rest w'
    | .error _ _ => met

/-- What the copying stage meets. -/
def assetSightings (config : Config) (w : World) : List (Path × Sighting) :=
  match config.copyFiles with
  | none => []
  | some policy => sightingsInto policy config.outputDirs config.outputs w

/-- The files that are copied into the given trees. -/
def copiesInto (policy : CopyPolicy) (outputDirs : List Path) (outputs : List (ModuleKind × Path))
    (w : World) : List Copied :=
  (sightingsInto policy outputDirs outputs w).filterMap fun x => Tree.copied? policy x.1 x.2

/-- The files that a run copies. Its copies begin once the markers are
written. -/
def copies (config : Config) (w : World) : List Copied :=
  match config.copyFiles with
  | none => []
  | some policy =>
    copiesInto policy config.outputDirs config.outputs (Outcome.state (writeMarkers config w))

/-! ## One tree after the other -/

/-- Copying into the first tree, and then into the others. -/
theorem copyInto_cons_ok {o : ModuleKind × Path}
    (hok : copyInto policy outputDirs (o :: outputs) report w = .ok report' w') :
    ∃ w₁ w₂ w₃ count adjusted, w₁.disk = w.disk ∧
      Tree.copy policy o.2 outputDirs w₁ = .ok count w₂ ∧
      adjustTree o.1 o.2 w₂ = .ok adjusted w₃ ∧
      copyInto policy outputDirs outputs
        { report with
          filesCopied := report.filesCopied + count.copied
          filesExcluded := report.filesExcluded + count.excluded
          esmFilesAdjusted := report.esmFilesAdjusted + adjusted } w₃ = .ok report' w' ∧
      copiesInto policy outputDirs (o :: outputs) w =
        Tree.copies policy o.2 outputDirs w₁ ++ copiesInto policy outputDirs outputs w₃ := by
  obtain ⟨⟨⟩, w₁, hlog, hok⟩ := Outcome.bind_ok hok
  obtain ⟨count, w₂, hcopy, hok⟩ := Outcome.bind_ok hok
  obtain ⟨adjusted, w₃, hadjust, hrest⟩ := Outcome.bind_ok hok
  have hstart : Outcome.state (Build.log (.copying o.1) w) = w₁ := by rw [hlog]; rfl
  have htogether : (Tree.copy policy o.2 outputDirs >>= fun _ => adjustTree o.1 o.2) w₁ =
      .ok adjusted w₃ := by
    simp only [bind, EStateM.bind, hcopy, hadjust]
  refine ⟨w₁, w₂, w₃, count, adjusted, Build.log_ok hlog, hcopy, hadjust, hrest, ?_⟩
  simp only [copiesInto, sightingsInto, hstart, htogether, List.filterMap_append, Tree.copies,
    List.filterMap_map, Function.comp_def]

section Accounts

variable {A : Account Disk Copied} {inv : Disk → Prop} {N : String → Prop} {dirs : List Path}

/-- What becomes of the disk while it is copied into the given trees. -/
theorem copyInto_accounted (hcovers : A.Covers inv N dirs) (hdirs : ∀ o ∈ outputs, o.2 ∈ dirs)
    (hs : inv w.disk)
    (hok : copyInto policy outputDirs outputs report w = .ok report' w') :
    inv w'.disk ∧ A.holds (copiesInto policy outputDirs outputs w) w.disk w'.disk := by
  induction outputs generalizing w report with
  | nil =>
    obtain ⟨-, rfl⟩ := Outcome.pure_ok hok
    exact ⟨hs, A.nil _⟩
  | cons o outputs ih =>
    obtain ⟨hhere, hdirs⟩ := List.forall_mem_cons.1 hdirs
    obtain ⟨w₁, w₂, w₃, count, adjusted, hdisk, hfirst, hadjust, hrest, hcopies⟩ :=
      copyInto_cons_ok hok
    obtain ⟨hinv₂, hcopied⟩ :=
      Tree.copy_accounted hcovers.makeDir hcovers.copyFile (hdisk ▸ hs) hfirst
    obtain ⟨hinv₃, hadjusted⟩ := (adjustTree_keeps hcovers.rewritable hhere).step hinv₂ hadjust
    obtain ⟨hinv', hothers⟩ := ih hdirs hinv₃ hrest
    rw [hdisk] at hcopied
    rw [hcopies]
    exact ⟨hinv', A.append hcopied (A.append hadjusted hothers)⟩

/-- **What becomes of the disk in a run** is told from the files it copies,
once the markers are written. -/
theorem run_accounted (hcovers : A.Covers inv N config.outputDirs)
    (hok : run config w = .ok report w') :
    ∃ markers w₁, writeMarkers config w = .ok markers w₁ ∧
      (inv w₁.disk → inv w'.disk ∧ A.holds (copies config w) w₁.disk w'.disk) := by
  obtain ⟨markers, w₁, hmarkers, hok⟩ := Outcome.bind_ok hok
  obtain ⟨copied, w₂, hassets, hok⟩ := Outcome.bind_ok hok
  obtain ⟨extended, w₃, hextend, hok⟩ := Outcome.bind_ok hok
  obtain ⟨resolved, w₄, hresolve, hok⟩ := Outcome.bind_ok hok
  obtain ⟨⟨⟩, w₅, hlog, hok⟩ := Outcome.bind_ok hok
  obtain ⟨-, rfl⟩ := Outcome.pure_ok hok
  refine ⟨markers, w₁, hmarkers, fun hs => ?_⟩
  have hassets : inv w₂.disk ∧ A.holds (copies config w) w₁.disk w₂.disk := by
    unfold copyAssets at hassets
    unfold copies
    cases hpolicy : config.copyFiles with
    | none =>
      rw [hpolicy] at hassets
      obtain ⟨-, rfl⟩ := Outcome.pure_ok hassets
      exact ⟨hs, A.nil _⟩
    | some policy =>
      rw [hpolicy] at hassets
      rw [hmarkers]
      exact copyInto_accounted hcovers (fun _ => mem_outputDirs) hs hassets
  obtain ⟨hinv₃, hextended⟩ := (addExtensions_keeps hcovers.rewritable).step hassets.1 hextend
  obtain ⟨hinv₄, hresolved⟩ := (resolveAliases_keeps hcovers.rewritable).step hinv₃ hresolve
  rw [Build.log_ok hlog]
  have hall := A.append hassets.2 (A.append hextended hresolved)
  rw [List.nil_append, List.append_nil] at hall
  exact ⟨hinv₄, hall⟩

end Accounts

/-- The copying stage of a run. -/
theorem exists_copyInto_of_run (hpolicy : config.copyFiles = some policy)
    (hok : run config w = .ok report w') :
    ∃ markers w₁ report₁ report₂ w₂, writeMarkers config w = .ok markers w₁ ∧
      copyInto policy config.outputDirs config.outputs report₁ w₁ = .ok report₂ w₂ ∧
      copies config w = copiesInto policy config.outputDirs config.outputs w₁ := by
  obtain ⟨markers, w₁, hmarkers, hok⟩ := Outcome.bind_ok hok
  obtain ⟨copied, w₂, hassets, -⟩ := Outcome.bind_ok hok
  unfold copyAssets at hassets
  rw [hpolicy] at hassets
  refine ⟨markers, w₁, _, copied, w₂, hmarkers, hassets, ?_⟩
  rw [copies, hpolicy, hmarkers]
  rfl

/-! ## The report -/

theorem copyInto_counted (hok : copyInto policy outputDirs outputs report w = .ok report' w') :
    report'.filesCopied =
      report.filesCopied + (copiesInto policy outputDirs outputs w).length := by
  induction outputs generalizing w report with
  | nil =>
    obtain ⟨rfl, -⟩ := Outcome.pure_ok hok
    rfl
  | cons o outputs ih =>
    obtain ⟨w₁, w₂, w₃, count, adjusted, -, hfirst, -, hrest, hcopies⟩ := copyInto_cons_ok hok
    rw [ih hrest, hcopies, List.length_append, Tree.copied_eq_length hfirst, Nat.add_assoc]

/-- **The report counts** the files that the run copies. -/
theorem filesCopied_eq_length (hok : run config w = .ok report w') :
    report.filesCopied = (copies config w).length := by
  obtain ⟨markers, w₁, hmarkers, hok⟩ := Outcome.bind_ok hok
  obtain ⟨copied, w₂, hassets, hok⟩ := Outcome.bind_ok hok
  obtain ⟨extended, w₃, -, hok⟩ := Outcome.bind_ok hok
  obtain ⟨resolved, w₄, -, hok⟩ := Outcome.bind_ok hok
  obtain ⟨⟨⟩, w₅, -, hok⟩ := Outcome.bind_ok hok
  obtain ⟨rfl, -⟩ := Outcome.pure_ok hok
  show copied.filesCopied = _
  unfold copyAssets at hassets
  unfold copies
  cases hpolicy : config.copyFiles with
  | none =>
    rw [hpolicy] at hassets
    obtain ⟨rfl, -⟩ := Outcome.pure_ok hassets
    rfl
  | some policy =>
    rw [hpolicy] at hassets
    rw [hmarkers]
    exact (copyInto_counted hassets).trans (Nat.zero_add _)

/-! ## What the walks meet -/

/-- A copy does not harm a sound disk, into whatever directory. -/
theorem copy_growing (cwd : Location) :
    ((Contract.growing Disk.anywhere Disk.anywhere cwd).along World.disk).Keeps
      (Tree.copy policy dir outputDirs) := by
  have hadmits := Contract.growing_anywhere_admits cwd dir
  exact Tree.copy_keeps (fun d hd _ _ => hd.1.isName_of_mem_children) hadmits.tree
    fun names hnames => ⟨hadmits.dirs names hnames, hadmits.copies names hnames⟩

/-- Nor do the source fixes after it. -/
theorem adjustTree_growing (cwd : Location) :
    ((Contract.growing Disk.anywhere Disk.anywhere cwd).along World.disk).Keeps
      (adjustTree kind dir) :=
  adjustTree_keeps (rewritable (fun _ hd _ _ => hd.1.isName_of_mem_children)
    fun p _ => Contract.growing_anywhere_admits cwd p) (List.mem_singleton_self dir)

theorem copyTree_growing (cwd : Location) :
    ((Contract.growing Disk.anywhere Disk.anywhere cwd).along World.disk).Keeps
      (Tree.copy policy dir outputDirs >>= fun _ => adjustTree kind dir) :=
  (copy_growing cwd).bind fun _ => adjustTree_growing cwd

/-- What is met stands along names below the source, with no directory on the
way left out. -/
theorem met_of_mem_sightingsInto (hs : w.disk.Sound) {x : Path × Sighting}
    (hx : x ∈ sightingsInto policy outputDirs outputs w) :
    (∃ o ∈ outputs, o.2 = x.1) ∧ ∃ names, (∀ n ∈ names, Path.IsName n) ∧
      Tree.Met (Tree.isPruned outputDirs x.1) policy.source names x.2 := by
  induction outputs generalizing w with
  | nil => simp [sightingsInto] at hx
  | cons o outputs ih =>
    obtain ⟨kind, dir⟩ := o
    simp only [sightingsInto] at hx
    set start := Outcome.state (Build.log (.copying kind) w)
    have hstart : start.disk.Sound := hs
    have hhere : x ∈ (Tree.copySightings policy dir outputDirs start).map (fun y => (dir, y)) →
        (∃ o ∈ (kind, dir) :: outputs, o.2 = x.1) ∧ ∃ names, (∀ n ∈ names, Path.IsName n) ∧
          Tree.Met (Tree.isPruned outputDirs x.1) policy.source names x.2 := by
      rintro hmem
      obtain ⟨y, hy, rfl⟩ := List.mem_map.1 hmem
      exact ⟨⟨(kind, dir), List.mem_cons_self, rfl⟩, Tree.met_of_mem_copySightings hstart hy⟩
    split at hx
    · rename_i w₁ hok
      rcases List.mem_append.1 hx with hmem | hmem
      · exact hhere hmem
      · have hsound := ((copyTree_growing start.disk.cwd).step ⟨hstart, rfl⟩ hok).1.1
        obtain ⟨⟨o, ho, hdir⟩, hmet⟩ := ih hsound hmem
        exact ⟨⟨o, List.mem_cons_of_mem _ ho, hdir⟩, hmet⟩
    · exact hhere hx

theorem met_of_mem_assetSightings (hs : w.disk.Sound) (hpolicy : config.copyFiles = some policy)
    {x : Path × Sighting} (hx : x ∈ assetSightings config w) :
    x.1 ∈ config.outputDirs ∧ ∃ names, (∀ n ∈ names, Path.IsName n) ∧
      Tree.Met (Tree.isPruned config.outputDirs x.1) policy.source names x.2 := by
  rw [assetSightings, hpolicy] at hx
  obtain ⟨⟨o, ho, hdir⟩, hmet⟩ := met_of_mem_sightingsInto hs hx
  exact ⟨hdir ▸ mem_outputDirs ho, hmet⟩

/-! ## The files that are copied -/

/-- Where a copy comes from: a file along names below the source, which is
neither left out nor inside a directory that is. -/
structure CopiedFrom (policy : CopyPolicy) (outputDirs : List Path) (names : List String)
    (c : Copied) : Prop where
  dest_mem : c.dest ∈ outputDirs
  isName : ∀ n ∈ names, Path.IsName n
  source_eq : c.source = policy.source.under names
  rest_eq : c.rest = ⟨"/".intercalate names⟩
  opened : Tree.Open (Tree.isPruned outputDirs c.dest) policy.source names
  included : policy.excludes c.source = false

theorem exists_copiedFrom (hs : w.disk.Sound) (houtputs : ∀ o ∈ outputs, o.2 ∈ outputDirs)
    {c : Copied} (hc : c ∈ copiesInto policy outputDirs outputs w) :
    ∃ names, CopiedFrom policy outputDirs names c := by
  obtain ⟨⟨dest, x⟩, hx, hcopied⟩ := List.mem_filterMap.1 hc
  obtain ⟨⟨o, ho, rfl⟩, names, hnames, hmet⟩ := met_of_mem_sightingsInto hs hx
  cases x with
  | loop path => cases hcopied
  | entry v =>
    have hpath : v.path = policy.source.under names := hmet.path_eq
    rw [Tree.copied?] at hcopied
    split at hcopied
    · cases hcopied
    · rename_i hfile
      simp only [Bool.or_eq_true, not_or, Bool.not_eq_true] at hfile
      obtain ⟨rest, hrest, rfl⟩ := Option.map_eq_some_iff.1 hcopied
      rw [hpath, Path.below?_under hnames] at hrest
      cases hrest
      exact ⟨names, houtputs o ho, hnames, hpath, rfl, hmet.opened, hfile.2⟩

/-- All output trees leave out the same directories. -/
theorem isPruned_eq {dest dest' : Path} (h : dest ∈ outputDirs) (h' : dest' ∈ outputDirs) :
    Tree.isPruned outputDirs dest = Tree.isPruned outputDirs dest' := by
  have hany : ∀ {o p : Path}, o ∈ outputDirs →
      (outputDirs ++ [o]).any (·.same p) = outputDirs.any (·.same p) := by
    intro o p ho
    rw [List.any_append, List.any_cons, List.any_nil, Bool.or_false, Bool.or_eq_left_iff_imp]
    exact fun hsame => List.any_eq_true.2 ⟨o, ho, hsame⟩
  funext dir
  rw [Tree.isPruned, Tree.isPruned, hany h, hany h']

/-- A file that is there all along is copied into each of the trees. -/
theorem mem_copiesInto {A : Account Disk Copied} {inv : Disk → Prop} {N : String → Prop}
    {dirs : List Path} {names : List String}
    (hcovers : A.Covers inv N dirs) (hdirs : ∀ o ∈ outputs, o.2 ∈ dirs)
    (hsound : ∀ d, inv d → d.Sound) (hs : inv w.disk)
    (hfile : ∀ x d, x <+: copiesInto policy outputDirs outputs w → inv d → A.holds x w.disk d →
      ∃ content, d.get? (policy.source.place d.cwd ++ names) = some (.file content))
    (hopen : ∀ o ∈ outputs, Tree.Open (Tree.isPruned outputDirs o.2) policy.source names)
    (hincluded : policy.excludes (policy.source.under names) = false)
    (hok : copyInto policy outputDirs outputs report w = .ok report' w') :
    ∀ o ∈ outputs, ⟨policy.source.under names, o.2, ⟨"/".intercalate names⟩⟩ ∈
      copiesInto policy outputDirs outputs w := by
  induction outputs generalizing w report with
  | nil => simp
  | cons o outputs ih =>
    obtain ⟨hhere, hdirs⟩ := List.forall_mem_cons.1 hdirs
    obtain ⟨hopenHere, hopen⟩ := List.forall_mem_cons.1 hopen
    obtain ⟨w₁, w₂, w₃, count, adjusted, hdisk, hfirst, hadjust, hrest, hcopies⟩ :=
      copyInto_cons_ok hok
    have hs₁ : inv w₁.disk := hdisk ▸ hs
    obtain ⟨hinv₂, hcopied⟩ := Tree.copy_accounted hcovers.makeDir hcovers.copyFile hs₁ hfirst
    obtain ⟨hinv₃, hadjusted⟩ := (adjustTree_keeps hcovers.rewritable hhere).step hinv₂ hadjust
    have hholds := A.append hcopied hadjusted
    rw [List.append_nil, hdisk] at hholds
    rw [hcopies]
    refine List.forall_mem_cons.2
      ⟨List.mem_append_left _ ?_, fun p hp => List.mem_append_right _ ?_⟩
    · obtain ⟨content, hthere⟩ := hfile [] w₁.disk List.nil_prefix hs₁ (hdisk ▸ A.nil w₁.disk)
      exact Tree.mem_copies (hsound _ hs₁) hthere hopenHere hincluded hfirst
    · refine ih hdirs hinv₃ (fun x d hleads hinv hx => ?_) hopen hrest p hp
      refine hfile _ d ?_ hinv (A.append hholds hx)
      rw [hcopies]
      exact (List.prefix_append_right_inj _).2 hleads

end Run

end DualPackage
