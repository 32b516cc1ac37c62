import DualPackage.Proofs.Run.Confinement
import DualPackage.Proofs.Run.Shares
/-!
# Runs tree by tree

A run takes the trees through its stages side by side: all are marked, then
all are copied into, and so on. It might as well take one tree through all
stages and then the other (`Run.run_by_trees`): it succeeds if and only if
this does, with the same disk in the end, and reports what the two runs
report together.

The trees have more in common than the disk. They are copied into from one
source, and there may be directories on the way to both that are still
missing. What a stage does to one tree is local to that tree, the source
and the ways to them (`Run.local_shares`). The directories on the way to
the first tree are all there once it has been marked, and after that
nothing that is done to either tree is seen by what is done to the other.
-/

namespace DualPackage

open Build Outcome DualPackage.Tree

namespace Disk

variable {dirs paths : List Path} {d d' : Disk} {l loc : Location} {p q : Path} {e : Entry}

theorem rooted_onWayOrIn (paths : List Path) : Rooted (OnWayOrIn paths) := by
  rintro l l' hl ⟨p, hp, hway | hin⟩
  · exact ⟨p, hp, .inl (hl.trans hway)⟩
  · exact ⟨p, hp, List.prefix_or_prefix_of_prefix hl hin⟩

theorem onWayOrIn_append (hp : p ∈ paths) (rel : List String) :
    OnWayOrIn paths (p.location ++ rel) :=
  ⟨p, hp, .inr (List.prefix_append _ _)⟩

/-- Something stands at the location. -/
def Stands (d : Disk) (loc : Location) : Prop :=
  ∃ e, d.get? loc = some e

/-- With a location, all above it are taken. -/
theorem Sound.stands_of_prefix (h : d.Sound) (hl : l <+: loc) (hloc : d.Stands loc) :
    d.Stands l := by
  obtain ⟨e, he⟩ := hloc
  obtain ⟨rest, rfl⟩ := hl
  by_cases hrest : rest = []
  · exact ⟨e, by simpa [hrest] using he⟩
  · exact ⟨.dir, h.wellFormed.dir_of_append hrest he⟩

theorem Grows.stands {made written : Location → Prop} (h : d.Grows made written d')
    (hl : d.Stands l) : d'.Stands l := by
  obtain ⟨e, he⟩ := hl
  rcases (he ▸ h.change l).kept with hsame | ⟨-, -, new, -, hnew⟩
  · exact ⟨e, hsame⟩
  · exact ⟨_, hnew⟩

/-- **What is done in some directories** leaves alone a path apart from them
and the way to it, if either it or the directories are there already. -/
theorem Grows.spared (h : d.Grows (OnWayOrIn dirs) (In dirs) d') (hd : d.Sound)
    (hapart : ∀ dir ∈ dirs, Path.Apart dir q) (hl : l <+: q.location ∨ q.location <+: l)
    (hthere : d.Stands q.location ∨ ∀ dir ∈ dirs, d.Stands dir.location) :
    d'.get? l = d.get? l := by
  have hin : ¬ In dirs l := by
    rintro ⟨dir, hdir, hbelow⟩
    rcases hl with hway | hbelow'
    · exact (hapart dir hdir).not_above (hbelow.trans hway)
    · rcases List.prefix_or_prefix_of_prefix hbelow hbelow' with hup | hdown
      · exact (hapart dir hdir).not_above hup
      · exact (hapart dir hdir).not_below hdown
  by_cases hfree : d.Stands l
  · obtain ⟨e, he⟩ := hfree
    rw [he]
    exact h.of_unwritten hin he
  · -- a directory that was missing would be on the way to what is there
    refine h.eq_of_untouched ?_ hin
    rintro ⟨dir, hdir, hway | hbelow⟩
    · rcases hthere with hstands | hstands
      · rcases hl with hway' | hbelow
        · exact hfree (hd.stands_of_prefix hway' hstands)
        · exact (hapart dir hdir).not_below (hbelow.trans hway)
      · exact hfree (hd.stands_of_prefix hway (hstands dir hdir))
    · exact hin ⟨dir, hdir, hbelow⟩

/-- A sound disk on which something stands at each of the paths. -/
structure Founded (paths : List Path) (d : Disk) : Prop where
  sound : d.Sound
  stands : ∀ p ∈ paths, d.Stands p.location

end Disk

namespace Config

variable {config : Config} {kind : ModuleKind}

theorem workDirs_without : config.workDirs =
    (config.without .cjs).outputDirs ++ (config.without .esm).workDirs := by
  rw [workDirs, workDirs, config.outputDirs_without, copyFiles_without, List.append_assoc]

theorem workDirs_without_sublist : (config.without kind).workDirs.Sublist config.workDirs := by
  rw [workDirs, workDirs, copyFiles_without, config.outputDirs_without]
  refine List.Sublist.append ?_ (List.Sublist.refl _)
  cases kind with
  | cjs => exact List.sublist_append_left _ _
  | esm => exact List.sublist_append_right _ _

/-- The directories of the one tree are apart from those of the other, and
from the source. -/
theorem apart_without (hapart : config.workDirs.Pairwise Path.Apart) :
    (∀ dir ∈ (config.without .cjs).outputDirs, ∀ q ∈ (config.without .esm).workDirs,
        Path.Apart dir q) ∧
      ∀ dir ∈ (config.without .esm).outputDirs, ∀ q ∈ (config.without .cjs).workDirs,
        Path.Apart dir q := by
  rw [workDirs_without] at hapart
  obtain ⟨-, hrest, hbetween⟩ := List.pairwise_append.1 hapart
  refine ⟨hbetween, fun dir hdir q hq => ?_⟩
  rcases List.mem_append.1 hq with hq | hq
  · exact (hbetween q hq dir (List.mem_append_left _ hdir)).symm
  · rw [copyFiles_without] at hq
    refine (List.pairwise_append.1 hrest).2.2 dir hdir q ?_
    rwa [copyFiles_without]

end Config

namespace Run

open Disk

variable {config : Config} {w w' : World} {d d' : Disk} {r : Report} {policy : CopyPolicy}
  {outputs : List (ModuleKind × Path)} {outputDirs dirs seen others stand : List Path}
  {announce : ModuleKind → Event} {pass : List Char → Revision} {kind : ModuleKind} {dir : Path}
  {sees : Location → Prop}

/-! ## The course of the stages -/

section Course

variable (hsees : Rooted sees)
include hsees

theorem marker_respects (hdir : dir.IsPlain) (hbelow : ∀ rel, sees (dir.location ++ rel)) :
    Respects (WorldsAlike sees) (do
      Build.log (.creatingMarker kind)
      Marker.write dir kind) := by
  have hname : Path.IsName "package.json" := by decide
  obtain ⟨hpath, hloc⟩ := Path.isPlain_join_name hdir hname
  have hhere : sees dir.location := by simpa using hbelow []
  refine (Respects.log _).bind fun _ => (createDirs_respects hsees hdir hhere).bind fun _ => ?_
  refine (Respects.onDisk (DiskM.writeFile_respects hsees hpath ?_) _).bind fun _ => .pure _
  exact hloc ▸ hbelow ["package.json"]

theorem adjustTree_respects (hdir : dir.IsPlain) (hbelow : ∀ rel, sees (dir.location ++ rel)) :
    Respects (WorldsAlike sees) (adjustTree kind dir) := by
  cases kind with
  | esm => exact (Respects.log _).bind fun _ => rewrite_respects hsees hdir hbelow
  | cjs => exact .pure _

variable (hplain : ∀ o ∈ outputs, o.2.IsPlain)
  (hbelow : ∀ o ∈ outputs, ∀ rel, sees (o.2.location ++ rel))
include hplain hbelow

theorem copyInto_respects (hsource : policy.source.IsPlain)
    (hsourceSeen : ∀ rel, sees (policy.source.location ++ rel))
    (hapart : ∀ o ∈ outputs, Path.Apart policy.source o.2) :
    Respects (WorldsAlike sees) (copyInto policy outputDirs outputs r) := by
  induction outputs generalizing r with
  | nil => exact .pure _
  | cons o outputs ih =>
    obtain ⟨hplainHere, hplain⟩ := List.forall_mem_cons.1 hplain
    obtain ⟨hbelowHere, hbelow⟩ := List.forall_mem_cons.1 hbelow
    obtain ⟨hapartHere, hapart⟩ := List.forall_mem_cons.1 hapart
    refine (Respects.log _).bind fun _ => .bind ?_ fun _ => .bind ?_ fun _ =>
      ih hplain hbelow hapart
    · exact copy_respects hsees hsource hplainHere hsourceSeen hbelowHere hapartHere
    · exact adjustTree_respects hsees hplainHere hbelowHere

theorem rewriteScripts_respects :
    Respects (WorldsAlike sees) (rewriteScripts announce pass outputs) := by
  induction outputs with
  | nil => exact .pure _
  | cons o outputs ih =>
    obtain ⟨hplainHere, hplain⟩ := List.forall_mem_cons.1 hplain
    obtain ⟨hbelowHere, hbelow⟩ := List.forall_mem_cons.1 hbelow
    refine (Respects.log _).bind fun _ => .bind ?_ fun _ => (ih hplain hbelow).bind fun _ => .pure _
    exact rewrite_respects hsees hplainHere hbelowHere

end Course

section Shares

variable (hplain : ∀ p ∈ config.workDirs, p.IsPlain) (hapart : config.workDirs.Pairwise Path.Apart)
include hplain hapart

/-- **What a stage adds to the report** depends on the trees, the source and
the ways to them. -/
theorem shares_respect {part : Build Report} (hpart : part ∈ shares config) :
    Respects (WorldsAlike (OnWayOrIn config.workDirs)) part := by
  have hsees := rooted_onWayOrIn config.workDirs
  have hmem : ∀ o ∈ config.outputs, o.2 ∈ config.workDirs := fun o ho =>
    List.mem_append_left _ (mem_outputDirs ho)
  have hdirs : ∀ o ∈ config.outputs, o.2.IsPlain := fun o ho => hplain _ (hmem o ho)
  have hbelow : ∀ o ∈ config.outputs, ∀ rel, OnWayOrIn config.workDirs (o.2.location ++ rel) :=
    fun o ho => onWayOrIn_append (hmem o ho)
  simp only [shares, List.mem_cons, List.not_mem_nil, or_false] at hpart
  rcases hpart with rfl | rfl | rfl | rfl
  · refine .bind (.mapM fun o ho => ?_) fun _ => .pure _
    exact marker_respects hsees (hdirs o ho) (hbelow o ho)
  · unfold copyAssets
    split
    · exact .pure _
    · rename_i policy hpolicy
      have hsource : policy.source ∈ config.workDirs := by simp [Config.workDirs, hpolicy]
      refine copyInto_respects hsees hdirs hbelow (hplain _ hsource) (onWayOrIn_append hsource)
        fun o ho => ?_
      refine Path.Apart.symm ((List.pairwise_append.1 hapart).2.2 _ (mem_outputDirs ho) _ ?_)
      simp [hpolicy]
  · refine .bind ?_ fun _ => .pure _
    unfold addExtensions
    split
    · exact rewriteScripts_respects hsees hdirs hbelow
    · exact .pure _
  · refine .bind ?_ fun _ => .pure _
    unfold resolveAliases
    split
    · exact .pure _
    · split
      · exact .pure _
      · exact rewriteScripts_respects hsees hdirs hbelow

omit hapart in
theorem shares_keep {part : Build Report} (hpart : part ∈ shares config) (cwd : Location) :
    ((Contract.growing (OnWayOrIn config.outputDirs) (In config.outputDirs) cwd).along
      World.disk).Keeps part := by
  have hadmits : ∀ dir ∈ config.outputDirs,
      (Contract.growing (OnWayOrIn config.outputDirs) (In config.outputDirs) cwd).Admits dir :=
    fun dir hdir => Contract.growing_admits (hplain dir (List.mem_append_left _ hdir)) hdir
  have hlisted : ∀ d, (Contract.growing (OnWayOrIn config.outputDirs) (In config.outputDirs)
      cwd).inv d → ∀ l, ∀ c ∈ d.children l, Path.IsName c.1 :=
    fun d hd _ _ => hd.1.isName_of_mem_children
  have hrewritable := rewritable hlisted hadmits
  simp only [shares, List.mem_cons, List.not_mem_nil, or_false] at hpart
  rcases hpart with rfl | rfl | rfl | rfl
  · exact (writeMarkers_keeps hadmits).bind fun _ => .pure _
  · exact copyAssets_keeps hlisted hadmits
  · exact (addExtensions_keeps hrewritable).bind fun _ => .pure _
  · exact (resolveAliases_keeps hrewritable).bind fun _ => .pure _

/-- **What a stage does is local** to the trees, the source and the ways to
them. It spares what is apart from the trees, and the way there, as long as
all of one or the other is in place. -/
theorem local_shares {part : Build Report} (hpart : part ∈ shares config)
    (hothers : ∀ dir ∈ config.outputDirs, ∀ q ∈ others, Path.Apart dir q)
    (hstand : (∀ dir ∈ config.outputDirs, dir ∈ stand) ∨ ∀ q ∈ others, q ∈ stand) :
    Local (Founded stand) (OnWayOrIn config.workDirs) (OnWayOrIn others) (Leads part) where
  follows := by
    rintro _ e a _ halike ⟨w, w', rfl, hok, rfl⟩
    obtain ⟨v', hok', halike'⟩ := shares_respect hplain hapart hpart w ⟨e, []⟩ a w' halike hok
    exact ⟨v'.disk, ⟨⟨e, []⟩, v', rfl, hok', rfl⟩, halike'⟩
  keeps := by
    rintro _ a _ hd ⟨w, w', rfl, hok, rfl⟩
    obtain ⟨⟨hsound, -⟩, hgrows⟩ :=
      (shares_keep hplain hpart w.disk.cwd).step ⟨hd.sound, rfl⟩ hok
    exact ⟨hsound, fun p hp => hgrows.stands (hd.stands p hp)⟩
  leaves := by
    rintro _ a _ hd ⟨w, w', rfl, hok, rfl⟩
    obtain ⟨-, hgrows⟩ := (shares_keep hplain hpart w.disk.cwd).step ⟨hd.sound, rfl⟩ hok
    refine ⟨hgrows.cwd, fun l hl => ?_⟩
    rcases hl with ⟨q, hq, hspared⟩ | hunseen
    · refine hgrows.spared hd.sound (fun dir hdir => hothers dir hdir q hq) hspared ?_
      rcases hstand with hdirs | hqs
      · exact .inr fun dir hdir => hd.stands dir (hdirs dir hdir)
      · exact .inl (hd.stands q (hqs q hq))
    · have hnowhere : ∀ dir ∈ config.outputDirs, dir ∈ config.workDirs := fun dir hdir =>
        List.mem_append_left _ hdir
      refine hgrows.eq_of_untouched ?_ ?_
      · rintro ⟨dir, hdir, hl⟩
        exact hunseen ⟨dir, hnowhere dir hdir, hl⟩
      · rintro ⟨dir, hdir, hl⟩
        exact hunseen ⟨dir, hnowhere dir hdir, .inr hl⟩

/-- A stage that copies leads nowhere if there is no source. -/
theorem source_stands_of_copyAssets (hs : d.Sound) (houtputs : config.outputs ≠ [])
    (hpolicy : config.copyFiles = some policy) (h : Leads (copyAssets config .empty) d r d') :
    d.Stands policy.source.location := by
  obtain ⟨w, w', rfl, hok, rfl⟩ := h
  simp only [copyAssets, hpolicy] at hok
  obtain ⟨o, outputs, hcons⟩ := List.exists_cons_of_ne_nil houtputs
  have ho : o ∈ config.outputs := hcons ▸ List.mem_cons_self
  have hsource : policy.source ∈ (config.copyFiles.map (·.source)).toList := by simp [hpolicy]
  rw [hcons] at hok
  obtain ⟨⟨⟩, w₁, hlog, hok⟩ := bind_ok hok
  obtain ⟨count, w₂, hcopy, -⟩ := bind_ok hok
  rw [← Build.log_ok hlog] at hs ⊢
  exact source_stands_of_copy hs (hplain _ (List.mem_append_right _ hsource))
    (hplain _ (List.mem_append_left _ (mem_outputDirs ho)))
    ((List.pairwise_append.1 hapart).2.2 _ (mem_outputDirs ho) _ hsource).symm hcopy

end Shares

/-! ## Parting the trees -/

theorem sound_of_share (hplain : ∀ p ∈ config.workDirs, p.IsPlain) {part : Build Report}
    (hpart : part ∈ shares config) : Step.Keeps (Leads part) Disk.Sound := by
  rintro _ a _ hs ⟨w, w', rfl, hok, rfl⟩
  exact ((shares_keep hplain hpart w.disk.cwd).step ⟨hs, rfl⟩ hok).1.1

/-- Only the markers of a run are listed by name. -/
theorem markers_of_mem_tail {part : Build Report} (hpart : part ∈ (shares config).tail)
    (h : Leads part d r d') : r.markers = [] := by
  simp only [shares, List.tail_cons, List.mem_cons, List.not_mem_nil, or_false] at hpart
  rcases hpart with rfl | rfl | rfl
  · exact (copyAssets_counts h).1
  · obtain ⟨changed, -, rfl⟩ := leads_bind_pure_iff.1 h
    rfl
  · obtain ⟨changed, -, rfl⟩ := leads_bind_pure_iff.1 h
    rfl

section Parting

variable (hplain : ∀ p ∈ config.workDirs, p.IsPlain) (hapart : config.workDirs.Pairwise Path.Apart)
include hplain hapart

/-- The steps of a run in their order, with those of the first tree to the
left and those of the second to the right. -/
def sideBySide (config : Config) : List (Step Report ⊕ Step Report) :=
  [.inr (Leads (markerShare (config.without .esm))),
    .inl (Leads (copyAssets (config.without .cjs) .empty)),
    .inr (Leads (copyAssets (config.without .esm) .empty)),
    .inl (Leads (extensionShare (config.without .cjs))),
    .inr (Leads (extensionShare (config.without .esm))),
    .inl (Leads (aliasShare (config.without .cjs))),
    .inr (Leads (aliasShare (config.without .esm)))]

omit hplain hapart in
theorem mem_sideBySide_inl {x : Step Report} (h : .inl x ∈ sideBySide config) :
    ∃ part ∈ (shares (config.without .cjs)).tail, x = Leads part := by
  simp only [sideBySide, List.mem_cons, Sum.inl.injEq, reduceCtorEq, List.not_mem_nil, or_false,
    false_or] at h
  simp only [shares, List.tail_cons, List.mem_cons, List.not_mem_nil, or_false]
  rcases h with rfl | rfl | rfl
  · exact ⟨_, .inl rfl, rfl⟩
  · exact ⟨_, .inr (.inl rfl), rfl⟩
  · exact ⟨_, .inr (.inr rfl), rfl⟩

omit hplain hapart in
theorem mem_sideBySide_inr {x : Step Report} (h : .inr x ∈ sideBySide config) :
    ∃ part ∈ shares (config.without .esm), x = Leads part := by
  simp only [sideBySide, List.mem_cons, Sum.inr.injEq, reduceCtorEq, List.not_mem_nil, or_false,
    false_or] at h
  simp only [shares, List.mem_cons, List.not_mem_nil, or_false]
  rcases h with rfl | rfl | rfl | rfl
  · exact ⟨_, .inl rfl, rfl⟩
  · exact ⟨_, .inr (.inl rfl), rfl⟩
  · exact ⟨_, .inr (.inr (.inl rfl)), rfl⟩
  · exact ⟨_, .inr (.inr (.inr rfl)), rfl⟩

/-- Each stage of a run goes through the one tree and then through the other. -/
theorem trail_shares (hs : d.Sound) :
    Trail ((shares config).map Leads) d r d' ↔
      Trail (Leads (markerShare (config.without .cjs)) ::
        (sideBySide config).map (Sum.elim id id)) d r d' := by
  refine (trail_cons_split fun _ _ => leads_markerShare).trans
    (trail_append_congr fun _ d₁ _ hmarked => ?_)
  have hs₁ : d₁.Sound := by
    have hsound : ∀ kind, Step.Keeps (Leads (markerShare (config.without kind))) Disk.Sound :=
      fun kind => sound_of_share (fun p hp => hplain p (Config.workDirs_without_sublist.mem hp))
        List.mem_cons_self
    refine Trail.keeps (List.forall_mem_cons.2 ⟨?_, List.forall_mem_singleton.2 ?_⟩) hs hmarked
    · exact hsound .cjs
    · exact hsound .esm
  refine (trail_cons_split fun _ _ => leads_copyAssets hs₁ hplain hapart).trans
    (trail_append_congr fun _ _ _ _ => ?_)
  refine (trail_cons_split fun _ _ => leads_extensionShare).trans
    (trail_append_congr fun _ _ _ _ => ?_)
  exact trail_cons_split fun _ _ => leads_aliasShare

/-- **The steps of the two trees part** where the way to the first tree and
the source are in place. -/
theorem trail_sideBySide (hd : Founded (config.without .cjs).workDirs d) :
    Trail ((sideBySide config).map (Sum.elim id id)) d r d' ↔
      Trail ((shares (config.without .cjs)).tail.map Leads ++
        (shares (config.without .esm)).map Leads) d r d' := by
  obtain ⟨hesmApart, hcjsApart⟩ := Config.apart_without hapart
  have hplainOf : ∀ kind, ∀ p ∈ (config.without kind).workDirs, p.IsPlain := fun kind p hp =>
    hplain p (Config.workDirs_without_sublist.mem hp)
  have hapartOf : ∀ kind, (config.without kind).workDirs.Pairwise Path.Apart := fun kind =>
    hapart.sublist Config.workDirs_without_sublist
  have hfirst : ∀ part ∈ shares (config.without .cjs), Local (Founded (config.without .cjs).workDirs)
      (OnWayOrIn (config.without .cjs).workDirs) (OnWayOrIn (config.without .esm).workDirs)
      (Leads part) := fun part hpart =>
    local_shares (hplainOf .cjs) (hapartOf .cjs) hpart hesmApart
      (.inl fun dir hdir => List.mem_append_left _ hdir)
  have hsecond : ∀ part ∈ shares (config.without .esm), Local (Founded (config.without .cjs).workDirs)
      (OnWayOrIn (config.without .esm).workDirs) (OnWayOrIn (config.without .cjs).workDirs)
      (Leads part) := fun part hpart =>
    local_shares (hplainOf .esm) (hapartOf .esm) hpart hcjsApart (.inr fun q hq => hq)
  refine trail_parted (fun x hx => ?_) (fun x y hx hy => ?_) hd
  · cases x with
    | inl x =>
      obtain ⟨part, hpart, rfl⟩ := mem_sideBySide_inl hx
      exact (hfirst part (List.mem_of_mem_tail hpart)).keeps
    | inr y =>
      obtain ⟨part, hpart, rfl⟩ := mem_sideBySide_inr hx
      exact (hsecond part hpart).keeps
  · obtain ⟨part, hpart, rfl⟩ := mem_sideBySide_inl hx
    obtain ⟨part', hpart', rfl⟩ := mem_sideBySide_inr hy
    refine (hsecond part' hpart').swappable (fun e he => he.sound)
      (hfirst part (List.mem_of_mem_tail hpart)) fun _ a _ _ b _ ha hb => ?_
    exact (Report.add_comm_of_markers (markers_of_mem_tail hpart hb)).symm

/-- Neither order comes anywhere without a source. -/
theorem not_trail_of_missing_source {trail : List (Step Report)} (hs : d.Sound)
    (hpolicy : config.copyFiles = some policy) (hmissing : ¬ d.Stands policy.source.location)
    (houtputs : (config.without .cjs).outputs ≠ [])
    (htrail : ∀ x ∈ trail, ∃ kind, ∃ part ∈ shares (config.without kind), x = Leads part)
    (hcopy : Leads (copyAssets (config.without .cjs) .empty) ∈ trail) : ¬ Trail trail d r d' := by
  have hplainOf : ∀ kind, ∀ p ∈ (config.without kind).workDirs, p.IsPlain := fun kind p hp =>
    hplain p (Config.workDirs_without_sublist.mem hp)
  have hapartOf : ∀ kind, (config.without kind).workDirs.Pairwise Path.Apart := fun kind =>
    hapart.sublist Config.workDirs_without_sublist
  have hsource : ∀ kind, ∀ dir ∈ (config.without kind).outputDirs,
      Path.Apart dir policy.source := by
    intro kind dir hdir
    refine (List.pairwise_append.1 (hapartOf kind)).2.2 dir hdir _ ?_
    simp [hpolicy]
  let inv : Disk → Prop := fun d => d.Sound ∧ ¬ d.Stands policy.source.location
  refine not_trail_of_stuck (fun x hx => ?_) hcopy ?_ (show inv d from ⟨hs, hmissing⟩)
  · obtain ⟨kind, part, hpart, rfl⟩ := htrail x hx
    rintro _ a _ ⟨hs, hmissing⟩ ⟨w, w', rfl, hok, rfl⟩
    obtain ⟨⟨hs', -⟩, hgrows⟩ :=
      (shares_keep (hplainOf kind) hpart w.disk.cwd).step ⟨hs, rfl⟩ hok
    refine ⟨hs', ?_⟩
    rw [Stands, hgrows.eq_of_untouched]
    · exact hmissing
    · rintro ⟨dir, hdir, hway | hin⟩
      · exact (hsource kind dir hdir).not_below hway
      · exact (hsource kind dir hdir).not_above hin
    · rintro ⟨dir, hdir, hin⟩
      exact (hsource kind dir hdir).not_above hin
  · rintro d a d' ⟨hs, hmissing⟩ hcopied
    exact hmissing (source_stands_of_copyAssets (hplainOf .cjs) (hapartOf .cjs) hs houtputs
      (by rw [Config.copyFiles_without, hpolicy]) hcopied)

/-- Marking a tree makes the way to it. -/
theorem stands_of_markerShare (hs : d.Sound) (h : Leads (markerShare config) d r d')
    (hdir : dir ∈ config.outputDirs) : d'.Stands dir.location := by
  obtain ⟨paths, ⟨w, w', rfl, hok, rfl⟩, -⟩ := leads_bind_pure_iff.1 h
  obtain ⟨-, hthere⟩ := writeMarkers_treats hs
    (fun o ho => hplain _ (List.mem_append_left _ (mem_outputDirs ho)))
    (List.pairwise_map.1 (List.pairwise_append.1 hapart).1) hok
  obtain ⟨o, ho, rfl⟩ := List.mem_map.1 hdir
  exact ⟨_, hthere o ho⟩

/-- A run as a step is the run for the first tree and then that for the
second. -/
theorem leads_run_iff_trees (hs : d.Sound) (hesm : config.esmDir.isSome) :
    Leads (run config) d r d' ↔ ∃ r₁ d₁ r₂, Leads (run (config.without .cjs)) d r₁ d₁ ∧
      Leads (run (config.without .esm)) d₁ r₂ d' ∧ r = r₁ + r₂ := by
  have hplainOf : ∀ p ∈ (config.without .cjs).workDirs, p.IsPlain := fun p hp =>
    hplain p (Config.workDirs_without_sublist.mem hp)
  have hapartOf : (config.without .cjs).workDirs.Pairwise Path.Apart :=
    hapart.sublist Config.workDirs_without_sublist
  have houtputs : (config.without .cjs).outputs ≠ [] := by
    obtain ⟨esm, hesm⟩ := Option.isSome_iff_exists.1 hesm
    have hmem : (ModuleKind.esm, esm) ∈ (config.without .cjs).outputs := Config.mem_outputs hesm
    exact List.ne_nil_of_mem hmem
  have hparted : Trail (Leads (markerShare (config.without .cjs)) ::
      (sideBySide config).map (Sum.elim id id)) d r d' ↔
        Trail ((shares (config.without .cjs)).map Leads ++
          (shares (config.without .esm)).map Leads) d r d' := by
    refine trail_cons_congr fun a d₁ b hmarked => ?_
    have hs₁ : d₁.Sound := sound_of_share hplainOf List.mem_cons_self d a d₁ hs hmarked
    by_cases hsource : ∀ policy, config.copyFiles = some policy → d₁.Stands policy.source.location
    · refine trail_sideBySide hplain hapart ⟨hs₁, fun p hp => ?_⟩
      rcases List.mem_append.1 hp with hdir | hpolicy
      · exact stands_of_markerShare hplainOf hapartOf hs hmarked hdir
      · rw [Config.copyFiles_without, Option.mem_toList, Option.map_eq_some_iff] at hpolicy
        obtain ⟨policy, hpolicy, rfl⟩ := hpolicy
        exact hsource policy hpolicy
    · push Not at hsource
      obtain ⟨policy, hpolicy, hmissing⟩ := hsource
      refine iff_of_false ?_ ?_
      · refine not_trail_of_missing_source hplain hapart hs₁ hpolicy hmissing houtputs
          (fun x hx => ?_) (by simp [sideBySide])
        obtain ⟨step, hstep, rfl⟩ := List.mem_map.1 hx
        cases step with
        | inl x =>
          obtain ⟨part, hpart, rfl⟩ := mem_sideBySide_inl hstep
          exact ⟨.cjs, part, List.mem_of_mem_tail hpart, rfl⟩
        | inr y =>
          obtain ⟨part, hpart, rfl⟩ := mem_sideBySide_inr hstep
          exact ⟨.esm, part, hpart, rfl⟩
      · refine not_trail_of_missing_source hplain hapart hs₁ hpolicy hmissing houtputs
          (fun x hx => ?_) (by simp [shares])
        rcases List.mem_append.1 hx with hx | hx
        · obtain ⟨part, hpart, rfl⟩ := List.mem_map.1 hx
          exact ⟨.cjs, part, List.mem_of_mem_tail hpart, rfl⟩
        · obtain ⟨part, hpart, rfl⟩ := List.mem_map.1 hx
          exact ⟨.esm, part, hpart, rfl⟩
  rw [leads_run_iff, trail_shares hplain hapart hs, hparted, trail_append]
  simp only [leads_run_iff]

end Parting

/-- **A run goes tree by tree.** On a disk without links, with all directories
of the configuration apart from each other, a run succeeds if and only if
those for the one tree and for the other do in turn, and leaves the disk
that they leave. What it reports is what they report, one after the other. -/
theorem run_by_trees (hformed : w.disk.WellFormed) (hfree : w.disk.LinkFree)
    (hesm : config.esmDir.isSome) (hplain : ∀ p ∈ config.workDirs, p.IsPlain)
    (hapart : config.workDirs.Pairwise Path.Apart) (report : Report) (d' : Disk) :
    (∃ w', run config w = .ok report w' ∧ w'.disk = d') ↔
      ∃ r₁ w₁ r₂ w₂, run (config.without .cjs) w = .ok r₁ w₁ ∧
        run (config.without .esm) w₁ = .ok r₂ w₂ ∧ w₂.disk = d' ∧ report = r₁ + r₂ := by
  have hs : w.disk.Sound := ⟨hformed, hfree⟩
  rw [← run_oblivious.leads_iff, leads_run_iff_trees hplain hapart hs hesm]
  constructor
  · rintro ⟨r₁, d₁, r₂, hesmLeads, hcjsLeads, rfl⟩
    obtain ⟨w₁, hfirst, rfl⟩ := run_oblivious.leads_iff.1 hesmLeads
    obtain ⟨w₂, hsecond, rfl⟩ := run_oblivious.leads_iff.1 hcjsLeads
    exact ⟨r₁, w₁, r₂, w₂, hfirst, hsecond, rfl, rfl⟩
  · rintro ⟨r₁, w₁, r₂, w₂, hfirst, hsecond, rfl, rfl⟩
    exact ⟨r₁, w₁.disk, r₂, ⟨w, w₁, rfl, hfirst, rfl⟩, ⟨w₁, w₂, rfl, hsecond, rfl⟩, rfl⟩

/-- The sample goes tree by tree. The asset is copied twice, once by each run. -/
theorem run_by_trees_sample : ∃ w' r₁ w₁ r₂ w₂,
    run sampleConfig ⟨sampleDisk, []⟩ =
      .ok ⟨[⟨"/esm/package.json"⟩, ⟨"/cjs/package.json"⟩], 2, 0, 0, 1, 1⟩ w' ∧
    run (sampleConfig.without .cjs) ⟨sampleDisk, []⟩ = .ok r₁ w₁ ∧
    run (sampleConfig.without .esm) w₁ = .ok r₂ w₂ ∧ w₂.disk = w'.disk ∧
    r₁ + r₂ = ⟨[⟨"/esm/package.json"⟩, ⟨"/cjs/package.json"⟩], 2, 0, 0, 1, 1⟩ := by
  have hsound : (World.mk sampleDisk []).disk.Sound := sound_sampleDisk
  have hesm : sampleConfig.esmDir.isSome := by decide
  have hplain : ∀ p ∈ sampleConfig.workDirs, p.IsPlain := by decide +kernel
  have hapart : sampleConfig.workDirs.Pairwise Path.Apart := by decide +kernel
  have hanswer : Outcome.answer? (run sampleConfig ⟨sampleDisk, []⟩) =
      some ⟨[⟨"/esm/package.json"⟩, ⟨"/cjs/package.json"⟩], 2, 0, 0, 1, 1⟩ := by decide +kernel
  obtain ⟨w', hrun⟩ := Outcome.exists_of_answer? hanswer
  obtain ⟨r₁, w₁, r₂, w₂, hfirst, hsecond, hdisk, hsum⟩ :=
    (run_by_trees hsound.wellFormed hsound.linkFree hesm hplain hapart _ w'.disk).1
      ⟨w', hrun, rfl⟩
  exact ⟨w', r₁, w₁, r₂, w₂, hrun, hfirst, hsecond, hdisk, hsum.symm⟩

end Run

end DualPackage
