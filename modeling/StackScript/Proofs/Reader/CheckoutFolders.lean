import StackScript.Proofs.Reader.Checkouts
import StackScript.Proofs.Reader.Fetching

/-!
# Folders of checkouts

Names of sources and revisions are free texts of a manifest, and checking out removes folders with
all that is inside. What protects the rest of the files is how the folder of a checkout is made.

**Theorem (`GitCache.checkout_stays_in_cache`).** Whatever a source and its revision are called, its
checkout is looked for, removed, put to and given as one folder: the clean cache with two more names
of harmless characters. Nothing outside of that folder changes, except that folders on the way to it
are made. So fetching all sources of a project keeps all that is outside of its cache
(`GitCache.fetchAll_keptOutside`).

**Theorem (`GitSource.join_dir_stays`).** The folder of a repository that a source asks for is the
checkout itself or lies below it, as a text, if nothing is reported of it.
-/

namespace StackScript

open StackScript.Path StackScript.FileTree StackScript.Text

/-! ## Names of folders -/

/-- A name of letters, digits, points, dashes and underscores that means no other folder. -/
structure IsFolderName (e : String) : Prop where
  isName : IsName e
  plain : ∀ c ∈ e.toList, c.isAlphanum = true ∨ c = '.' ∨ c = '-' ∨ c = '_'

theorem GitSource.isSegmentChar_iff {c : Char} :
    isSegmentChar c = true ↔ c.isAlphanum = true ∨ c = '.' ∨ c = '-' ∨ c = '_' := by
  simp [isSegmentChar, or_assoc]

theorem GitSource.isSegmentChar_of_mem_segment {name : String} {c : Char}
    (h : c ∈ (segment name).toList) : isSegmentChar c = true := by
  have hall : ∀ s : String, s.toList.all isSegmentChar = true → c ∈ s.toList →
      isSegmentChar c = true := by
    intro s hs hc
    exact List.all_eq_true.1 hs c hc
  unfold segment at h
  dsimp only at h
  split_ifs at h with hempty hhere hup
  · exact hall "head" rfl h
  · exact hall "_" rfl h
  · exact hall "__" rfl h
  · rw [String.toList_ofList] at h
    obtain ⟨x, -, rfl⟩ := List.mem_map.1 h
    split_ifs with hx
    · exact hx
    · rfl

/-- What is made of a source or a revision is the name of a folder, whatever it is called. -/
theorem GitSource.isFolderName_segment (name : String) : IsFolderName (segment name) where
  isName := isName_segment name
  plain _ hc := isSegmentChar_iff.1 (isSegmentChar_of_mem_segment hc)

/-! ## The folder of a checkout -/

/-- Two names that are put behind a folder stand behind its clean text. -/
theorem Path.join_join_eq_below (folder : String) {a b : String} (ha : IsName a) (hb : IsName b) :
    join [join [folder, a], b] = below folder [a, b] := by
  obtain ⟨hastays, haelements⟩ := stays_of_isName ha
  obtain ⟨hbstays, hbelements⟩ := stays_of_isName hb
  obtain ⟨haabsolute, hajoined⟩ := cleanElements_join folder hastays
  obtain ⟨hbabsolute, hbjoined⟩ := cleanElements_join (join [folder, a]) hbstays
  apply eq_below (clean_join_of_ne (.inr hb.nonempty))
  · rw [hbabsolute, haabsolute]
  · rw [hbjoined, hajoined, haelements, hbelements, List.append_assoc]
    rfl

namespace GitCache

/-- All that checking out a source does to the files is done at one folder. -/
structure OnlyAt (c : GitCache) (tree : FileTree) (name : String) (source : GitSource)
    (folder : String) : Prop where
  /-- It is looked for, and given without a change if it is there and not fetched again. -/
  trusted : tree.contains folder = true → refetches source c.update = false →
    (c.checkout tree name).1 = .ok folder ∧ (c.checkout tree name).2.2 = tree
  /-- If it is fetched again, the old one is removed, also when fetching fails. -/
  removed : tree.contains folder = true → refetches source c.update = true →
    ∀ message, (c.checkout tree name).1 = .error message →
      (c.checkout tree name).2.2.isFree (tree.destination folder) = true
  /-- Nothing else is given. -/
  given : ∀ dir, (c.checkout tree name).1 = .ok dir → dir = folder
  /-- A new checkout holds there what was fetched, and no other file. -/
  filled : ¬ (tree.contains folder = true ∧ refetches source c.update = false) →
    ∀ dir, (c.checkout tree name).1 = .ok dir → ∃ t revision,
      (c.client.fetch t source.git revision).fault.isNone = true ∧
      (c.checkout tree name).2.2.isFolderAt (tree.destination folder) = true ∧
      ∀ p, (c.checkout tree name).2.2.fileAt? (tree.destination folder ++ p) =
        (c.client.fetch t source.git revision).content.fileAt? p
  /-- Nothing else changes, except for new folders on the way. -/
  kept : KeptOutside (tree.destination folder) tree (c.checkout tree name).2.2

/-- What a checkout comes to says where all of it happens. -/
theorem Ensured.onlyAt {c : GitCache} {tree t : FileTree} {name base folder e : String}
    {source : GitSource} {result : Except String String}
    (h : Ensured c.client tree base folder source c.update (result, t))
    (hok : ∀ dir, result = .ok dir → c.checkout tree name =
      (.ok dir, { c with checkouts := (name, dir) :: c.checkouts }, t))
    (herror : ∀ message, result = .error message → c.checkout tree name =
      (.error ("git source " ++ name ++ ": " ++ message), c, t))
    (hbase : tree.destination folder = tree.destination base ++ [e]) :
    c.OnlyAt tree name source folder := by
  have hkept := h.keptOutside (hbase ▸ List.prefix_append _ _)
  have hlonger : ¬ tree.destination folder <+: tree.destination base := by
    intro hprefix
    have hlength := hprefix.length_le
    rw [hbase, List.length_append, List.length_singleton] at hlength
    omega
  cases h with
  | trusted hthere hrefetches =>
    have hcheckout := hok folder rfl
    constructor
    case trusted =>
      intro _ _
      rw [hcheckout]
      exact ⟨rfl, rfl⟩
    case removed =>
      intro _ hagain
      rw [hrefetches] at hagain
      cases hagain
    case given =>
      intro dir hdir
      rw [hcheckout] at hdir
      cases hdir
      rfl
    case filled =>
      intro hnot
      exact absurd ⟨hthere, hrefetches⟩ hnot
    case kept => rwa [hcheckout]
  | @failed message _ hnot htree =>
    have hcheckout := herror message rfl
    constructor
    case trusted =>
      intro hthere hrefetches
      exact absurd ⟨hthere, hrefetches⟩ hnot
    case removed =>
      intro hthere _ _ _
      rw [hcheckout]
      have hcleared := isFree_cleared hthere
      rcases htree with rfl | rfl
      · exact hcleared
      · exact isFree_addFolder hcleared hlonger
    case given =>
      intro dir hdir
      rw [hcheckout] at hdir
      cases hdir
    case filled =>
      intro _ dir hdir
      rw [hcheckout] at hdir
      cases hdir
    case kept => rwa [hcheckout]
  | @fetched revision _ made hnot _ hfree _ hfault =>
    have hcheckout := hok folder rfl
    constructor
    case trusted =>
      intro hthere hrefetches
      exact absurd ⟨hthere, hrefetches⟩ hnot
    case removed =>
      intro _ _ message hmessage
      rw [hcheckout] at hmessage
      cases hmessage
    case given =>
      intro dir hdir
      rw [hcheckout] at hdir
      cases hdir
      rfl
    case filled =>
      intro _ dir _
      refine ⟨made, revision, hfault, ?_, ?_⟩
      · rw [hcheckout]
        exact isFolderAt_graft.2 (.inr ⟨[], by simp, rfl⟩)
      · intro p
        rw [hcheckout]
        exact fileAt?_graft_append hfree p
    case kept => rwa [hcheckout]

/-- The checkout of a source whose revision can be told happens at the folder made for it. -/
theorem onlyAt_folder {c : GitCache} {tree : FileTree} {name full short : String}
    {source : GitSource} (hnew : c.checkouts.lookup name = none)
    (hsource : c.sources.lookup name = some (some source))
    (hrevision : source.revision? = some (full, short)) :
    c.OnlyAt tree name source
      (join [join [c.cache, GitSource.segment name], GitSource.segment short]) := by
  obtain ⟨result, t, hensured, hok, herror⟩ :=
    @checkout_ensured tree source c name full short hnew hsource hrevision
  exact hensured.onlyAt hok herror (destination_join tree _ (GitSource.isName_segment short))

/-- One checkout keeps all that is outside of the cache, and the cache it is made for. -/
theorem checkout_keptOutside (c : GitCache) (tree : FileTree) (name : String) :
    (c.checkout tree name).2.1.cache = c.cache ∧
      KeptOutside (tree.destination c.cache) tree (c.checkout tree name).2.2 := by
  rcases checkout_cases c tree name with ⟨hsame, -⟩ | ⟨source, full, short, hnew, hsource, hrevision⟩
  · rw [hsame]
    exact ⟨rfl, .refl _ tree⟩
  · have honly := @onlyAt_folder c tree name full short source hnew hsource hrevision
    refine ⟨?_, honly.kept.mono ?_⟩
    · obtain ⟨result, t, -, hok, herror⟩ :=
        @checkout_ensured tree source c name full short hnew hsource hrevision
      cases result with
      | ok dir => rw [hok dir rfl]
      | error message => rw [herror message rfl]
    · rw [destination_join tree _ (GitSource.isName_segment short),
        destination_join tree _ (GitSource.isName_segment name), List.append_assoc]
      exact List.prefix_append _ _

theorem checkoutAll_keptOutside (c : GitCache) (tree : FileTree) (names : List String) :
    KeptOutside (tree.destination c.cache) tree (c.checkoutAll tree names).2.2.2 := by
  induction names generalizing c tree with
  | nil => exact .refl _ tree
  | cons name rest ih =>
    obtain ⟨hcache, hkept⟩ := checkout_keptOutside c tree name
    unfold checkoutAll
    generalize c.checkout tree name = r at hcache hkept
    obtain ⟨result, c', tree'⟩ := r
    cases result with
    | error message => exact hkept
    | ok dir =>
      have hrest := ih c' tree'
      rw [show c'.cache = c.cache from hcache, destination_congr hkept.here] at hrest
      exact hkept.trans hrest

/-- **Fetching all sources stays in the cache**, also if it stops at one of them. -/
theorem fetchAll_keptOutside (c : GitCache) (tree : FileTree) :
    KeptOutside (tree.destination c.cache) tree (c.fetchAll tree).2.2.2 :=
  checkoutAll_keptOutside c tree c.names

/-- **Checkouts stay in the cache.** Let a source have a revision that can be told, and not be
checked out yet. Whatever it and its revision are called and whatever the cache is, the folder of its
checkout is the clean path of the cache, which is the working folder if the cache is empty, with two
names behind it. Both are made of letters, digits, points, dashes and underscores, and neither is `.`
or `..`. This is the folder that is looked for, removed, moved to and given, and nothing outside of it
changes. -/
theorem checkout_stays_in_cache (c : GitCache) (tree : FileTree) {name full short : String}
    {source : GitSource} (hnew : c.checkouts.lookup name = none)
    (hsource : c.sources.lookup name = some (some source))
    (hrevision : source.revision? = some (full, short)) :
    let a := GitSource.segment name
    let b := GitSource.segment short
    IsFolderName a ∧ IsFolderName b ∧
      tree.destination (below c.cache [a, b]) = tree.destination c.cache ++ [a, b] ∧
      c.OnlyAt tree name source (below c.cache [a, b]) := by
  intro a b
  have ha : IsFolderName a := GitSource.isFolderName_segment name
  have hb : IsFolderName b := GitSource.isFolderName_segment short
  have hbelow : join [join [c.cache, a], b] = below c.cache [a, b] :=
    join_join_eq_below c.cache ha.isName hb.isName
  refine ⟨ha, hb, ?_, ?_⟩
  · rw [← hbelow, destination_join tree _ hb.isName, destination_join tree _ ha.isName,
      List.append_assoc]
    rfl
  · rw [← hbelow]
    exact onlyAt_folder hnew hsource hrevision

/-- A client whose repositories all hold one module. -/
def oneModule : GitClient where
  fetch _ _ _ := { content := { files := [(["m.giffi"], "let a = 1;")] } }
  ending := toString

/-- A source whose name and branch try to climb out of the cache. -/
def climbing : GitSource where
  git := "file:///lib.git"
  branch := " ../../etc "

/-- Branches are fetched again, into a cache with a relative path that is not clean. -/
def climbingCache : GitCache where
  cache := "work/../cache"
  sources := [("../..", some climbing)]
  update := true
  client := oneModule

/-- The old checkout of that source, and a file it might be after. -/
def climbingTree : FileTree :=
  (({} : FileTree).addFile ["cache", ".._..", ".._.._etc", "old.giffi"] "").addFile ["etc", "m"] "x"

/-- The old checkout is replaced by what was fetched, and the other file stays. -/
theorem checkout_stays_in_cache_climbing :
    below "work/../cache" [GitSource.segment "../..", GitSource.segment "../../etc"] =
      "cache/.._../.._.._etc" ∧
    (climbingCache.checkout climbingTree "../..").1.toOption = some "cache/.._../.._.._etc" ∧
    (climbingCache.checkout climbingTree "../..").2.2.files =
      [(["cache", ".._..", ".._.._etc", "m.giffi"], "let a = 1;"), (["etc", "m"], "x")] ∧
    climbingTree.contains "cache/.._../.._.._etc" = true ∧
    refetches climbing climbingCache.update = true ∧
    climbingCache.OnlyAt climbingTree "../.." climbing
      (below "work/../cache" [GitSource.segment "../..", GitSource.segment "../../etc"]) := by
  refine ⟨by decide +kernel, by decide +kernel, by decide +kernel, by decide +kernel,
    by decide +kernel, ?_⟩
  have hrevision : climbing.revision? = some ("refs/remotes/origin/../../etc", "../../etc") := by
    decide +kernel
  exact (checkout_stays_in_cache climbingCache climbingTree rfl rfl hrevision).2.2.2

end GitCache

/-! ## The folder of a source -/

/-- **The folder of a source stays in its repository.** If nothing is reported of the folder that a
source asks for, then joining it to a clean absolute path other than the root gives that path itself,
or goes on from it behind a slash. -/
theorem GitSource.join_dir_stays {s : GitSource} {checkout : String} (hdir : s.dirIssue ∉ s.issues)
    (habsolute : isAbsolute checkout = true) (hclean : clean checkout = checkout)
    (hroot : checkout ≠ "/") :
    clean s.dir = "." ∧ join [checkout, s.dir] = checkout ∨
      join [checkout, s.dir] = checkout ++ "/" ++ clean s.dir := by
  have hstays := GitSource.stays_of_issues hdir
  have hne : checkout ≠ "" := by
    rintro rfl
    cases habsolute
  have hdot : checkout ≠ "." := by
    rintro rfl
    cases habsolute
  rw [join_eq_below (.inl hne) hstays, hstays.clean_eq_dot_iff]
  by_cases hnone : cleanElements s.dir = []
  · refine .inl ⟨hnone, ?_⟩
    rw [hnone, below, if_pos rfl, hclean]
  · right
    have hrelative := cleanStack_cleanElements s.dir
    rw [hstays.1] at hrelative
    rw [below, hclean, if_neg hnone, if_neg hdot, if_neg hroot, clean_eq_ofElements, hstays.1,
      ofElements_relative hnone hrelative]

/-- A folder with several spellings of the same elements. -/
def nestedDir : GitSource where
  git := "file:///lib.git"
  tag := "v1"
  dir := "./src//lib/../modules/."

theorem GitSource.join_dir_stays_nested :
    nestedDir.dirIssue ∉ nestedDir.issues ∧ isAbsolute "/cache/lib/v1" = true ∧
      clean "/cache/lib/v1" = "/cache/lib/v1" ∧
      join ["/cache/lib/v1", nestedDir.dir] = "/cache/lib/v1/src/modules" ∧
      (clean nestedDir.dir = "." ∧ join ["/cache/lib/v1", nestedDir.dir] = "/cache/lib/v1" ∨
        join ["/cache/lib/v1", nestedDir.dir] = "/cache/lib/v1" ++ "/" ++ clean nestedDir.dir) := by
  have hdir : nestedDir.dirIssue ∉ nestedDir.issues := by decide +kernel
  have hclean : clean "/cache/lib/v1" = "/cache/lib/v1" := by decide +kernel
  exact ⟨hdir, rfl, hclean, by decide +kernel,
    GitSource.join_dir_stays hdir rfl hclean (by decide)⟩

end StackScript
