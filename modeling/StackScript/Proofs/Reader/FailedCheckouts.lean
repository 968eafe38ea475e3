import StackScript.Proofs.Reader.CheckoutFolders

/-!
# Checkouts that fail

A repository is fetched into a temporary folder and moved to its place at the end, so that a failure
on the way does no harm. This holds for a checkout that is not there yet. A checkout that is fetched
again is removed first, and a failure finds it gone.

**Theorem (`GitCache.checkout_failure_keeps`).** A failed checkout keeps all files and folders, unless
it was to replace one that is there. Then exactly that one is lost.

It does happen: a branch is lost when its repository cannot be reached for a moment
(`GitCache.checkout_failure_removes`).
-/

namespace StackScript.GitCache

open StackScript.Path StackScript.FileTree StackScript.Text

/-- A failed attempt that found no checkout has made nothing but folders. -/
theorem Ensured.kept_of_error {client : GitClient} {tree t : FileTree}
    {base target message : String} {source : GitSource} {update : Bool}
    (h : Ensured client tree base target source update (.error message, t))
    (hnot : ¬ (tree.contains target && refetches source update) = true) : AllKept tree t := by
  cases h with
  | failed htrusted htree =>
    have hmissing : tree.contains target = false := by
      refine eq_false_of_ne_true fun hthere => htrusted ⟨hthere, ?_⟩
      simpa [hthere] using hnot
    have hcleared : cleared tree target = tree := by
      rw [cleared, hmissing]
      rfl
    rw [hcleared] at htree
    rcases htree with rfl | rfl
    · exact .refl _
    · exact .addFolder _ _

section Failure

variable {c : GitCache} {tree : FileTree} {name message : String}

theorem checkout_error_eq {source : GitSource} {full short : String}
    (h : (c.checkout tree name).1 = .error message) (hnew : c.checkouts.lookup name = none)
    (hsource : c.sources.lookup name = some (some source))
    (hrevision : source.revision? = some (full, short)) :
    ∃ reason t, (c.checkout tree name).2 = (c, t) ∧
      Ensured c.client tree (join [c.cache, GitSource.segment name])
        (join [join [c.cache, GitSource.segment name], GitSource.segment short]) source c.update
        (.error reason, t) := by
  obtain ⟨result, t, hensured, hok, herror⟩ :=
    @checkout_ensured tree source c name full short hnew hsource hrevision
  cases result with
  | ok dir =>
    rw [hok dir rfl] at h
    cases h
  | error reason => exact ⟨reason, t, congrArg Prod.snd (herror reason rfl), hensured⟩

/-- A failed checkout is not remembered. -/
theorem checkout_error_reader (h : (c.checkout tree name).1 = .error message) :
    (c.checkout tree name).2.1 = c := by
  rcases checkout_cases c tree name with ⟨hsame, -⟩ | ⟨source, full, short, hnew, hsource, hrevision⟩
  · rw [hsame]
  · obtain ⟨reason, t, hafter, -⟩ := checkout_error_eq h hnew hsource hrevision
    rw [hafter]

/-- Nothing is lost if there was nothing to replace. -/
theorem kept_of_checkout_error (h : (c.checkout tree name).1 = .error message)
    (hnone : c.replaced? tree name = none) : AllKept tree (c.checkout tree name).2.2 := by
  rcases checkout_cases c tree name with ⟨hsame, -⟩ | ⟨source, full, short, hnew, hsource, hrevision⟩
  · rw [hsame]
    exact .refl tree
  · obtain ⟨reason, t, hafter, hensured⟩ := checkout_error_eq h hnew hsource hrevision
    rw [hafter]
    apply hensured.kept_of_error
    intro hreplaced
    rw [replaced?_eq hnew hsource hrevision] at hnone
    dsimp only at hnone
    rw [if_pos hreplaced] at hnone
    cases hnone

/-- What was to be replaced is lost, and nothing else. -/
theorem lost_of_checkout_error {folder : String} (h : (c.checkout tree name).1 = .error message)
    (hsome : c.replaced? tree name = some folder) :
    tree.contains folder = true ∧ (c.checkout tree name).2.2.contains folder = false ∧
      KeptOutside (tree.destination folder) tree (c.checkout tree name).2.2 := by
  rcases checkout_cases c tree name with
    ⟨-, hnone⟩ | ⟨source, full, short, hnew, hsource, hrevision⟩
  · rw [hnone] at hsome
    cases hsome
  · have honly := @onlyAt_folder c tree name full short source hnew hsource hrevision
    rw [replaced?_eq hnew hsource hrevision] at hsome
    dsimp only at hsome
    split_ifs at hsome with hreplaced
    cases hsome
    obtain ⟨hthere, hrefetches⟩ := Bool.and_eq_true_iff.1 hreplaced
    refine ⟨hthere, ?_, honly.kept⟩
    have hfree := honly.removed hthere hrefetches message h
    rw [← destination_congr honly.kept.here] at hfree
    exact not_contains_of_isFree (GitSource.isName_segment short) hfree

/-- **What a failed checkout keeps.** Whatever the files are, whatever the client does, and whether
branches are fetched again or not: if checking out a source fails, then no checkout is remembered for
it. If it was not to replace a checkout that is there, all files and folders are still there, and can
be reached and read under their paths as before. If it was, then this checkout is gone, and all is kept
outside of its folder. -/
theorem checkout_failure_keeps (h : (c.checkout tree name).1 = .error message) :
    let after := (c.checkout tree name).2.2
    (c.checkout tree name).2.1 = c ∧
      (c.replaced? tree name = none → AllKept tree after ∧
        (∀ path, tree.contains path = true → after.contains path = true) ∧
        ∀ path text, tree.read path = .ok text → after.read path = .ok text) ∧
      ∀ folder, c.replaced? tree name = some folder →
        tree.contains folder = true ∧ after.contains folder = false ∧
          KeptOutside (tree.destination folder) tree after := by
  intro after
  refine ⟨checkout_error_reader h, ?_, ?_⟩
  · intro hnone
    have hkept := kept_of_checkout_error h hnone
    exact ⟨hkept, fun _ => hkept.contains, fun _ _ => hkept.read⟩
  · intro folder hsome
    exact lost_of_checkout_error h hsome

end Failure

/-- A branch that is fetched again from a repository that is not there. -/
def unreachable : GitCache where
  cache := "/cache"
  sources := [("lib", some { git := "file:///lib.git", branch := "main" })]
  update := true

/-- The checkouts of that branch and of an old tag. -/
def twoCheckouts : FileTree :=
  (({} : FileTree).addFile ["cache", "lib", "main", "m.giffi"] "let a = 1;").addFile
    ["cache", "lib", "v1", "m.giffi"] "let a = 0;"

/-- The report of the repository that is not there. -/
def notReached : String := "git source lib: git clone file:///lib.git: repository not found"

theorem checkout_unreachable : (unreachable.checkout twoCheckouts "lib").1 = .error notReached := by
  decide +kernel

/-- The checkout of the branch is lost, and the one of the tag is kept. -/
theorem checkout_failure_keeps_unreachable :
    (unreachable.checkout twoCheckouts "lib").1 = .error notReached ∧
      unreachable.replaced? twoCheckouts "lib" = some "/cache/lib/main" ∧
      (unreachable.checkout twoCheckouts "lib").2.2.contains "/cache/lib/main" = false ∧
      KeptOutside ["cache", "lib", "main"] twoCheckouts
        (unreachable.checkout twoCheckouts "lib").2.2 := by
  have hreplaced : unreachable.replaced? twoCheckouts "lib" = some "/cache/lib/main" := by
    decide +kernel
  obtain ⟨-, -, hlost⟩ := checkout_failure_keeps checkout_unreachable
  obtain ⟨-, hgone, hkept⟩ := hlost "/cache/lib/main" hreplaced
  have hplace : twoCheckouts.destination "/cache/lib/main" = ["cache", "lib", "main"] := by
    decide +kernel
  exact ⟨checkout_unreachable, hreplaced, hgone, hplace ▸ hkept⟩

/-- **A failed checkout can lose what was there.** The repository cannot be cloned, and the checkout
that there was of its branch is gone with its files. -/
theorem checkout_failure_removes :
    (unreachable.checkout twoCheckouts "lib").1 = .error notReached ∧
      twoCheckouts.contains "/cache/lib/main" = true ∧
      (twoCheckouts.read "/cache/lib/main/m.giffi").toOption = some "let a = 1;" ∧
      (unreachable.checkout twoCheckouts "lib").2.2.contains "/cache/lib/main" = false ∧
      ((unreachable.checkout twoCheckouts "lib").2.2.read "/cache/lib/main/m.giffi").toOption =
        none := by
  refine ⟨checkout_unreachable, ?_⟩
  decide +kernel

end StackScript.GitCache
