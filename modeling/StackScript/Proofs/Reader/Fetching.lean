import Mathlib.Data.Option.Basic
import StackScript.Proofs.FileTree.Changes
import StackScript.Proofs.Reader.SharedCheckouts

/-!
# Fetching a checkout

Checking out a source goes through several steps, and each of them can fail. Together they come to
one of three things (`Ensured`): a checkout that is there is trusted, or a new one is put to its
place as a whole, or the attempt fails. The temporary folder leaves no trace in any of them, because
it was free before (`fetchInto_eq`). What does leave a trace in a failed attempt is that a checkout
which is fetched again is removed at the very beginning (`cleared`).
-/

namespace StackScript.GitCache

open StackScript.Path StackScript.FileTree StackScript.Text

variable {client : GitClient} {tree : FileTree} {base : String} {source : GitSource} {update : Bool}

/-! ## Temporary folders -/

/-- The name of a temporary folder is free. -/
theorem isFree_of_temporaryName? {folder : List String} {tries : Nat} {name : String}
    (h : temporaryName? client tree folder tries = some name) :
    tree.isFree (folder ++ [name]) = true := by
  induction tries with
  | zero => cases h
  | succ tries ih =>
    rw [temporaryName?] at h
    split_ifs at h with hfree
    · cases h
      exact hfree
    · exact ih h

/-- **A repository is put to its place as a whole or not at all.** -/
theorem fetchInto_eq {name target url revision : String}
    (hfree : tree.isFree (tree.destination base ++ [name]) = true) :
    (∃ message, fetchInto client tree base name target url revision = (.error message, tree)) ∨
      (client.fetch tree url revision).fault.isNone = true ∧
        tree.isFree (tree.destination target) = true ∧
        fetchInto client tree base name target url revision =
          (.ok target, tree.graft (tree.destination target)
            (client.fetch tree url revision).content) := by
  unfold fetchInto
  dsimp only
  rw [removeAt_graft _ hfree]
  cases hfault : (client.fetch tree url revision).fault with
  | some fault => exact .inl ⟨_, rfl⟩
  | none =>
    dsimp only
    split_ifs with hplace
    · refine .inr ⟨rfl, ?_, ?_⟩
      · exact isFree_of_graft hplace
      · rw [moveAt_graft _ hfree]
        rfl
    · exact .inl ⟨_, rfl⟩

/-! ## What checking out comes to -/

/-- Whether a checkout that is there is fetched again. -/
def refetches (source : GitSource) (update : Bool) : Bool := update && trim source.branch ≠ ""

theorem trusted_iff {target : String} :
    (tree.contains target && (!update || decide (trim source.branch = ""))) = true ↔
      tree.contains target = true ∧ refetches source update = false := by
  unfold refetches
  cases update <;> simp

/-- The tree without a checkout that is fetched again. -/
def cleared (tree : FileTree) (target : String) : FileTree :=
  if tree.contains target then tree.removeAt (tree.destination target) else tree

/-- What checking out a source into a folder comes to, as its result and the tree afterwards. -/
inductive Ensured (client : GitClient) (tree : FileTree) (base target : String)
    (source : GitSource) (update : Bool) : Except String String × FileTree → Prop
  /-- The checkout is there and trusted as it is. -/
  | trusted : tree.contains target = true → refetches source update = false →
      Ensured client tree base target source update (.ok target, tree)
  /-- The attempt fails, with or without the folder that was made for it. -/
  | failed {message : String} {t : FileTree} :
      ¬ (tree.contains target = true ∧ refetches source update = false) →
      t = cleared tree target ∨ t = (cleared tree target).addFolder (tree.destination base) →
      Ensured client tree base target source update (.error message, t)
  /-- The repository was fetched and put to its place, which was free. -/
  | fetched {revision short : String} {t : FileTree} :
      ¬ (tree.contains target = true ∧ refetches source update = false) →
      t = (cleared tree target).addFolder (tree.destination base) →
      t.isFree (tree.destination target) = true → source.revision? = some (revision, short) →
      (client.fetch t source.git revision).fault.isNone = true →
      Ensured client tree base target source update
        (.ok target, t.graft (tree.destination target) (client.fetch t source.git revision).content)

theorem cleared_here (tree : FileTree) (target : String) : (cleared tree target).here = tree.here := by
  unfold cleared
  split_ifs <;> rfl

/-- Where a path leads to depends on the working folder alone. -/
theorem destination_congr {t t' : FileTree} (h : t'.here = t.here) (path : String) :
    t'.destination path = t.destination path := by
  rw [destination, destination, h]

/-- **The ways of a checkout.** -/
theorem ensured {full short : String} (hrevision : source.revision? = some (full, short)) :
    Ensured client tree base (join [base, GitSource.segment short]) source update
      (ensure client tree base source update) := by
  unfold ensure
  rw [hrevision]
  dsimp only
  generalize join [base, GitSource.segment short] = target
  have hcleared : (if tree.contains target = true then tree.removeAt (tree.destination target)
      else tree) = cleared tree target := rfl
  rw [hcleared]
  by_cases htrusted : tree.contains target = true ∧ refetches source update = false
  · rw [if_pos (trusted_iff.2 htrusted)]
    exact .trusted htrusted.1 htrusted.2
  · rw [if_neg (mt trusted_iff.1 htrusted)]
    unfold makeFolder
    cases fileOnTheWay? (cleared tree target) base with
    | some file => exact .failed htrusted (.inl rfl)
    | none =>
      dsimp only
      rw [destination_congr (cleared_here tree target)]
      generalize hmade : (cleared tree target).addFolder (tree.destination base) = made
      have hhere : made.here = tree.here := by
        rw [← hmade]
        exact cleared_here tree target
      cases hname : temporaryName? client made (made.destination base) temporaryTries with
      | none => exact .failed htrusted (.inr hmade.symm)
      | some name =>
        dsimp only
        rcases fetchInto_eq (isFree_of_temporaryName? hname) with
          ⟨message, hfailed⟩ | ⟨hfault, hfree, hfetched⟩
        · rw [hfailed]
          exact .failed htrusted (.inr hmade.symm)
        · rw [destination_congr hhere] at hfree hfetched
          rw [hfetched]
          exact .fetched htrusted hmade.symm hfree hrevision hfault

theorem cleared_keptOutside (tree : FileTree) (target : String) :
    KeptOutside (tree.destination target) tree (cleared tree target) := by
  unfold cleared
  split_ifs
  · exact .removeAt _ tree
  · exact .refl _ tree

theorem isFree_cleared {target : String} (h : tree.contains target = true) :
    (cleared tree target).isFree (tree.destination target) = true := by
  rw [cleared, if_pos h]
  exact isFree_removeAt tree _

/-- **Only the folder of the checkout changes.** -/
theorem Ensured.keptOutside {target : String} {result : Except String String × FileTree}
    (h : Ensured client tree base target source update result)
    (hbase : tree.destination base <+: tree.destination target) :
    KeptOutside (tree.destination target) tree result.2 := by
  have hcleared := cleared_keptOutside tree target
  have hmade := hcleared.trans (.addFolder (cleared tree target) hbase)
  cases h with
  | trusted _ _ => exact .refl _ tree
  | failed _ htree =>
    rcases htree with rfl | rfl
    · exact hcleared
    · exact hmade
  | fetched _ htree _ _ _ =>
    subst htree
    exact hmade.trans (.graft _ _ _)

/-- A source that is checked out for the first time is looked for in its folder. -/
theorem checkout_ensured {c : GitCache} {name full short : String}
    (hnew : c.checkouts.lookup name = none) (hsource : c.sources.lookup name = some (some source))
    (hrevision : source.revision? = some (full, short)) :
    ∃ result t, Ensured c.client tree (join [c.cache, GitSource.segment name])
        (join [join [c.cache, GitSource.segment name], GitSource.segment short]) source c.update
        (result, t) ∧
      (∀ dir, result = .ok dir → c.checkout tree name =
        (.ok dir, { c with checkouts := (name, dir) :: c.checkouts }, t)) ∧
      ∀ message, result = .error message → c.checkout tree name =
        (.error ("git source " ++ name ++ ": " ++ message), c, t) := by
  have hensured := @ensured c.client tree (join [c.cache, GitSource.segment name]) source c.update
    full short hrevision
  unfold checkout
  rw [hnew, hsource]
  dsimp only
  generalize ensure c.client tree (join [c.cache, GitSource.segment name]) source c.update = pair
    at hensured ⊢
  obtain ⟨result, t⟩ := pair
  refine ⟨result, t, hensured, ?_, ?_⟩
  · rintro dir rfl
    rfl
  · rintro message rfl
    rfl

/-- The folder of a checkout that is there and is fetched again. -/
def replaced? (c : GitCache) (tree : FileTree) (name : String) : Option String := do
  guard (c.checkouts.lookup name).isNone
  let source ← (← c.sources.lookup name)
  let folder ← c.folder? name
  guard (tree.contains folder && refetches source c.update)
  return folder

theorem replaced?_eq {c : GitCache} {tree : FileTree} {name full short : String}
    {source : GitSource} (hnew : c.checkouts.lookup name = none)
    (hsource : c.sources.lookup name = some (some source))
    (hrevision : source.revision? = some (full, short)) :
    c.replaced? tree name =
      let folder := join [join [c.cache, GitSource.segment name], GitSource.segment short]
      if tree.contains folder && refetches source c.update then some folder else none := by
  simp only [replaced?, hnew, hsource, folder?_of_source hsource hrevision, Option.isNone_none,
    guard, if_true, Option.pure_def, Option.bind_eq_bind, Option.bind_some]
  split_ifs <;> rfl

/-- A checkout that ends before its folder is looked for changes nothing. -/
theorem checkout_cases (c : GitCache) (tree : FileTree) (name : String) :
    ((c.checkout tree name).2 = (c, tree) ∧ c.replaced? tree name = none) ∨
      ∃ source full short, c.checkouts.lookup name = none ∧
        c.sources.lookup name = some (some source) ∧ source.revision? = some (full, short) := by
  unfold checkout
  cases hnew : c.checkouts.lookup name with
  | some dir =>
    refine .inl ⟨rfl, ?_⟩
    rw [replaced?, hnew]
    rfl
  | none =>
    cases hsource : c.sources.lookup name with
    | none => exact .inl ⟨rfl, by simp [replaced?, hsource]⟩
    | some declared =>
      cases declared with
      | none => exact .inl ⟨rfl, by simp [replaced?, hsource]⟩
      | some source =>
        cases hrevision : source.revision? with
        | none =>
          refine .inl ⟨?_, by simp [replaced?, folder?, hsource, hrevision]⟩
          simp [ensure, hrevision]
        | some revision => exact .inr ⟨source, revision.1, revision.2, rfl, rfl, hrevision⟩

end StackScript.GitCache
