import StackScript.Proofs.Path.Clean
import StackScript.Reader

/-!
# Modules of a checkout

A module that is named by a git source and a path is looked up in a folder of the checkout of that
source. Both the folder and the path are refused if they step out of where they begin.

**Theorem (`GitCache.read_inside_or_beside`).** What is read lies inside the checkout, with one
exception. The ending of program files is put to the joined path after both were looked at. If the
folder and the path mean the checkout itself, the ending goes to the name of the checkout, and what
is read is a file beside it (`GitCache.read_beside`).
-/

namespace StackScript

open StackScript.Path

/-- The path goes on from the folder without stepping back, as far as their texts tell. -/
def Path.Inside (folder path : String) : Prop :=
  isAbsolute path = isAbsolute folder ∧ cleanElements folder <+: cleanElements path ∧
    ".." ∉ (cleanElements path).drop (cleanElements folder).length

instance (folder path : String) : Decidable (Path.Inside folder path) :=
  inferInstanceAs (Decidable (_ ∧ _ ∧ _))

theorem Path.inside_of_append {folder path : String} {rest : List String}
    (habsolute : isAbsolute path = isAbsolute folder)
    (helements : cleanElements path = cleanElements folder ++ rest) (hup : ".." ∉ rest) :
    Path.Inside folder path := by
  refine ⟨habsolute, ?_, ?_⟩
  · rw [helements]
    exact List.prefix_append _ _
  · rwa [helements, List.drop_left]

/-! ## What is refused -/

/-- What is reported of a source whose folder steps out of the repository. -/
def GitSource.dirIssue (s : GitSource) : String :=
  "dir " ++ Text.quoted s.dir ++ " must stay inside the repository"

theorem GitSource.stays_of_issues {s : GitSource} (h : s.dirIssue ∉ s.issues) : Stays s.dir := by
  have hcheck : (isAbsolute s.dir || "..".toList.isPrefixOf (clean s.dir).toList) = false := by
    refine eq_false_of_ne_true fun hcheck => h ?_
    unfold GitSource.issues
    rw [if_pos hcheck]
    exact List.mem_append_right _ (List.mem_singleton_self _)
  obtain ⟨hrelative, hclean⟩ := Bool.or_eq_false_iff.1 hcheck
  refine ⟨hrelative, fun hup => ?_⟩
  rcases clean_of_mem_up hup with hclean' | ⟨more, hclean'⟩
  · rw [hclean'] at hclean
    exact absurd hclean (by decide)
  · rw [hclean', String.toList_append] at hclean
    cases hclean

theorem GitSource.stays_of_staysInside {path : String} (h : GitSource.staysInside path = true) :
    Stays path := by
  unfold GitSource.staysInside at h
  dsimp only at h
  split at h
  · cases h
  · rename_i hhead
    obtain ⟨hclean, hprefix⟩ := Bool.and_eq_true_iff.1 h
    rw [Bool.or_eq_true, not_or] at hhead
    refine ⟨eq_false_of_ne_true hhead.1, fun hup => ?_⟩
    rcases clean_of_mem_up hup with hclean' | ⟨more, hclean'⟩
    · exact absurd hclean' (of_decide_eq_true hclean)
    · rw [hclean', String.toList_append] at hprefix
      cases hprefix

/-! ## What is read -/

/-- A module that is looked up in one folder is read from one of its candidates there. -/
theorem FolderReader.display_of_read {folder name : String} {tree : FileTree} {m : Module}
    (hname : isAbsolute name = false)
    (h : FolderReader.read { base := folder } tree name = .ok m) :
    ∃ path ∈ FolderReader.candidates (if folder = "" then "." else folder) name,
      m.display = clean path := by
  unfold FolderReader.read at h
  cases hresolve : FolderReader.resolve { base := folder } tree name with
  | error fault =>
    rw [hresolve] at h
    cases h
  | ok file =>
    have hdisplay : m.display = file := by
      rw [hresolve] at h
      dsimp only [bind, Except.bind] at h
      split at h
      · cases h
        rfl
      · cases h
    have hroots : FolderReader.roots { base := folder } = [if folder = "" then "." else folder] := by
      simp [FolderReader.roots]
    rw [FolderReader.resolve, if_neg (Bool.eq_false_iff.1 hname), hroots, List.flatMap_singleton]
      at hresolve
    split at hresolve
    · rename_i path hfind
      cases hresolve
      exact ⟨path, List.mem_of_find?_eq_some hfind, hdisplay⟩
    · cases hresolve

theorem sourceExtension_whole : '/' ∉ sourceExtension.toList := by decide

theorem sourceExtension_long : 2 < sourceExtension.length := by decide

/-- The candidates in a folder lie inside it, unless the name means the folder itself. -/
theorem FolderReader.inside_of_candidate {outer folder name path : String} {rest : List String}
    (hne : folder ≠ "") (habsolute : isAbsolute folder = isAbsolute outer)
    (hfolder : cleanElements folder = cleanElements outer ++ rest) (hrest : ".." ∉ rest)
    (hname : Stays name) (hpath : path ∈ FolderReader.candidates folder name) :
    Path.Inside outer (clean path) ∨
      rest = [] ∧ cleanElements name = [] ∧ clean path = clean outer ++ sourceExtension := by
  obtain ⟨hjoined, helements⟩ := cleanElements_join folder hname
  rw [habsolute] at hjoined
  rw [hfolder, List.append_assoc] at helements
  have hup : ".." ∉ rest ++ cleanElements name := by
    rw [List.mem_append]
    exact not_or.2 ⟨hrest, hname.2⟩
  rcases List.mem_cons.1 hpath with rfl | hpath
  · refine .inl (inside_of_append ((isAbsolute_clean _).trans hjoined) ?_ hup)
    rw [cleanElements_clean, helements]
  · split at hpath
    · cases hpath
    · obtain rfl := List.mem_singleton.1 hpath
      rw [← clean_join hne]
      rcases List.eq_nil_or_concat (rest ++ cleanElements name) with hnone | ⟨front, e, hends⟩
      · obtain ⟨rfl, hnone'⟩ := List.append_eq_nil_iff.1 hnone
        refine .inr ⟨rfl, hnone', ?_⟩
        rw [clean_append sourceExtension_whole sourceExtension_long, clean_eq_ofElements, hjoined,
          helements, hnone, List.append_nil]
        rfl
      · rw [List.concat_eq_append] at hends
        rw [hends, ← List.append_assoc] at helements
        obtain ⟨habsolute', helements'⟩ :=
          cleanElements_append sourceExtension_whole sourceExtension_long helements
        rw [← isAbsolute_clean, hjoined] at habsolute'
        rw [← cleanElements_clean, List.append_assoc] at helements'
        refine .inl (inside_of_append habsolute' helements' ?_)
        have hlast : '/' ∉ e.toList := by
          refine ((cleanStack_cleanElements (join [folder, name])).element ?_).2
          rw [helements, List.mem_reverse]
          exact List.mem_append_right _ (List.mem_singleton_self e)
        have hended := isName_append sourceExtension_whole sourceExtension_long hlast
        rw [hends, List.mem_append] at hup
        rw [List.mem_append, List.mem_singleton]
        exact not_or.2 ⟨(not_or.1 hup).1, hended.notUp.symm⟩

/-- How a module of a checkout comes to be read. -/
theorem GitCache.read_ok {c : GitCache} {tree : FileTree} {name : String} {m : Module}
    (h : (c.read tree name).1 = .ok m) :
    ∃ source path declared dir tree', cutSlash? name = some (source, path) ∧
      c.sources.lookup source = some declared ∧ GitSource.staysInside path = true ∧
      (c.checkout tree source).1 = .ok dir ∧
      FolderReader.read { base := join [dir, (declared.map (·.dir)).getD ""] } tree' path =
        .ok m := by
  unfold GitCache.read at h
  split at h
  · cases h
  · rename_i source path hcut
    split at h
    · cases h
    · split at h
      · cases h
      · rename_i declared hdeclared
        split at h
        · cases h
        · rename_i hstays
          split at h
          · cases h
          · rename_i dir c' tree' hcheckout
            refine ⟨source, path, declared, dir, tree', hcut, hdeclared, ?_, ?_, h⟩
            · simpa using hstays
            · rw [hcheckout]

/-- **Modules of a checkout lie inside it or beside it.** Whatever the files are: if a module of a
git source can be read, and no folder of a source is reported to step out of its repository, then
the file lies inside the checkout of the source, or the folder and the path in it both mean the
checkout itself, and the file has the name of the checkout with the ending of program files. -/
theorem GitCache.read_inside_or_beside {c : GitCache} {tree : FileTree} {name : String} {m : Module}
    (hdirs : ∀ entry ∈ c.sources, ∀ s ∈ entry.2, s.dirIssue ∉ s.issues)
    (h : (c.read tree name).1 = .ok m) :
    ∃ source path declared dir, cutSlash? name = some (source, path) ∧
      c.sources.lookup source = some declared ∧ (c.checkout tree source).1 = .ok dir ∧
      (Path.Inside dir m.display ∨
        clean ((declared.map (·.dir)).getD "") = "." ∧ clean path = "." ∧
          m.display = clean dir ++ sourceExtension) := by
  obtain ⟨source, path, declared, dir, tree', hcut, hdeclared, hpath, hcheckout, hread⟩ :=
    GitCache.read_ok h
  refine ⟨source, path, declared, dir, hcut, hdeclared, hcheckout, ?_⟩
  have hstays : Stays path := GitSource.stays_of_staysInside hpath
  have hfolder : Stays ((declared.map (·.dir)).getD "") := by
    cases declared with
    | none => exact ⟨rfl, by decide⟩
    | some s =>
      obtain ⟨before, behind, hsources, -⟩ := List.lookup_eq_some_iff.1 hdeclared
      refine GitSource.stays_of_issues (hdirs (source, some s) ?_ s rfl)
      rw [hsources]
      exact List.mem_append_right _ List.mem_cons_self
  rw [hfolder.clean_eq_dot_iff, hstays.clean_eq_dot_iff]
  obtain ⟨file, hfile, hdisplay⟩ := FolderReader.display_of_read hstays.1 hread
  obtain ⟨habsolute, helements⟩ := cleanElements_join dir hfolder
  rw [hdisplay]
  refine FolderReader.inside_of_candidate ?_ ?_ ?_ hfolder.2 hstays hfile
  · split
    · decide
    · assumption
  · split
    · rename_i hempty
      rw [← habsolute, hempty]
      rfl
    · exact habsolute
  · split
    · rename_i hempty
      rw [← helements, hempty]
      rfl
    · exact helements

/-- A checkout with a module in a folder, and a file beside it that has its name. -/
def sampleCheckout : FileTree :=
  (({} : FileTree).addFile ["cache", "lib", "v1", "modules", "strings.giffi"] "let a = 1;").addFile
    ["cache", "lib", "v1.giffi"] "let outside = 1;"

/-- One source, of which a tag is used. -/
def taggedSource (dir : String) : GitCache where
  cache := "/cache"
  sources := [("lib", some { git := "file:///lib.git", tag := "v1", dir })]

/-- A path may go down and up again below the folder of its source. -/
theorem GitCache.read_inside_or_beside_nested :
    ∃ m, (∀ entry ∈ (taggedSource "modules").sources, ∀ s ∈ entry.2, s.dirIssue ∉ s.issues) ∧
      ((taggedSource "modules").read sampleCheckout "lib/nested/../strings").1 = .ok m ∧
      m.display = "/cache/lib/v1/modules/strings.giffi" ∧
      ∃ source path declared dir, cutSlash? "lib/nested/../strings" = some (source, path) ∧
        (taggedSource "modules").sources.lookup source = some declared ∧
        ((taggedSource "modules").checkout sampleCheckout source).1 = .ok dir ∧
        (Path.Inside dir m.display ∨
          clean ((declared.map (·.dir)).getD "") = "." ∧ clean path = "." ∧
            m.display = clean dir ++ sourceExtension) := by
  have hdirs : ∀ entry ∈ (taggedSource "modules").sources, ∀ s ∈ entry.2,
      s.dirIssue ∉ s.issues := by decide +kernel
  have hread : ((taggedSource "modules").read sampleCheckout
      "lib/nested/../strings").1.toOption.map Module.display =
        some "/cache/lib/v1/modules/strings.giffi" := by decide +kernel
  obtain ⟨m, hm, hdisplay⟩ := Option.map_eq_some_iff.1 hread
  have hok : ((taggedSource "modules").read sampleCheckout "lib/nested/../strings").1 = .ok m := by
    cases h : ((taggedSource "modules").read sampleCheckout "lib/nested/../strings").1 with
    | ok m' =>
      rw [h] at hm
      cases hm
      rfl
    | error fault =>
      rw [h] at hm
      cases hm
  exact ⟨m, hdirs, hok, hdisplay, GitCache.read_inside_or_beside hdirs hok⟩

/-- **A file beside a checkout can be read.** The path `.` does not step out of the checkout, and yet
the file that is read for it is no part of it. -/
theorem GitCache.read_beside :
    (∀ entry ∈ (taggedSource "").sources, ∀ s ∈ entry.2, s.issues = []) ∧
    ((taggedSource "").checkout sampleCheckout "lib").1.toOption = some "/cache/lib/v1" ∧
    ((taggedSource "").read sampleCheckout "lib/.").1.toOption.map Module.display =
      some "/cache/lib/v1.giffi" ∧
    ¬ Path.Inside "/cache/lib/v1" "/cache/lib/v1.giffi" := by
  decide +kernel

end StackScript
