import StackScript.FileTree
import StackScript.Proofs.Path.Below

/-!
# Changes of a file tree

What removing, adding and moving folders does to the files and folders at each place.

- A path that leads somewhere leads to its *destination* (`place?_ok`), which depends on its clean
  elements alone (`destination_eq`).
- What is put into a free folder can be taken away again (`removeAt_graft`) or moved to another place
  (`moveAt_graft`) as if it had never been there.
- A tree is *kept outside* of a place (`KeptOutside`) if all else is as before, except for new
  folders on the way to that place.
-/

namespace StackScript.FileTree

open StackScript.Path

variable {t t' t'' : FileTree} {p q place : List String}

/-! ## Where paths lead -/

theorem stepFrom_name {e : String} (he : IsName e) (place : List String) :
    stepFrom place e = place ++ [e] := by
  simp [stepFrom, he.nonempty, he.notHere, he.notUp]

theorem follow_ok {names : List String} (h : t.follow p names = .ok q) :
    q = names.foldl stepFrom p := by
  induction names generalizing p with
  | nil =>
    cases h
    rfl
  | cons name rest ih =>
    unfold follow at h
    dsimp only at h
    rw [List.foldl_cons, stepFrom]
    split_ifs at h ⊢ with hskip hup
    · exact ih h
    · exact ih h
    · exact ih h

/-- A path that leads somewhere leads to its destination. -/
theorem place?_ok {path : String} (h : t.place? path = .ok p) : p = t.destination path := by
  unfold place? at h
  split_ifs at h with hempty habsolute
  · rw [destination, if_pos habsolute]
    exact follow_ok h
  · rw [destination, if_neg habsolute]
    exact follow_ok h

/-- Cleaning a step up away leads to the same place. At the root there is nothing above. -/
theorem foldl_stepFrom_push {rooted : Bool} {done start : List String} {e : String}
    (hdone : CleanStack rooted done) (he : '/' ∉ e.toList) (hstart : rooted = true → start = []) :
    (pushElement rooted done e).reverse.foldl stepFrom start =
      stepFrom (done.reverse.foldl stepFrom start) e := by
  have hpushed : ∀ done : List String, (e :: done).reverse.foldl stepFrom start =
      stepFrom (done.reverse.foldl stepFrom start) e := by
    intro done
    simp
  by_cases hskip : e = "" ∨ e = "."
  · simp [pushElement, stepFrom, hskip]
  by_cases hup : e = ".."
  · subst hup
    rw [pushElement_up]
    cases hdone with
    | nil =>
      cases rooted with
      | true => simp [hstart rfl, stepFrom]
      | false => exact hpushed []
    | up _ _ _ => exact hpushed _
    | @name last rest hlast _ =>
      have hback : ∀ place, stepFrom (stepFrom place last) ".." = place := by
        intro place
        rw [stepFrom_name hlast]
        exact List.dropLast_concat
      simp [hlast.notUp, hback]
  · simp [pushElement, hskip, hup]

theorem foldl_stepFrom_clean {rooted : Bool} {done start es : List String}
    (hdone : CleanStack rooted done) (hes : ∀ e ∈ es, '/' ∉ e.toList)
    (hstart : rooted = true → start = []) :
    (es.foldl (pushElement rooted) done).reverse.foldl stepFrom start =
      es.foldl stepFrom (done.reverse.foldl stepFrom start) := by
  induction es generalizing done with
  | nil => rfl
  | cons e rest ih =>
    obtain ⟨he, hrest⟩ := List.forall_mem_cons.1 hes
    rw [List.foldl_cons, List.foldl_cons, ih (hdone.push he) hrest,
      foldl_stepFrom_push hdone he hstart]

/-- The destination of a path is told by its clean elements. -/
theorem destination_eq (t : FileTree) (path : String) :
    t.destination path =
      (cleanElements path).foldl stepFrom (if isAbsolute path then [] else t.here) := by
  rw [cleanElements, foldl_stepFrom_clean .nil fun _ => not_mem_of_mem_elements]
  · rfl
  · intro hrooted
    rw [if_pos hrooted]

theorem destination_join (t : FileTree) (folder : String) {e : String} (he : IsName e) :
    t.destination (join [folder, e]) = t.destination folder ++ [e] := by
  obtain ⟨hstays, helements⟩ := stays_of_isName he
  obtain ⟨habsolute, hjoined⟩ := cleanElements_join folder hstays
  rw [destination_eq, destination_eq, habsolute, hjoined, helements, List.foldl_append,
    List.foldl_cons, List.foldl_nil, stepFrom_name he]

/-- Names that are followed to their end are followed from somewhere on the way. -/
theorem follow_append_ok {front behind : List String} (h : t.follow p (front ++ behind) = .ok q) :
    ∃ r, t.follow r behind = .ok q := by
  induction front generalizing p with
  | nil => exact ⟨p, h⟩
  | cons name rest ih =>
    rw [List.cons_append, follow] at h
    dsimp only at h
    split_ifs at h
    · exact ih h
    · exact ih h
    · exact ih h

/-- Something is at the place that a name leads to. -/
theorem follow_name {e : String} (he : IsName e) (h : t.follow p [e] = .ok q) :
    t.isFolderAt q = true ∨ (t.fileAt? q).isSome = true := by
  simp only [follow, he.nonempty, he.notHere, he.notUp, decide_false, Bool.or_false,
    Bool.false_eq_true, if_false] at h
  split_ifs at h with hfolder hthere
  cases h
  exact Bool.or_eq_true_iff.1 hthere

/-- What a path leads to is still there when there is more. -/
theorem follow_mono (hfolders : ∀ p, t.isFolderAt p = true → t'.isFolderAt p = true)
    (hfiles : ∀ p, (t.fileAt? p).isSome = true → (t'.fileAt? p).isSome = true)
    {names : List String} (h : t.follow p names = .ok q) : t'.follow p names = .ok q := by
  induction names generalizing p with
  | nil => exact h
  | cons name rest ih =>
    unfold follow at h ⊢
    dsimp only at h ⊢
    simp only [Bool.not_eq_true', Bool.or_eq_true] at h ⊢
    split_ifs at h with hfolder hskip hup hthere
    all_goals rw [if_neg (by simpa using hfolders p (by simpa using hfolder))]
    · rw [if_pos hskip]
      exact ih h
    · rw [if_neg hskip, if_pos hup]
      exact ih h
    · rw [if_neg hskip, if_neg hup, if_pos (hthere.imp (hfolders _) (hfiles _))]
      exact ih h

/-! ## Files and folders after a change -/

theorem isPrefixOf_eq_decide (q p : List String) : q.isPrefixOf p = decide (q <+: p) := by
  rw [Bool.eq_iff_iff, List.isPrefixOf_iff_prefix, decide_eq_true_iff]

theorem isFolderAt_iff : t.isFolderAt p = true ↔ p = [] ∨ p ∈ t.folders := by
  simp [isFolderAt]

theorem mem_placesTo : p ∈ placesTo q ↔ p ≠ [] ∧ p <+: q := by
  unfold placesTo
  rw [List.mem_map]
  constructor
  · rintro ⟨n, hn, rfl⟩
    have hpos : 0 < (q.take (n + 1)).length := by
      rw [List.length_take]
      have := List.mem_range.1 hn
      omega
    exact ⟨List.ne_nil_of_length_pos hpos, List.take_prefix _ _⟩
  · rintro ⟨hne, hprefix⟩
    have hpos := List.length_pos_iff.2 hne
    refine ⟨p.length - 1, List.mem_range.2 ?_, ?_⟩
    · have := hprefix.length_le
      omega
    · rw [Nat.sub_add_cancel hpos]
      exact (List.prefix_iff_eq_take.1 hprefix).symm

theorem isFolderAt_addFolder :
    (t.addFolder q).isFolderAt p = true ↔ t.isFolderAt p = true ∨ p <+: q := by
  simp only [isFolderAt_iff, addFolder, List.mem_append, List.mem_filter, mem_placesTo]
  by_cases hroot : p = []
  · simp [hroot]
  · by_cases hmem : p ∈ t.folders <;> simp [hroot, hmem]

theorem isFree_iff : t.isFree q = true ↔
    (∀ f ∈ t.files, ¬ q <+: f.1) ∧ ∀ f ∈ t.folders, ¬ q <+: f := by
  simp [isFree, isPrefixOf_eq_decide]

/-- A place that is free after a folder was filled was free before. -/
theorem isFree_of_graft {content : FileTree} (h : (t.graft q content).isFree p = true) :
    t.isFree p = true := by
  obtain ⟨hfiles, hfolders⟩ := isFree_iff.1 h
  refine isFree_iff.2 ⟨fun f hf => hfiles f ?_, fun f hf => hfolders f ?_⟩
  · exact List.mem_append_right _ hf
  · exact List.mem_append_right _ hf

theorem fileAt?_removeAt_outside (h : ¬ q <+: p) :
    (t.removeAt q).fileAt? p = t.fileAt? p := by
  simp only [fileAt?, removeAt, isPrefixOf_eq_decide]
  induction t.files with
  | nil => rfl
  | cons f rest ih =>
    obtain ⟨r, text⟩ := f
    by_cases hkey : p = r
    · subst hkey
      simp [h]
    · have hother : (p == r) = false := beq_eq_false_iff_ne.2 hkey
      by_cases hin : q <+: r
      · simp [hin, ih, List.lookup_cons, hother]
      · simp [hin, ih, List.lookup_cons, hother]

theorem isFolderAt_removeAt_outside (h : ¬ q <+: p) :
    (t.removeAt q).isFolderAt p = t.isFolderAt p := by
  rw [Bool.eq_iff_iff]
  simp [isFolderAt_iff, removeAt, isPrefixOf_eq_decide, h]

theorem isFree_removeAt (t : FileTree) (q : List String) : (t.removeAt q).isFree q = true := by
  simp [isFree_iff, removeAt, isPrefixOf_eq_decide]

theorem isFree_addFolder (hfree : t.isFree p = true) (h : ¬ p <+: q) :
    (t.addFolder q).isFree p = true := by
  obtain ⟨hfiles, hfolders⟩ := isFree_iff.1 hfree
  refine isFree_iff.2 ⟨hfiles, fun f hf => ?_⟩
  rcases List.mem_append.1 hf with hold | hnew
  · exact hfolders f hold
  · intro hp
    exact h (hp.trans (mem_placesTo.1 (List.mem_filter.1 hnew).1).2)

theorem fileAt?_graft_outside {content : FileTree} (h : ¬ q <+: p) :
    (t.graft q content).fileAt? p = t.fileAt? p := by
  have hnone : (content.files.map fun f => (q ++ f.1, f.2)).lookup p = none := by
    rw [List.lookup_eq_none_iff]
    intro f hf
    obtain ⟨g, -, rfl⟩ := List.mem_map.1 hf
    simp only [bne_iff_ne, ne_eq]
    rintro rfl
    exact h (List.prefix_append _ _)
  rw [fileAt?, graft, List.lookup_append, hnone, Option.none_or]
  rfl

theorem isFolderAt_graft {content : FileTree} :
    (t.graft q content).isFolderAt p = true ↔
      t.isFolderAt p = true ∨ ∃ r, p = q ++ r ∧ content.isFolderAt r = true := by
  simp only [isFolderAt_iff, graft, List.cons_append, List.mem_cons, List.mem_append, List.mem_map]
  constructor
  · rintro (rfl | rfl | ⟨r, hr, rfl⟩ | hmem)
    · exact .inl (.inl rfl)
    · exact .inr ⟨[], by simp⟩
    · exact .inr ⟨r, rfl, .inr hr⟩
    · exact .inl (.inr hmem)
  · rintro ((rfl | hmem) | ⟨r, rfl, rfl | hr⟩)
    · exact .inl rfl
    · exact .inr (.inr (.inr hmem))
    · simp
    · exact .inr (.inr (.inl ⟨r, hr, rfl⟩))

/-- A free folder is filled with the content and nothing else. -/
theorem fileAt?_graft_append {content : FileTree} (hfree : t.isFree q = true) (r : List String) :
    (t.graft q content).fileAt? (q ++ r) = content.fileAt? r := by
  have hnone : t.files.lookup (q ++ r) = none := by
    rw [List.lookup_eq_none_iff]
    intro f hf
    simp only [bne_iff_ne, ne_eq]
    intro hkey
    exact (isFree_iff.1 hfree).1 f hf (hkey ▸ List.prefix_append _ _)
  rw [fileAt?, graft, List.lookup_append, hnone, Option.or_none, fileAt?]
  induction content.files with
  | nil => rfl
  | cons f rest ih =>
    obtain ⟨s, text⟩ := f
    by_cases hkey : r = s
    · subst hkey
      simp
    · have hother : (r == s) = false := beq_eq_false_iff_ne.2 hkey
      have hother' : (q ++ r == q ++ s) = false := by simpa using hkey
      simp only [List.map_cons, List.lookup_cons, hother, hother', ih]

/-- Nothing leads to a name whose place is free. -/
theorem not_contains_of_isFree {folder e : String} (he : IsName e)
    (hfree : t.isFree (t.destination (join [folder, e])) = true) :
    t.contains (join [folder, e]) = false := by
  obtain ⟨front, hfront⟩ := elements_join_name folder he
  obtain ⟨hfiles, hfolders⟩ := isFree_iff.1 hfree
  refine eq_false_of_ne_true fun hthere => ?_
  unfold contains at hthere
  cases hplace : t.place? (join [folder, e]) with
  | error fault =>
    rw [hplace] at hthere
    cases hthere
  | ok p =>
    have hp := place?_ok hplace
    have hsomething : t.isFolderAt p = true ∨ (t.fileAt? p).isSome = true := by
      unfold place? at hplace
      rw [hfront] at hplace
      split_ifs at hplace
      all_goals
        obtain ⟨r, hlast⟩ := follow_append_ok hplace
        exact follow_name he hlast
    rcases hsomething with hfolder | hfile
    · rcases isFolderAt_iff.1 hfolder with hroot | hmem
      · rw [destination_join t folder he] at hp
        simp [hp] at hroot
      · exact hfolders p hmem (hp ▸ List.prefix_refl _)
    · obtain ⟨text, htext⟩ := Option.isSome_iff_exists.1 hfile
      obtain ⟨before, behind, hsplit, -⟩ := List.lookup_eq_some_iff.1 htext
      refine hfiles (p, text) ?_ (hp ▸ List.prefix_refl _)
      rw [hsplit]
      exact List.mem_append_right _ List.mem_cons_self

/-! ## Folders that are filled and given up or moved -/

/-- Giving up what was put into a free folder leaves the tree as it was. -/
theorem removeAt_graft (content : FileTree) (hfree : t.isFree q = true) :
    (t.graft q content).removeAt q = t := by
  obtain ⟨hfiles, hfolders⟩ := isFree_iff.1 hfree
  have hkeptFiles : t.files.filter (fun f => !decide (q <+: f.1)) = t.files := by
    rw [List.filter_eq_self]
    intro f hf
    simpa using hfiles f hf
  have hkeptFolders : t.folders.filter (fun f => !decide (q <+: f)) = t.folders := by
    rw [List.filter_eq_self]
    intro f hf
    simpa using hfolders f hf
  have hgone : ∀ xs : List (List String), xs.filter (fun r => !decide (q <+: q ++ r)) = [] := by
    intro xs
    simp
  simp only [removeAt, graft, isPrefixOf_eq_decide, List.cons_append, List.filter_append,
    List.filter_cons, List.filter_map, Function.comp_def, hkeptFiles, hkeptFolders, hgone]
  simp

/-- Moving what was put into a free folder is putting it to the other place. -/
theorem moveAt_graft (content : FileTree) (hfree : t.isFree q = true) (p : List String) :
    (t.graft q content).moveAt q p = t.graft p content := by
  obtain ⟨hfiles, hfolders⟩ := isFree_iff.1 hfree
  have hmoved : ∀ r, movedPlace q p (q ++ r) = p ++ r := by
    intro r
    simp [movedPlace, isPrefixOf_eq_decide]
  have hkept : ∀ r, ¬ q <+: r → movedPlace q p r = r := by
    intro r hr
    simp [movedPlace, isPrefixOf_eq_decide, hr]
  have hkeptFiles : t.files.map (fun f => (movedPlace q p f.1, f.2)) = t.files := by
    refine (List.map_congr_left fun f hf => ?_).trans (List.map_id _)
    rw [hkept f.1 (hfiles f hf)]
    rfl
  have hkeptFolders : t.folders.map (movedPlace q p) = t.folders := by
    refine (List.map_congr_left fun f hf => ?_).trans (List.map_id _)
    exact hkept f (hfolders f hf)
  have hself : movedPlace q p q = p := by
    simpa using hmoved []
  simp only [moveAt, graft, List.cons_append, List.map_cons, List.map_append, List.map_map,
    Function.comp_def, hmoved, hself, hkeptFiles, hkeptFolders]

/-! ## What is kept -/

/-- What is at a place stays there, and no file comes there. -/
structure KeptAt (p : List String) (t t' : FileTree) : Prop where
  file : t'.fileAt? p = t.fileAt? p
  folder : t.isFolderAt p = true → t'.isFolderAt p = true

theorem KeptAt.refl (p : List String) (t : FileTree) : KeptAt p t t := ⟨rfl, id⟩

theorem KeptAt.trans (h : KeptAt p t t') (h' : KeptAt p t' t'') : KeptAt p t t'' :=
  ⟨h'.file.trans h.file, h'.folder ∘ h.folder⟩

theorem keptAt_addFolder (p q : List String) (t : FileTree) : KeptAt p t (t.addFolder q) :=
  ⟨rfl, fun h => isFolderAt_addFolder.2 (.inl h)⟩

/-- All that was there is there, and there are no other files. -/
structure AllKept (t t' : FileTree) : Prop where
  everywhere : ∀ p, KeptAt p t t'
  here : t'.here = t.here

namespace AllKept

theorem refl (t : FileTree) : AllKept t t := ⟨fun p => .refl p t, rfl⟩

theorem addFolder (t : FileTree) (q : List String) : AllKept t (t.addFolder q) :=
  ⟨fun p => keptAt_addFolder p q t, rfl⟩

theorem place? {path : String} (h : AllKept t t') (hplace : t.place? path = .ok p) :
    t'.place? path = .ok p := by
  unfold FileTree.place? at hplace ⊢
  rw [h.here]
  split_ifs at hplace ⊢
  all_goals
    refine follow_mono (fun q => (h.everywhere q).folder) (fun q hq => ?_) hplace
    rwa [(h.everywhere q).file]

/-- What could be reached can still be reached. -/
theorem contains {path : String} (h : AllKept t t') (hthere : t.contains path = true) :
    t'.contains path = true := by
  unfold FileTree.contains at hthere ⊢
  cases hplace : t.place? path with
  | error fault =>
    rw [hplace] at hthere
    cases hthere
  | ok p =>
    rw [h.place? hplace]
    rfl

/-- What could be read is still read. -/
theorem read {path text : String} (h : AllKept t t') (hread : t.read path = .ok text) :
    t'.read path = .ok text := by
  unfold FileTree.read at hread ⊢
  cases hplace : t.place? path with
  | error fault =>
    rw [hplace] at hread
    cases hread
  | ok p =>
    rw [hplace] at hread
    rw [h.place? hplace]
    dsimp only at hread ⊢
    rwa [(h.everywhere p).file]

end AllKept

/-- All is kept outside of a place, and new folders are on the way to it or inside. -/
structure KeptOutside (place : List String) (t t' : FileTree) : Prop where
  kept : ∀ p, ¬ place <+: p → KeptAt p t t'
  added : ∀ p, t'.isFolderAt p = true → t.isFolderAt p = true ∨ p <+: place ∨ place <+: p
  here : t'.here = t.here

namespace KeptOutside

theorem refl (place : List String) (t : FileTree) : KeptOutside place t t :=
  ⟨fun p _ => .refl p t, fun _ h => .inl h, rfl⟩

theorem trans (h : KeptOutside place t t') (h' : KeptOutside place t' t'') :
    KeptOutside place t t'' where
  kept p hp := (h.kept p hp).trans (h'.kept p hp)
  added p hp := (h'.added p hp).elim (h.added p) .inr
  here := h'.here.trans h.here

/-- What is kept outside of a folder is kept outside of the folders it lies in. -/
theorem mono (h : KeptOutside place t t') (hq : q <+: place) : KeptOutside q t t' where
  kept p hp := h.kept p fun hplace => hp (hq.trans hplace)
  added p hp := by
    rcases h.added p hp with hold | hway | hinside
    · exact .inl hold
    · exact .inr (List.prefix_or_prefix_of_prefix hway hq)
    · exact .inr (.inr (hq.trans hinside))
  here := h.here

theorem removeAt (place : List String) (t : FileTree) : KeptOutside place t (t.removeAt place) where
  kept p hp :=
    ⟨fileAt?_removeAt_outside hp, fun h => (isFolderAt_removeAt_outside hp).trans h⟩
  added p h := by
    by_cases hp : place <+: p
    · exact .inr (.inr hp)
    · exact .inl ((isFolderAt_removeAt_outside hp).symm.trans h)
  here := rfl

theorem addFolder (t : FileTree) (hq : q <+: place) : KeptOutside place t (t.addFolder q) where
  kept p _ := keptAt_addFolder p q t
  added _ h := (isFolderAt_addFolder.1 h).imp_right fun hp => .inl (hp.trans hq)
  here := rfl

theorem graft (place : List String) (t content : FileTree) :
    KeptOutside place t (t.graft place content) where
  kept _ hp := ⟨fileAt?_graft_outside hp, fun h => isFolderAt_graft.2 (.inl h)⟩
  added p h := by
    rcases isFolderAt_graft.1 h with hold | ⟨r, rfl, -⟩
    · exact .inl hold
    · exact .inr (.inr (List.prefix_append _ _))
  here := rfl

end KeptOutside

end StackScript.FileTree
