import StackScript.Proofs.Path.Clean

/-!
# Paths below a folder

What joining does to the text of a clean path: the elements that are put behind a folder stand
behind its clean text and a slash. The working folder and the root are the two folders whose clean
texts are not followed by another slash.

**Theorem (`join_eq_below`).** A path that stays where it begins is found below the folder that it
is joined to, with its clean elements in their order.
-/

namespace StackScript.Path

/-- The text of the path that goes on from a folder with some elements. -/
def below (folder : String) (es : List String) : String :=
  if es = [] then clean folder
  else if clean folder = "." then "/".intercalate es
  else if clean folder = "/" then "/" ++ "/".intercalate es
  else clean folder ++ "/" ++ "/".intercalate es

theorem clean_eq_dot_iff (path : String) :
    clean path = "." ↔ isAbsolute path = false ∧ cleanElements path = [] := by
  constructor
  · intro h
    refine ⟨?_, ?_⟩
    · rw [← isAbsolute_clean, h]
      rfl
    · rw [← cleanElements_clean, h]
      rfl
  · rintro ⟨hrelative, hnone⟩
    rw [clean_eq_ofElements, hrelative, hnone]
    rfl

theorem clean_eq_slash_iff (path : String) :
    clean path = "/" ↔ isAbsolute path = true ∧ cleanElements path = [] := by
  constructor
  · intro h
    refine ⟨?_, ?_⟩
    · rw [← isAbsolute_clean, h]
      rfl
    · rw [← cleanElements_clean, h]
      rfl
  · rintro ⟨habsolute, hnone⟩
    rw [clean_eq_ofElements, habsolute, hnone]
    rfl

theorem ofElements_append (folder : String) {es : List String}
    (h : CleanStack (isAbsolute folder) (cleanElements folder ++ es).reverse) :
    ofElements (isAbsolute folder) (cleanElements folder ++ es) = below folder es := by
  unfold below
  by_cases hes : es = []
  · simp [hes, clean_eq_ofElements]
  simp only [hes, if_false, clean_eq_dot_iff, clean_eq_slash_iff]
  by_cases hnone : cleanElements folder = []
  · rw [hnone, List.nil_append] at h ⊢
    cases hrooted : isAbsolute folder with
    | true => simp [ofElements]
    | false =>
      rw [hrooted] at h
      simp [ofElements_relative hes h]
  · have happend : "/".intercalate (cleanElements folder ++ es) =
        "/".intercalate (cleanElements folder) ++ "/" ++ "/".intercalate es :=
      String.intercalate_append_of_ne_nil hnone hes
    have hclean := cleanStack_cleanElements folder
    simp only [hnone, and_false, if_false, clean_eq_ofElements]
    cases hrooted : isAbsolute folder with
    | true => simp [ofElements, happend, String.append_assoc]
    | false =>
      rw [hrooted] at h hclean
      rw [ofElements_relative (by simp [hnone]) h, ofElements_relative hnone hclean, happend]

/-- A clean path is told by its elements and those of a folder it goes on from. -/
theorem eq_below {folder path : String} {es : List String} (hclean : clean path = path)
    (habsolute : isAbsolute path = isAbsolute folder)
    (helements : cleanElements path = cleanElements folder ++ es) : path = below folder es := by
  have hstack := cleanStack_cleanElements path
  rw [habsolute, helements] at hstack
  calc path
      = ofElements (isAbsolute path) (cleanElements path) := hclean.symm
    _ = ofElements (isAbsolute folder) (cleanElements folder ++ es) := by
        rw [habsolute, helements]
    _ = below folder es := ofElements_append folder hstack

theorem stays_of_isName {e : String} (h : IsName e) : Stays e ∧ cleanElements e = [e] := by
  have helements : cleanElements e = [e] := by
    rw [cleanElements, elements_of_not_mem h.whole]
    show (pushElement _ [] e).reverse = [e]
    rw [pushElement_name h, List.reverse_singleton]
  refine ⟨⟨isAbsolute_of_not_mem h.whole, ?_⟩, helements⟩
  rw [helements, List.mem_singleton]
  exact fun hup => h.notUp hup.symm

theorem clean_join_of_ne {a b : String} (h : a ≠ "" ∨ b ≠ "") :
    clean (join [a, b]) = join [a, b] := by
  by_cases ha : a = ""
  · have hjoin : join [a, b] = clean b := by
      simp [join, ha, h.resolve_left (not_not.2 ha)]
    rw [hjoin, clean_clean]
  · exact clean_join ha b

/-- **Joining goes on from the clean folder.** -/
theorem join_eq_below {folder path : String} (hne : folder ≠ "" ∨ path ≠ "")
    (hpath : Stays path) : join [folder, path] = below folder (cleanElements path) := by
  obtain ⟨habsolute, helements⟩ := cleanElements_join folder hpath
  exact eq_below (clean_join_of_ne hne) habsolute helements

/-- A name that is put behind a folder is the last element. -/
theorem elements_join_name (folder : String) {e : String} (he : IsName e) :
    ∃ front, elements (join [folder, e]) = front ++ [e] := by
  obtain ⟨hstays, helements⟩ := stays_of_isName he
  have hlast := elements_of_not_mem he.whole
  rw [join_eq_below (.inr he.nonempty) hstays, helements]
  simp only [below, List.cons_ne_nil, if_false, String.intercalate_singleton]
  split_ifs
  · exact ⟨[], hlast⟩
  · refine ⟨elements "", ?_⟩
    rw [← String.empty_append (s := "/"), elements_slash, hlast]
  · refine ⟨elements (clean folder), ?_⟩
    rw [elements_slash, hlast]

end StackScript.Path
