import StackScript.Path
import Mathlib.Data.List.Basic

/-!
# Clean paths

Cleaning works on the elements of a path from left to right and keeps those that are left on a
stack. Such a stack holds names above steps up (`CleanStack`), and at the root there are no steps
up.

**Theorem (`clean_clean`).** A clean path stays as it is when it is cleaned again.

**Theorem (`cleanElements_join`).** A relative path that does not step out of where it begins puts
its clean elements behind those of the path it is joined to.
-/

namespace StackScript.Text

variable {sep : Char}

theorem splitChars_ne_nil (cs : List Char) : splitChars sep cs ≠ [] := by
  cases cs with
  | nil => exact List.cons_ne_nil _ _
  | cons c rest =>
    unfold splitChars
    split
    · exact List.cons_ne_nil _ _
    · split <;> exact List.cons_ne_nil _ _

theorem splitChars_append (a b : List Char) :
    splitChars sep (a ++ sep :: b) = splitChars sep a ++ splitChars sep b := by
  induction a with
  | nil => simp [splitChars]
  | cons c rest ih =>
    rw [List.cons_append, splitChars, splitChars, ih]
    split
    · rfl
    · cases h : splitChars sep rest with
      | nil => exact absurd h (splitChars_ne_nil rest)
      | cons piece pieces => rfl

theorem splitChars_of_not_mem {cs : List Char} (h : sep ∉ cs) : splitChars sep cs = [cs] := by
  induction cs with
  | nil => rfl
  | cons c rest ih =>
    obtain ⟨hc, hrest⟩ := not_or.1 (mt List.mem_cons.2 h)
    rw [splitChars, if_neg (Ne.symm hc), ih hrest]

theorem not_mem_of_mem_splitChars {cs piece : List Char} (h : piece ∈ splitChars sep cs) :
    sep ∉ piece := by
  induction cs generalizing piece with
  | nil =>
    obtain rfl := List.mem_singleton.1 h
    exact List.not_mem_nil
  | cons c rest ih =>
    rw [splitChars] at h
    split at h
    · rcases List.mem_cons.1 h with rfl | h
      · exact List.not_mem_nil
      · exact ih h
    · rename_i hc
      split at h
      · obtain rfl := List.mem_singleton.1 h
        exact fun hmem => hc (List.mem_singleton.1 hmem).symm
      · rename_i first pieces hpieces
        rcases List.mem_cons.1 h with rfl | h
        · rintro (_ | ⟨_, hmem⟩)
          · exact hc rfl
          · exact ih (hpieces ▸ List.mem_cons_self) hmem
        · exact ih (hpieces ▸ List.mem_cons_of_mem _ h)

end StackScript.Text

namespace StackScript.Path

open StackScript.Text

/-! ## Elements -/

theorem elements_slash (a b : String) : elements (a ++ "/" ++ b) = elements a ++ elements b := by
  have h : (a ++ "/" ++ b).toList = a.toList ++ '/' :: b.toList := by
    simp [String.toList_append]
  rw [elements, split, h, splitChars_append, List.map_append]
  rfl

theorem elements_of_not_mem {e : String} (h : '/' ∉ e.toList) : elements e = [e] := by
  rw [elements, split, splitChars_of_not_mem h, List.map_singleton, String.ofList_toList]

theorem not_mem_of_mem_elements {path e : String} (h : e ∈ elements path) : '/' ∉ e.toList := by
  obtain ⟨piece, hpiece, rfl⟩ := List.mem_map.1 h
  rw [String.toList_ofList]
  exact not_mem_of_mem_splitChars hpiece

/-- Elements that were put together come apart again. -/
theorem elements_intercalate {es : List String} (hne : es ≠ [])
    (h : ∀ e ∈ es, '/' ∉ e.toList) : elements ("/".intercalate es) = es := by
  induction es with
  | nil => exact absurd rfl hne
  | cons e rest ih =>
    have he := elements_of_not_mem (h e List.mem_cons_self)
    cases rest with
    | nil => rw [String.intercalate_singleton, he]
    | cons e' rest =>
      rw [String.intercalate_cons_cons, elements_slash, he,
        ih (List.cons_ne_nil _ _) fun x hx => h x (List.mem_cons_of_mem _ hx)]
      rfl

theorem intercalate_concat_append (front : List String) (e ext : String) :
    "/".intercalate (front ++ [e]) ++ ext = "/".intercalate (front ++ [e ++ ext]) := by
  by_cases hfront : front = []
  · subst hfront
    simp only [List.nil_append, String.intercalate_singleton]
  · simp only [String.intercalate_append_of_ne_nil hfront (List.cons_ne_nil _ _),
      String.intercalate_singleton, String.append_assoc]

theorem intercalate_ne_empty {e : String} (he : e ≠ "") (rest : List String) :
    "/".intercalate (e :: rest) ≠ "" := by
  cases rest with
  | nil => rwa [String.intercalate_singleton]
  | cons e' rest =>
    rw [String.intercalate_cons_cons, String.append_assoc]
    exact fun h => he (String.append_eq_empty_iff.1 h).1

/-! ## Clean stacks -/

/-- An element that names something. -/
structure IsName (e : String) : Prop where
  nonempty : e ≠ ""
  notHere : e ≠ "."
  notUp : e ≠ ".."
  whole : '/' ∉ e.toList

/-- Elements as cleaning leaves them, the last one first: names above steps up, of which there are
none at the root. -/
inductive CleanStack (rooted : Bool) : List String → Prop
  | nil : CleanStack rooted []
  | up {done : List String} : rooted = false → CleanStack rooted done → (∀ e ∈ done, e = "..") →
      CleanStack rooted (".." :: done)
  | name {e : String} {done : List String} : IsName e → CleanStack rooted done →
      CleanStack rooted (e :: done)

theorem pushElement_name {rooted : Bool} {done : List String} {e : String} (he : IsName e) :
    pushElement rooted done e = e :: done := by
  simp [pushElement, he.nonempty, he.notHere, he.notUp]

theorem pushElement_up (rooted : Bool) (done : List String) :
    pushElement rooted done ".." = match done with
      | [] => if rooted then [] else [".."]
      | last :: rest => if last = ".." then ".." :: done else rest :=
  rfl

/-- An element is skipped, steps up, or is a name. -/
theorem element_cases {e : String} (h : '/' ∉ e.toList) :
    (∀ rooted done, pushElement rooted done e = done) ∨ e = ".." ∨ IsName e := by
  by_cases hempty : e = ""
  · subst hempty
    exact .inl fun _ _ => rfl
  by_cases hhere : e = "."
  · subst hhere
    exact .inl fun _ _ => rfl
  by_cases hup : e = ".."
  · exact .inr (.inl hup)
  · exact .inr (.inr ⟨hempty, hhere, hup, h⟩)

namespace CleanStack

variable {rooted : Bool} {done : List String} {e : String}

theorem push (h : CleanStack rooted done) (he : '/' ∉ e.toList) :
    CleanStack rooted (pushElement rooted done e) := by
  rcases element_cases he with hskip | rfl | hname
  · rwa [hskip]
  · rw [pushElement_up]
    cases h with
    | nil =>
      cases rooted with
      | true => exact .nil
      | false => exact .up rfl .nil nofun
    | up hrooted hdone hups =>
      exact .up hrooted (.up hrooted hdone hups) (List.forall_mem_cons.2 ⟨rfl, hups⟩)
    | name hname hdone =>
      dsimp only
      rwa [if_neg hname.notUp]
  · rw [pushElement_name hname]
    exact .name hname h

theorem foldl (h : CleanStack rooted done) {es : List String} (hes : ∀ e ∈ es, '/' ∉ e.toList) :
    CleanStack rooted (es.foldl (pushElement rooted) done) := by
  induction es generalizing done with
  | nil => exact h
  | cons e rest ih =>
    obtain ⟨he, hrest⟩ := List.forall_mem_cons.1 hes
    exact ih (h.push he) hrest

theorem tail (h : CleanStack rooted (e :: done)) : CleanStack rooted done := by
  cases h with
  | up _ hdone _ => exact hdone
  | name _ hdone => exact hdone

/-- Cleaning leaves clean elements as they are. -/
theorem foldl_reverse (h : CleanStack rooted done) :
    done.reverse.foldl (pushElement rooted) [] = done := by
  induction h with
  | nil => rfl
  | @up done hrooted _ hups ih =>
    rw [List.reverse_cons, List.foldl_append, ih, List.foldl_cons, List.foldl_nil, pushElement_up]
    cases done with
    | nil => rw [hrooted]; rfl
    | cons last rest =>
      dsimp only
      rw [if_pos (hups last List.mem_cons_self)]
  | name hname _ ih =>
    rw [List.reverse_cons, List.foldl_append, ih, List.foldl_cons, List.foldl_nil,
      pushElement_name hname]

theorem element (h : CleanStack rooted done) (he : e ∈ done) : e ≠ "" ∧ '/' ∉ e.toList := by
  induction h with
  | nil => cases he
  | up _ _ _ ih =>
    rcases List.mem_cons.1 he with rfl | he
    · decide
    · exact ih he
  | name hname _ ih =>
    rcases List.mem_cons.1 he with rfl | he
    · exact ⟨hname.nonempty, hname.whole⟩
    · exact ih he

/-- Steps up come first. -/
theorem reverse_of_mem_up (h : CleanStack rooted done) (hup : ".." ∈ done) :
    rooted = false ∧ ∃ more, done.reverse = ".." :: more := by
  induction h with
  | nil => cases hup
  | @up done hrooted _ hups ih =>
    refine ⟨hrooted, ?_⟩
    cases done with
    | nil => exact ⟨[], rfl⟩
    | cons last rest =>
      obtain ⟨-, more, hmore⟩ := ih (hups last List.mem_cons_self ▸ List.mem_cons_self)
      exact ⟨more ++ [".."], by rw [List.reverse_cons, hmore]; rfl⟩
  | @name e done hname _ ih =>
    obtain ⟨hrooted, more, hmore⟩ := ih ((List.mem_cons.1 hup).resolve_left hname.notUp.symm)
    exact ⟨hrooted, more ++ [e], by rw [List.reverse_cons, hmore]; rfl⟩

end CleanStack

/-! ## Clean paths -/

/-- The path of clean elements. -/
def ofElements (rooted : Bool) (es : List String) : String :=
  let cleaned := "/".intercalate es
  if rooted then "/" ++ cleaned else if cleaned = "" then "." else cleaned

theorem clean_eq_ofElements (path : String) :
    clean path = ofElements (isAbsolute path) (cleanElements path) := rfl

theorem cleanStack_cleanElements (path : String) :
    CleanStack (isAbsolute path) (cleanElements path).reverse := by
  rw [cleanElements, List.reverse_reverse]
  exact CleanStack.nil.foldl fun _ => not_mem_of_mem_elements

theorem isAbsolute_append {a : String} (ha : a ≠ "") (b : String) :
    isAbsolute (a ++ b) = isAbsolute a := by
  have hne : a.toList ≠ [] := fun h => ha (String.toList_injective h)
  rw [isAbsolute, isAbsolute, String.toList_append, List.head?_append_of_ne_nil _ hne]

theorem isAbsolute_of_not_mem {e : String} (h : '/' ∉ e.toList) : isAbsolute e = false := by
  rw [isAbsolute, beq_eq_false_iff_ne]
  exact fun hhead => h (List.mem_of_mem_head? hhead)

theorem ofElements_cons {e : String} (he : e ≠ "") (rest : List String) :
    ofElements false (e :: rest) = "/".intercalate (e :: rest) := by
  simp [ofElements, intercalate_ne_empty he]

theorem ofElements_relative {es : List String} (hne : es ≠ []) (h : CleanStack false es.reverse) :
    ofElements false es = "/".intercalate es := by
  cases es with
  | nil => exact absurd rfl hne
  | cons e rest => exact ofElements_cons (h.element (List.mem_reverse.2 List.mem_cons_self)).1 rest

theorem ofElements_rooted (es : List String) :
    ofElements true es = "" ++ "/" ++ "/".intercalate es := by
  rw [ofElements, if_pos rfl, String.empty_append]

theorem isAbsolute_ofElements {rooted : Bool} {es : List String}
    (h : CleanStack rooted es.reverse) : isAbsolute (ofElements rooted es) = rooted := by
  cases rooted with
  | true =>
    rw [ofElements_rooted, String.empty_append, isAbsolute_append (by decide)]
    rfl
  | false =>
    cases es with
    | nil => rfl
    | cons e rest =>
      obtain ⟨hne, hwhole⟩ := h.element (List.mem_reverse.2 List.mem_cons_self)
      rw [ofElements_cons hne]
      cases rest with
      | nil => rw [String.intercalate_singleton, isAbsolute_of_not_mem hwhole]
      | cons e' rest =>
        rw [String.intercalate_cons_cons, String.append_assoc, isAbsolute_append hne,
          isAbsolute_of_not_mem hwhole]

theorem cleanElements_ofElements {rooted : Bool} {es : List String}
    (h : CleanStack rooted es.reverse) : cleanElements (ofElements rooted es) = es := by
  have hfold : es.foldl (pushElement rooted) [] = es.reverse := by
    have := h.foldl_reverse
    rwa [List.reverse_reverse] at this
  have hfolded : (elements ("/".intercalate es)).foldl (pushElement rooted) [] = es.reverse := by
    by_cases hne : es = []
    · subst hne
      rfl
    · rw [elements_intercalate hne fun e he => (h.element (List.mem_reverse.2 he)).2, hfold]
  rw [cleanElements, isAbsolute_ofElements h]
  refine (congrArg List.reverse ?_).trans es.reverse_reverse
  cases rooted with
  | true =>
    rw [ofElements_rooted, elements_slash, List.foldl_append]
    exact hfolded
  | false =>
    cases es with
    | nil => rfl
    | cons e rest =>
      rw [ofElements_cons (h.element (List.mem_reverse.2 List.mem_cons_self)).1]
      exact hfolded

theorem clean_ofElements {rooted : Bool} {es : List String} (h : CleanStack rooted es.reverse) :
    clean (ofElements rooted es) = ofElements rooted es := by
  rw [clean_eq_ofElements, isAbsolute_ofElements h, cleanElements_ofElements h]

theorem isAbsolute_clean (path : String) : isAbsolute (clean path) = isAbsolute path :=
  isAbsolute_ofElements (cleanStack_cleanElements path)

theorem cleanElements_clean (path : String) : cleanElements (clean path) = cleanElements path :=
  cleanElements_ofElements (cleanStack_cleanElements path)

/-- **Cleaning once is enough.** -/
theorem clean_clean (path : String) : clean (clean path) = clean path :=
  clean_ofElements (cleanStack_cleanElements path)

/-! ## Joining -/

/-- The path does not step out of where it begins. -/
def Stays (path : String) : Prop := isAbsolute path = false ∧ ".." ∉ cleanElements path

/-- A step out of where a path begins is not taken back. -/
theorem mem_up_foldl {done : List String} (h : ".." ∈ done) (es : List String) :
    ".." ∈ es.foldl (pushElement false) done := by
  induction es generalizing done with
  | nil => exact h
  | cons e rest ih =>
    refine ih ?_
    unfold pushElement
    split
    · exact h
    · split
      · cases done with
        | nil => cases h
        | cons last rest =>
          dsimp only
          split
          · exact List.mem_cons_self
          · rename_i hlast
            exact (List.mem_cons.1 h).resolve_left (Ne.symm hlast)
      · exact List.mem_cons_of_mem _ h

/-- Elements that do not step out come to the same above anything. -/
theorem foldl_above (rooted : Bool) (done : List String) {above es : List String}
    (h : ".." ∉ es.foldl (pushElement false) above) :
    es.foldl (pushElement rooted) (above ++ done) =
      es.foldl (pushElement false) above ++ done := by
  induction es generalizing above with
  | nil => rfl
  | cons e rest ih =>
    have hup : ".." ∉ pushElement false above e := fun hmem => h (mem_up_foldl hmem rest)
    have hstep : pushElement rooted (above ++ done) e = pushElement false above e ++ done := by
      revert hup
      unfold pushElement
      split
      · exact fun _ => rfl
      · split
        · cases above with
          | nil => exact fun hup => absurd List.mem_cons_self hup
          | cons last rest =>
            rw [List.cons_append]
            dsimp only
            split
            · exact fun hup => absurd List.mem_cons_self hup
            · exact fun _ => rfl
        · exact fun _ => rfl
    rw [List.foldl_cons, List.foldl_cons, hstep]
    exact ih h

theorem cleanElements_slash {a b : String} (ha : a ≠ "") (hb : Stays b) :
    cleanElements (a ++ "/" ++ b) = cleanElements a ++ cleanElements b := by
  obtain ⟨hrelative, hup⟩ := hb
  have habsolute : isAbsolute (a ++ "/" ++ b) = isAbsolute a := by
    rw [String.append_assoc, isAbsolute_append ha]
  rw [cleanElements, hrelative, List.mem_reverse] at hup
  have habove := foldl_above (isAbsolute a) ((elements a).foldl (pushElement (isAbsolute a)) []) hup
  rw [List.nil_append] at habove
  simp only [cleanElements, habsolute, hrelative, elements_slash, List.foldl_append, habove,
    List.reverse_append]

/-- **Joining puts elements behind each other**, if the second path stays where it begins. -/
theorem cleanElements_join (a : String) {b : String} (hb : Stays b) :
    isAbsolute (join [a, b]) = isAbsolute a ∧
      cleanElements (join [a, b]) = cleanElements a ++ cleanElements b := by
  by_cases ha : a = ""
  · by_cases hempty : b = ""
    · subst ha hempty
      exact ⟨rfl, rfl⟩
    · have hjoin : join [a, b] = clean b := by
        simp [join, ha, hempty]
      rw [hjoin, isAbsolute_clean, cleanElements_clean, ha, hb.1]
      exact ⟨rfl, rfl⟩
  · by_cases hempty : b = ""
    · have hjoin : join [a, b] = clean a := by
        simp [join, ha, hempty]
      rw [hjoin, isAbsolute_clean, cleanElements_clean, hempty]
      exact ⟨rfl, (List.append_nil _).symm⟩
    · have hjoin : join [a, b] = clean (a ++ "/" ++ b) := by
        simp [join, ha, hempty]
      rw [hjoin, isAbsolute_clean, cleanElements_clean, cleanElements_slash ha hb,
        String.append_assoc, isAbsolute_append ha]
      exact ⟨rfl, rfl⟩

theorem clean_join {a : String} (ha : a ≠ "") (b : String) : clean (join [a, b]) = join [a, b] := by
  by_cases hb : b = ""
  · have hjoin : join [a, b] = clean a := by
      simp [join, ha, hb]
    rw [hjoin, clean_clean]
  · have hjoin : join [a, b] = clean (a ++ "/" ++ b) := by
      simp [join, ha, hb]
    rw [hjoin, clean_clean]

/-- A path that steps out shows it at its beginning. -/
theorem clean_of_mem_up {path : String} (h : ".." ∈ cleanElements path) :
    clean path = ".." ∨ ∃ more, clean path = "../" ++ more := by
  obtain ⟨hrelative, more, hmore⟩ :=
    (cleanStack_cleanElements path).reverse_of_mem_up (List.mem_reverse.2 h)
  rw [List.reverse_reverse] at hmore
  rw [clean_eq_ofElements, hrelative, hmore, ofElements_cons (by decide)]
  cases more with
  | nil => exact .inl String.intercalate_singleton
  | cons e rest =>
    rw [String.intercalate_cons_cons]
    exact .inr ⟨_, rfl⟩

/-- A relative path that stays and has no elements means the place where it begins. -/
theorem Stays.clean_eq_dot_iff {path : String} (h : Stays path) :
    clean path = "." ↔ cleanElements path = [] := by
  constructor
  · intro hclean
    rw [← cleanElements_clean, hclean]
    rfl
  · intro hnone
    rw [clean_eq_ofElements, h.1, hnone]
    rfl

/-! ## Endings -/

section Ending

variable {ext : String} (hwhole : '/' ∉ ext.toList) (hlong : 2 < ext.length)

include hwhole hlong

theorem isName_append {e : String} (he : '/' ∉ e.toList) : IsName (e ++ ext) := by
  have hlength : 2 < (e ++ ext).length := by
    rw [String.length_append]
    omega
  refine ⟨?_, ?_, ?_, ?_⟩
  · intro h
    rw [h] at hlength
    exact absurd hlength (by decide)
  · intro h
    rw [h] at hlength
    exact absurd hlength (by decide)
  · intro h
    rw [h] at hlength
    exact absurd hlength (by decide)
  · rw [String.toList_append, List.mem_append]
    exact not_or.2 ⟨he, hwhole⟩

/-- An ending goes to the last element. -/
theorem clean_append_of_concat {path e : String} {front : List String}
    (h : cleanElements path = front ++ [e]) :
    CleanStack (isAbsolute path) (front ++ [e ++ ext]).reverse ∧
      clean path ++ ext = ofElements (isAbsolute path) (front ++ [e ++ ext]) := by
  have hclean := cleanStack_cleanElements path
  rw [h] at hclean
  have hends : CleanStack (isAbsolute path) (front ++ [e ++ ext]).reverse := by
    rw [List.reverse_append] at hclean ⊢
    exact .name (isName_append hwhole hlong (hclean.element List.mem_cons_self).2) hclean.tail
  refine ⟨hends, ?_⟩
  rw [clean_eq_ofElements, h]
  cases habsolute : isAbsolute path with
  | true => rw [ofElements_rooted, ofElements_rooted, String.append_assoc, intercalate_concat_append]
  | false =>
    rw [habsolute] at hclean hends
    rw [ofElements_relative (by simp) hclean, ofElements_relative (by simp) hends,
      intercalate_concat_append]

theorem cleanElements_append {path e : String} {front : List String}
    (h : cleanElements path = front ++ [e]) :
    isAbsolute (clean path ++ ext) = isAbsolute path ∧
      cleanElements (clean path ++ ext) = front ++ [e ++ ext] := by
  obtain ⟨hclean, heq⟩ := clean_append_of_concat hwhole hlong h
  rw [heq]
  exact ⟨isAbsolute_ofElements hclean, cleanElements_ofElements hclean⟩

/-- **A clean path with an ending is clean.** -/
theorem clean_append (path : String) : clean (clean path ++ ext) = clean path ++ ext := by
  rcases List.eq_nil_or_concat (cleanElements path) with hnone | ⟨front, e, hes⟩
  · have hname : ∀ e : String, '/' ∉ e.toList → CleanStack (isAbsolute path) [e ++ ext].reverse :=
      fun e he => .name (isName_append hwhole hlong he) .nil
    rw [clean_eq_ofElements path, hnone]
    cases habsolute : isAbsolute path with
    | true =>
      have heq : ofElements true [] ++ ext = ofElements true ["" ++ ext] := by
        rw [ofElements_rooted, ofElements_rooted, String.intercalate_singleton, String.append_assoc]
        rfl
      rw [heq]
      exact clean_ofElements (habsolute ▸ hname "" List.not_mem_nil)
    | false =>
      have hclean := habsolute ▸ hname "." (by decide)
      have heq : ofElements false [] ++ ext = ofElements false ["." ++ ext] := by
        rw [ofElements_relative (List.cons_ne_nil _ _) hclean, String.intercalate_singleton]
        rfl
      rw [heq]
      exact clean_ofElements hclean
  · obtain ⟨hclean, heq⟩ := clean_append_of_concat hwhole hlong
      (hes.trans List.concat_eq_append)
    rw [heq]
    exact clean_ofElements hclean

end Ending

end StackScript.Path
