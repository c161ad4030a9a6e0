import Mathlib.Data.List.DropRight
import ComponentTags.Proofs.Path.PlainNames

/-!
Parents. A path is the text that its parts make, and its parent is a start of that text: it has all the
steps of the path but the last one.
-/

namespace ComponentTags

theorem splitChars_eq_splitOn (separator : Char) (text : List Char) :
    splitChars separator text = text.splitOn separator := by
  induction text with
  | nil => rfl
  | cons ch rest ih =>
      have hne : rest.splitOn separator ≠ [] := ih ▸ splitChars_ne_nil separator rest
      have hcons : (ch :: rest).splitOn separator =
          if ch == separator then [] :: rest.splitOn separator
          else (rest.splitOn separator).modifyHead (List.cons ch) :=
        List.splitOnP_cons_eq_if_modifyHead ch rest
      obtain ⟨part, parts, hparts⟩ := List.exists_cons_of_ne_nil hne
      rw [splitChars, ih, hcons, hparts]
      by_cases hch : ch = separator <;> simp [hch]

theorem notMem_of_mem_splitChars {separator : Char} {text part : List Char}
    (h : part ∈ splitChars separator text) : separator ∉ part := by
  induction text generalizing part with
  | nil =>
      rw [splitChars, List.mem_singleton] at h
      simp [h]
  | cons ch rest ih =>
      rw [splitChars] at h
      split at h
      · simp_all
      · next first parts hrest =>
          rw [hrest] at ih
          have hfirst := ih List.mem_cons_self
          split at h
          · rcases List.mem_cons.1 h with rfl | hmem
            · exact List.not_mem_nil
            · exact ih hmem
          · next hch =>
              rcases List.mem_cons.1 h with rfl | hmem
              · simp [Ne.symm hch, hfirst]
              · exact ih (List.mem_cons_of_mem _ hmem)

/-- A part of a path that is no step: nothing between two separators, or a dot. -/
def isIdlePart (part : String) : Bool :=
  part = "" || part = "."

namespace Path

variable {path parent : Path} {name : String} {parts : List String}

/-- The parts of a path that are steps. -/
def names (path : Path) : List String :=
  path.parts.filter fun part => !isIdlePart part

/-- The path with those parts, from the root or not. -/
def ofParts (isRooted : Bool) (parts : List String) : Path :=
  ⟨(if isRooted then "/" else "") ++ joinTexts "/" parts⟩

theorem joinTexts_toList (parts : List String) :
    (joinTexts "/" parts).toList = ['/'].intercalate (parts.map String.toList) := by
  simp [joinTexts, String.toList_intercalate]

theorem map_toList_map_ofList (parts : List (List Char)) :
    (parts.map String.ofList).map String.toList = parts := by
  simp [Function.comp_def]

/-- A path is made of its parts. -/
theorem ofParts_parts (path : Path) : ofParts path.isAbsolute path.parts = path := by
  have htext : ((if path.isAbsolute then "/" else "") ++ joinTexts "/" path.parts).toList =
      path.text.toList := by
    rw [String.toList_append, joinTexts_toList, parts]
    cases habsolute : path.isAbsolute with
    | false =>
        rw [if_neg (by simp), if_neg (by simp), map_toList_map_ofList, splitChars_eq_splitOn,
          List.intercalate_splitOn]
        rfl
    | true =>
        obtain ⟨rest, hrest⟩ : ∃ rest, path.text.toList = '/' :: rest := by
          rw [isAbsolute] at habsolute
          cases htext : path.text.toList with
          | nil => simp [htext] at habsolute
          | cons ch rest => exact ⟨rest, by simp_all⟩
        have hsplit : splitChars '/' ('/' :: rest) = [] :: splitChars '/' rest :=
          splitChars_append '/' [] rest
        rw [if_pos rfl, if_pos rfl, hrest, hsplit, List.map_cons, List.drop_one, List.tail_cons,
          map_toList_map_ofList, splitChars_eq_splitOn, List.intercalate_splitOn]
        rfl
  cases path
  exact congrArg Path.mk (String.toList_inj.1 htext)

theorem notMem_of_mem_parts {part : String} (h : part ∈ path.parts) : '/' ∉ part.toList := by
  obtain ⟨n, hparts, -⟩ := path.parts_eq_drop
  rw [hparts] at h
  obtain ⟨chars, hchars, rfl⟩ := List.mem_map.1 (List.mem_of_mem_drop h)
  rw [String.toList_ofList]
  exact notMem_of_mem_splitChars hchars

theorem splitChars_joinTexts (hne : parts ≠ []) (hparts : ∀ part ∈ parts, '/' ∉ part.toList) :
    (splitChars '/' (joinTexts "/" parts).toList).map String.ofList = parts := by
  rw [splitChars_eq_splitOn, joinTexts_toList, List.splitOn_intercalate]
  · simp [Function.comp_def]
  · intro chars hchars
    obtain ⟨part, hpart, rfl⟩ := List.mem_map.1 hchars
    exact hparts part hpart
  · simpa using hne

theorem parts_ofParts_rooted (hne : parts ≠ []) (hparts : ∀ part ∈ parts, '/' ∉ part.toList) :
    (ofParts true parts).isAbsolute = true ∧ (ofParts true parts).parts = parts := by
  have htext : (ofParts true parts).text.toList = '/' :: (joinTexts "/" parts).toList := by
    simp [ofParts]
  have habsolute : (ofParts true parts).isAbsolute = true := by
    rw [isAbsolute, htext]
    rfl
  have hsplit : splitChars '/' ('/' :: (joinTexts "/" parts).toList) =
      [] :: splitChars '/' (joinTexts "/" parts).toList :=
    splitChars_append '/' [] _
  refine ⟨habsolute, ?_⟩
  rw [Path.parts, if_pos habsolute, htext, hsplit]
  exact splitChars_joinTexts hne hparts

theorem parts_ofParts_relative (hne : parts ≠ []) (hparts : ∀ part ∈ parts, '/' ∉ part.toList)
    (hfirst : parts.head? ≠ some "") :
    (ofParts false parts).isAbsolute = false ∧ (ofParts false parts).parts = parts := by
  have htext : (ofParts false parts).text = joinTexts "/" parts := by
    simp [ofParts]
  have hrelative : (ofParts false parts).isAbsolute = false := by
    obtain ⟨first, rest, rfl⟩ := List.exists_cons_of_ne_nil hne
    have hfirst' : first.toList ≠ [] := by simpa using hfirst
    obtain ⟨ch, chars, hchars⟩ := List.exists_cons_of_ne_nil hfirst'
    have hch : ch ≠ '/' := by
      rintro rfl
      exact hparts first List.mem_cons_self (by simp [hchars])
    have hhead : (joinTexts "/" (first :: rest)).toList.head? = some ch := by
      rw [joinTexts_toList, List.map_cons, hchars]
      cases rest <;> simp [List.intercalate]
    rw [isAbsolute, htext, hhead]
    simpa using hch
  refine ⟨hrelative, ?_⟩
  rw [Path.parts, hrelative, if_neg (by simp), htext]
  exact splitChars_joinTexts hne hparts

theorem text_ofParts_append (isRooted : Bool) {front back : List String} (hfront : front ≠ [])
    (hback : back ≠ []) :
    (ofParts isRooted (front ++ back)).text =
      (ofParts isRooted front).text ++ ("/" ++ joinTexts "/" back) := by
  simp only [ofParts, joinTexts]
  rw [String.intercalate_append_of_ne_nil hfront hback]
  simp only [String.append_assoc]

theorem getLast?_ofParts {isRooted : Bool} (hname : name ≠ "") (hsep : '/' ∉ name.toList) :
    (ofParts isRooted (parts ++ [name])).text.toList.getLast? ≠ some '/' := by
  have hend : ∃ front, (ofParts isRooted (parts ++ [name])).text.toList = front ++ name.toList := by
    by_cases hparts : parts = []
    · subst hparts
      exact ⟨_, by simp [ofParts, joinTexts]; rfl⟩
    · refine ⟨(ofParts isRooted parts).text.toList ++ ['/'], ?_⟩
      rw [text_ofParts_append _ hparts (by simp)]
      simp [joinTexts]
  obtain ⟨front, hfront⟩ := hend
  obtain ⟨last, hlast⟩ := Option.ne_none_iff_exists'.1 (show name.toList.getLast? ≠ none by simpa using hname)
  rw [hfront, List.getLast?_append, hlast]
  intro heq
  obtain rfl : last = '/' := Option.some.inj heq
  exact hsep (List.mem_of_getLast? hlast)

/-! ### The parent of a path -/

/-- A path that leads to where another one leads but for its last step. -/
structure IsParent (parent path : Path) : Prop where
  isAbsolute : parent.isAbsolute = path.isAbsolute
  names : parent.names = path.names.dropLast
  names_ne : path.names ≠ []
  text : ∃ rest, path.text = parent.text ++ rest
  trimmed : parent.text.toList.getLast? ≠ some '/' ∨ parent.text = "/"

theorem withoutTrailing_eq (path : Path) (parts : List String) :
    path.withoutTrailing parts =
      if parts.rdropWhile isIdlePart = [] ∧ path.isAbsolute = false ∧
          path.parts.head? = some "." then ["."]
      else parts.rdropWhile isIdlePart := by
  have htrimmed : (parts.reverse.dropWhile fun part => part = "" || part = ".").reverse =
      parts.rdropWhile isIdlePart := rfl
  rw [withoutTrailing, htrimmed]
  simp [and_assoc]

theorem filter_rdropWhile (parts : List String) :
    (parts.rdropWhile isIdlePart).filter (fun part => !isIdlePart part) =
      parts.filter fun part => !isIdlePart part := by
  have hidle : (parts.rtakeWhile isIdlePart).filter (fun part => !isIdlePart part) = [] := by
    rw [List.filter_eq_nil_iff]
    intro part hpart
    simp [List.mem_rtakeWhile_imp hpart]
  conv_rhs => rw [← List.rdropWhile_append_rtakeWhile (p := isIdlePart) (l := parts),
    List.filter_append, hidle, List.append_nil]

/-- The first part of a relative path is empty only if nothing follows it. -/
theorem head?_parts_ne_empty {front back : List String} (hrelative : path.isAbsolute = false)
    (hparts : path.parts = front ++ back) (hfront : front ≠ []) (hback : back ≠ []) :
    front.head? ≠ some "" := by
  intro hhead
  obtain ⟨rest, rfl⟩ := List.head?_eq_some_iff.1 hhead
  have htext := congrArg (fun path => path.text.toList) path.ofParts_parts
  rw [hrelative, hparts] at htext
  have hfirst : (ofParts false ("" :: rest ++ back)).text.toList.head? = some '/' := by
    rw [ofParts, String.toList_append, joinTexts_toList, List.cons_append]
    obtain ⟨next, others, hnext⟩ :=
      List.exists_cons_of_ne_nil (List.append_ne_nil_of_right_ne_nil rest hback)
    rw [hnext]
    simp [List.intercalate]
  rw [isAbsolute, ← htext, hfirst] at hrelative
  simp at hrelative

theorem names_eq_nil_iff : path.names = [] ↔ ∀ part ∈ path.parts, isIdlePart part = true := by
  simp [names]

/-- The steps before the last one lead to the parent. -/
theorem isParent_ofParts {front : List String} (back : List String) (last : String) (hfront : front ≠ [])
    (hparts : path.parts = front ++ back)
    (hback : back.filter (fun part => !isIdlePart part) = [last]) {final : String}
    (hfinal : front.getLast? = some final) (hfinalNe : final ≠ "") :
    IsParent (ofParts path.isAbsolute front) path := by
  have hbackNe : back ≠ [] := by
    rintro rfl
    cases hback
  have hsep : ∀ part ∈ front, '/' ∉ part.toList := by
    intro part hpart
    have hmem : part ∈ path.parts := by
      rw [hparts]
      exact List.mem_append_left _ hpart
    exact notMem_of_mem_parts hmem
  have hmade : (ofParts path.isAbsolute front).isAbsolute = path.isAbsolute ∧
      (ofParts path.isAbsolute front).parts = front := by
    cases hrooted : path.isAbsolute with
    | true => exact parts_ofParts_rooted hfront hsep
    | false =>
        exact parts_ofParts_relative hfront hsep
          (head?_parts_ne_empty hrooted hparts hfront hbackNe)
  have hnames : path.names =
      front.filter (fun part => !isIdlePart part) ++ [last] := by
    rw [names, hparts, List.filter_append, hback]
  refine ⟨hmade.1, ?_, by simp [hnames], ⟨"/" ++ joinTexts "/" back, ?_⟩, .inl ?_⟩
  · rw [hnames, List.dropLast_concat, names, hmade.2]
  · rw [← text_ofParts_append _ hfront hbackNe, ← hparts, ofParts_parts]
  · obtain ⟨rest, rfl⟩ := List.getLast?_eq_some_iff.1 hfinal
    exact getLast?_ofParts hfinalNe (hsep final (by simp))

theorem ofPart?_eq_none_iff {part : String} :
    PathStep.ofPart? part = none ↔ isIdlePart part = true := by
  unfold PathStep.ofPart? isIdlePart
  split
  · next hidle => simpa using hidle
  · next hidle => split <;> simpa using hidle

theorem filterMap_ofPart?_eq_nil {parts : List String}
    (h : ∀ part ∈ parts, isIdlePart part = true) : parts.filterMap PathStep.ofPart? = [] :=
  List.filterMap_eq_nil_iff.2 fun part hpart => ofPart?_eq_none_iff.2 (h part hpart)

/-- A path without steps ends at the root, where it starts, or nowhere. -/
theorem getLast?_steps_of_names_eq_nil (h : path.names = []) :
    path.steps.getLast? = none ∨ path.steps.getLast? = some .root ∨
      path.steps.getLast? = some .here := by
  rw [names_eq_nil_iff] at h
  unfold steps
  split
  · rw [filterMap_ofPart?_eq_nil h]
    exact .inr (.inl rfl)
  · split
    · next parts hparts =>
        rw [hparts] at h
        rw [filterMap_ofPart?_eq_nil fun part hpart => h part (List.mem_cons_of_mem _ hpart)]
        exact .inr (.inr rfl)
    · rw [filterMap_ofPart?_eq_nil h]
      exact .inl rfl

/-- The parts of a path with steps: those before the last one, the last one, and idle ones. -/
theorem exists_parts_of_names_ne_nil (h : path.names ≠ []) :
    ∃ front last back, path.parts = front ++ [last] ++ back ∧ isIdlePart last = false ∧
      path.parts.rdropWhile isIdlePart = front ++ [last] ∧
      back.filter (fun part => !isIdlePart part) = [] := by
  have hne : path.parts.rdropWhile isIdlePart ≠ [] := by
    rw [Ne, List.rdropWhile_eq_nil_iff, ← names_eq_nil_iff]
    exact h
  obtain ⟨front, last, hfront⟩ : ∃ front last,
      path.parts.rdropWhile isIdlePart = front ++ [last] :=
    ⟨_, _, (List.dropLast_append_getLast hne).symm⟩
  refine ⟨front, last, path.parts.rtakeWhile isIdlePart, ?_, ?_, hfront, ?_⟩
  · rw [← hfront, List.rdropWhile_append_rtakeWhile]
  · have hlast := List.rdropWhile_last_not isIdlePart path.parts hne
    simpa [hfront] using hlast
  · rw [List.filter_eq_nil_iff]
    intro part hpart
    simp [List.mem_rtakeWhile_imp hpart]

/-- The root is the parent of what has one step from it. -/
theorem isParent_root (hrooted : path.isAbsolute = true) {last : String}
    (hnames : path.names = [last]) : IsParent (ofParts true []) path := by
  refine ⟨by rw [hrooted]; decide, ?_, by simp [hnames], ?_, .inr (by decide)⟩
  · rw [hnames, List.dropLast_singleton]
    decide
  · have htext := congrArg Path.text path.ofParts_parts
    rw [hrooted] at htext
    exact ⟨joinTexts "/" path.parts, htext.symm.trans (by simp [ofParts, joinTexts])⟩

/-- **What the parent of a path is.** It is empty, or leads to where the path leads but for one step. -/
theorem parent_cases (h : path.parent? = some parent) :
    parent.text = "" ∨ IsParent parent path := by
  by_cases hnone : path.names = []
  · refine .inl ?_
    unfold parent? at h
    rcases getLast?_steps_of_names_eq_nil hnone with hstep | hstep | hstep
    · rw [hstep] at h
      cases h
    · rw [hstep] at h
      cases h
    · rw [hstep] at h
      rw [← Option.some.inj h]
  obtain ⟨front, last, back, hparts, hlast, hmade, hback⟩ := exists_parts_of_names_ne_nil hnone
  have hparent : parent.text = "" ∨
      parent = ofParts path.isAbsolute (path.withoutTrailing front) := by
    unfold parent? at h
    split at h
    · cases h
    · cases h
    · exact .inl (by rw [← Option.some.inj h])
    · rw [withoutTrailing_eq path path.parts, hmade, if_neg (by simp), List.dropLast_concat] at h
      exact .inr (Option.some.inj h).symm
  rcases hparent with hempty | rfl
  · exact .inl hempty
  have hfilter : ∀ idle : List String, idle.filter (fun part => !isIdlePart part) = [] →
      (idle ++ [last] ++ back).filter (fun part => !isIdlePart part) = [last] := by
    intro idle hidle
    simp [List.filter_append, hidle, hback, hlast]
  rw [withoutTrailing_eq]
  by_cases hfront : front.rdropWhile isIdlePart = []
  · have hidle : front.filter (fun part => !isIdlePart part) = [] := by
      rw [← filter_rdropWhile, hfront]
      rfl
    rw [hfront]
    cases hrooted : path.isAbsolute with
    | true =>
        refine .inr ?_
        rw [if_neg (by simp)]
        exact isParent_root hrooted (by rw [names, hparts, hfilter front hidle])
    | false =>
        split
        · next hhere =>
            obtain ⟨rest, hrest⟩ := List.head?_eq_some_iff.1 hhere.2.2
            refine .inr ?_
            rw [← hrooted]
            refine isParent_ofParts _ last (by simp) hrest ?_ rfl (by simp)
            have hall := hfilter front hidle
            rw [← hparts, hrest] at hall
            simpa [isIdlePart] using hall
        · exact .inl (by simp [ofParts, joinTexts])
  · rw [if_neg (by simp [hfront])]
    refine .inr (isParent_ofParts (front.rtakeWhile isIdlePart ++ [last] ++ back) last hfront
      ?_ (hfilter _ ?_) (List.getLast?_eq_some_getLast hfront) ?_)
    · rw [hparts, ← List.append_assoc, ← List.append_assoc, List.rdropWhile_append_rtakeWhile]
    · rw [List.filter_eq_nil_iff]
      intro part hpart
      simp [List.mem_rtakeWhile_imp hpart]
    · intro hempty
      refine List.rdropWhile_last_not isIdlePart front hfront ?_
      rw [hempty]
      rfl

/-! ### A name in a folder -/

/-- A path that ends with a plain name. -/
def EndsPlain (path : Path) : Prop :=
  ∃ front last, path.parts = front ++ [last] ∧ IsPlainName last

theorem isIdlePart_of_isPlainName (h : IsPlainName name) : isIdlePart name = false := by
  simp [isIdlePart, h.ne_empty, h.ne_here]

theorem endsPlain_join (path : Path) (hname : IsPlainName name) : (path / name).EndsPlain := by
  obtain ⟨parts, hparts⟩ := path.exists_parts_join hname
  exact ⟨parts, name, hparts, hname⟩

namespace EndsPlain

variable {folder : Path}

theorem getLast?_text (h : folder.EndsPlain) : folder.text.toList.getLast? ≠ some '/' := by
  obtain ⟨front, last, hparts, hlast⟩ := h
  rw [← folder.ofParts_parts, hparts]
  exact getLast?_ofParts hlast.ne_empty hlast.notMem

theorem text_ne (h : folder.EndsPlain) : folder.text ≠ "" := by
  obtain ⟨front, last, hparts, hlast⟩ := h
  intro hempty
  obtain ⟨n, heq, -⟩ := folder.parts_eq_drop
  have hmem : last ∈ ((splitChars '/' folder.text.toList).map String.ofList).drop n := by
    simp [← heq, hparts]
  have hall := List.mem_of_mem_drop hmem
  rw [hempty] at hall
  exact hlast.ne_empty (by simpa [splitChars] using hall)

theorem text_join (h : folder.EndsPlain) (hname : IsPlainName name) :
    (folder / name).text = folder.text ++ "/" ++ name := by
  change (folder.join ⟨name⟩).text = _
  rw [join, isAbsolute_of_isPlainName hname, if_neg (by simpa using h.text_ne),
    if_neg h.getLast?_text]

theorem join_eq (h : folder.EndsPlain) (hname : IsPlainName name) :
    folder / name = ofParts folder.isAbsolute (folder.parts ++ [name]) := by
  have hne : folder.parts ≠ [] := by
    obtain ⟨front, last, hparts, -⟩ := h
    simp [hparts]
  have htext := text_ofParts_append folder.isAbsolute hne (List.cons_ne_nil name [])
  rw [folder.ofParts_parts] at htext
  refine congrArg Path.mk ((h.text_join hname).trans (.trans ?_ htext.symm))
  simp [joinTexts, String.append_assoc]

theorem isAbsolute_join (h : folder.EndsPlain) (hname : IsPlainName name) :
    (folder / name).isAbsolute = folder.isAbsolute ∧
      (folder / name).parts = folder.parts ++ [name] := by
  have hsep : ∀ part ∈ folder.parts ++ [name], '/' ∉ part.toList := by
    intro part hpart
    rcases List.mem_append.1 hpart with hmem | hmem
    · exact notMem_of_mem_parts hmem
    · rw [List.mem_singleton.1 hmem]
      exact hname.notMem
  rw [h.join_eq hname]
  cases hrooted : folder.isAbsolute with
  | true => exact parts_ofParts_rooted (by simp) hsep
  | false =>
      refine parts_ofParts_relative (by simp) hsep ?_
      obtain ⟨front, last, hparts, hlast⟩ := h
      rw [hparts]
      cases front with
      | nil => simpa using hlast.ne_empty
      | cons first front =>
          have hfirst : (first :: front).head? ≠ some "" :=
            head?_parts_ne_empty hrooted hparts (by simp) (by simp)
          simpa using hfirst

theorem parent?_join (h : folder.EndsPlain) (hname : IsPlainName name) :
    (folder / name).parent? = some folder := by
  obtain ⟨hrooted, hparts⟩ := h.isAbsolute_join hname
  have hstep : (folder / name).steps.getLast? = some (.name name) := by
    have hfile := fileName?_of_parts hname hparts
    unfold fileName? at hfile
    split at hfile
    · next text hlast => rw [hlast, Option.some.inj hfile]
    · cases hfile
  have htrim : ∀ {front : List String} {last : String}, IsPlainName last →
      (folder / name).withoutTrailing (front ++ [last]) = front ++ [last] := by
    intro front last hlast
    rw [withoutTrailing_eq, List.rdropWhile_concat_neg _ _ _
      (by simp [isIdlePart_of_isPlainName hlast]), if_neg (by simp)]
  obtain ⟨front, last, hfolder, hlast⟩ := h
  unfold parent?
  rw [hstep, hparts]
  dsimp only
  rw [htrim hname, List.dropLast_concat, hfolder, htrim hlast, hrooted, ← hfolder]
  exact congrArg some folder.ofParts_parts

end EndsPlain

end Path

end ComponentTags
