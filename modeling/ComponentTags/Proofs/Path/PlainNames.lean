import ComponentTags.Path

/-!
Plain names. A path that a plain name is put at the end of has that name as its last step, whatever
the path is.
-/

namespace ComponentTags

theorem splitChars_ne_nil (separator : Char) (text : List Char) :
    splitChars separator text ≠ [] := by
  cases text with
  | nil => simp [splitChars]
  | cons ch rest =>
      rw [splitChars]
      split
      · simp
      · split <;> simp

theorem splitChars_append (separator : Char) (front back : List Char) :
    splitChars separator (front ++ separator :: back) =
      splitChars separator front ++ splitChars separator back := by
  induction front with
  | nil =>
      cases hback : splitChars separator back with
      | nil => exact absurd hback (splitChars_ne_nil separator back)
      | cons part parts => simp [splitChars, hback]
  | cons ch front ih =>
      rw [List.cons_append, splitChars, ih, splitChars]
      cases hfront : splitChars separator front with
      | nil => exact absurd hfront (splitChars_ne_nil separator front)
      | cons part parts => by_cases hch : ch = separator <;> simp [hch]

theorem splitChars_of_notMem {separator : Char} {text : List Char} (htext : separator ∉ text) :
    splitChars separator text = [text] := by
  induction text with
  | nil => rfl
  | cons ch rest ih =>
      obtain ⟨hne, hrest⟩ := not_or.1 (mt List.mem_cons.2 htext)
      rw [splitChars, ih hrest]
      simp [Ne.symm hne]

/-- A name that a path takes as one step of its own. -/
structure IsPlainName (name : String) : Prop where
  notMem : '/' ∉ name.toList
  ne_empty : name ≠ ""
  ne_here : name ≠ "."
  ne_parent : name ≠ ".."

namespace Path

variable {name : String}

theorem isAbsolute_of_isPlainName (hname : IsPlainName name) :
    (⟨name⟩ : Path).isAbsolute = false := by
  unfold isAbsolute
  cases htext : name.toList with
  | nil => rfl
  | cons ch rest =>
      have hne : ch ≠ '/' := by
        rintro rfl
        exact hname.notMem (by simp [htext])
      simp [hne]

theorem parts_eq_drop (path : Path) :
    ∃ n, path.parts = ((splitChars '/' path.text.toList).map String.ofList).drop n ∧ n ≤ 1 := by
  unfold parts
  split
  · exact ⟨1, rfl, Nat.le_refl 1⟩
  · exact ⟨0, by simp, Nat.zero_le 1⟩

theorem parts_ne_nil (path : Path) : path.parts ≠ [] := by
  unfold parts
  cases habsolute : path.isAbsolute with
  | false => simpa using splitChars_ne_nil '/' path.text.toList
  | true =>
      rw [isAbsolute] at habsolute
      cases htext : path.text.toList with
      | nil => simp [htext] at habsolute
      | cons ch rest =>
          obtain rfl : ch = '/' := by simpa [htext] using habsolute
          have hsplit : splitChars '/' ('/' :: rest) = [] :: splitChars '/' rest :=
            splitChars_append '/' [] rest
          rw [if_pos rfl, hsplit]
          simpa using splitChars_ne_nil '/' rest

theorem parts_of_text {path : Path} {text : List Char} (htext : path.text.toList = text) :
    path.parts =
      ((splitChars '/' text).map String.ofList).drop (if path.isAbsolute then 1 else 0) := by
  rw [parts, htext]
  cases path.isAbsolute <;> rfl

/-- A relative path that is no text has no part but an empty one. -/
theorem text_eq_empty_of_parts {path : Path} (habsolute : path.isAbsolute = false)
    (hparts : path.parts = [""]) : path.text = "" := by
  have hsplit : splitChars '/' path.text.toList = [[]] := by
    rw [parts, habsolute, if_neg Bool.false_ne_true] at hparts
    simpa using hparts
  cases htext : path.text.toList with
  | nil => exact String.toList_inj.1 htext
  | cons ch rest =>
      rw [htext, splitChars] at hsplit
      split at hsplit
      · next hrest => exact absurd hrest (splitChars_ne_nil '/' rest)
      · by_cases hch : ch = '/' <;> simp [hch] at hsplit

/-- A relative path comes behind the parts of a path, but for an empty last one, whose place it takes. -/
theorem exists_parts_join_of_relative {path other : Path} (hother : other.isAbsolute = false)
    (hne : path.text ≠ "") :
    (path.join other).isAbsolute = path.isAbsolute ∧ ∃ parts,
      (path.parts = parts ∨ path.parts = parts ++ [""]) ∧
        (path.join other).parts = parts ++ other.parts := by
  obtain ⟨front, hpath, hjoined⟩ : ∃ front,
      (path.text.toList = front ∨ path.text.toList = front ++ ['/']) ∧
        (path.join other).text.toList = front ++ '/' :: other.text.toList := by
    rw [join, hother, if_neg (by simpa using hne)]
    split
    · next hlast =>
        obtain ⟨front, hfront⟩ := List.getLast?_eq_some_iff.1 hlast
        exact ⟨front, .inr hfront, by simp [hfront]⟩
    · exact ⟨path.text.toList, .inl rfl, by simp⟩
  have habsolute : (path.join other).isAbsolute = path.isAbsolute := by
    rw [isAbsolute, isAbsolute, hjoined]
    cases front with
    | cons first front => rcases hpath with hpath | hpath <;> simp [hpath]
    | nil =>
        have hroot : path.text.toList = ['/'] :=
          hpath.resolve_left fun hnil => hne (String.toList_inj.1 hnil)
        simp [hroot]
  have hlength :
      (if path.isAbsolute then 1 else 0) ≤ ((splitChars '/' front).map String.ofList).length := by
    have hpos := List.length_pos_iff.2 (splitChars_ne_nil '/' front)
    rw [List.length_map]
    split <;> omega
  refine ⟨habsolute, ((splitChars '/' front).map String.ofList).drop
    (if path.isAbsolute then 1 else 0), ?_, ?_⟩
  · rcases hpath with hpath | hpath
    · exact .inl (parts_of_text hpath)
    · right
      rw [parts_of_text hpath, splitChars_append, List.map_append,
        List.drop_append_of_le_length hlength]
      rfl
  · have hrest : other.parts = (splitChars '/' other.text.toList).map String.ofList := by
      rw [parts, hother, if_neg Bool.false_ne_true]
    rw [parts_of_text hjoined, habsolute, splitChars_append, List.map_append,
      List.drop_append_of_le_length hlength, hrest]

theorem parts_of_isPlainName (hname : IsPlainName name) : (⟨name⟩ : Path).parts = [name] := by
  rw [parts, isAbsolute_of_isPlainName hname]
  simp [splitChars_of_notMem hname.notMem]

theorem exists_parts_join_of_ne {path : Path} (hname : IsPlainName name) (hne : path.text ≠ "") :
    (path / name).isAbsolute = path.isAbsolute ∧ ∃ parts,
      (path.parts = parts ∨ path.parts = parts ++ [""]) ∧ (path / name).parts = parts ++ [name] := by
  obtain ⟨habsolute, parts, hpath, hjoined⟩ :=
    exists_parts_join_of_relative (isAbsolute_of_isPlainName hname) hne
  rw [parts_of_isPlainName hname] at hjoined
  exact ⟨habsolute, parts, hpath, hjoined⟩

theorem join_of_empty {path : Path} (hname : IsPlainName name) (hempty : path.text = "") :
    path / name = ⟨name⟩ ∧ (⟨name⟩ : Path).parts = [name] := by
  refine ⟨?_, parts_of_isPlainName hname⟩
  change path.join ⟨name⟩ = _
  rw [join, hempty]
  simp

theorem exists_parts_join (path : Path) (hname : IsPlainName name) :
    ∃ parts, (path / name).parts = parts ++ [name] := by
  by_cases hempty : path.text = ""
  · obtain ⟨hjoin, hparts⟩ := join_of_empty hname hempty
    exact ⟨[], by rw [hjoin, hparts]; rfl⟩
  · obtain ⟨-, parts, -, hjoined⟩ := exists_parts_join_of_ne hname hempty
    exact ⟨parts, hjoined⟩

theorem exists_parts_withFileName (path : Path) (hname : IsPlainName name) :
    ∃ parts, (path.withFileName name).parts = parts ++ [name] := by
  unfold withFileName
  split
  · exact exists_parts_join _ hname
  · exact exists_parts_join _ hname

theorem fileName?_of_parts {path : Path} (hname : IsPlainName name) {parts : List String}
    (hparts : path.parts = parts ++ [name]) : path.fileName? = some name := by
  have hpart : PathStep.ofPart? name = some (.name name) := by
    simp [PathStep.ofPart?, hname.ne_empty, hname.ne_here, hname.ne_parent]
  have hlast : ∀ (steps : List PathStep) (parts : List String),
      (steps ++ (parts ++ [name]).filterMap PathStep.ofPart?).getLast? = some (.name name) := by
    intro steps parts
    simp [hpart]
  have hsteps : path.steps.getLast? = some (.name name) := by
    unfold steps
    split
    · rw [hparts]
      exact hlast [.root] parts
    · split
      · next rest hhere =>
          cases parts with
          | nil =>
              rw [hparts] at hhere
              exact absurd (List.cons.inj hhere).1 hname.ne_here
          | cons first parts =>
              have hrest : rest = parts ++ [name] :=
                (List.cons.inj (hhere.symm.trans hparts)).2
              rw [hrest]
              exact hlast [.here] parts
      · rw [hparts]
        exact hlast [] parts
  rw [fileName?, hsteps]

/-! ### Steps -/

/-- The steps that the first part of a path gives. -/
def firstSteps (isRooted : Bool) (first : String) : List PathStep :=
  if isRooted then .root :: (PathStep.ofPart? first).toList
  else if first = "." then [.here]
  else (PathStep.ofPart? first).toList

theorem steps_of_parts {path : Path} {first : String} {rest : List String}
    (hparts : path.parts = first :: rest) :
    path.steps = firstSteps path.isAbsolute first ++ rest.filterMap PathStep.ofPart? := by
  have hcons : ∀ lead : List PathStep, lead ++ (first :: rest).filterMap PathStep.ofPart? =
      (lead ++ (PathStep.ofPart? first).toList) ++ rest.filterMap PathStep.ofPart? := by
    intro lead
    cases hfirst : PathStep.ofPart? first <;> simp [hfirst]
  unfold steps firstSteps
  rw [hparts]
  split
  · exact hcons [.root]
  · split
    · next parts heq =>
        obtain ⟨rfl, rfl⟩ := List.cons.inj heq
        rfl
    · next hhere =>
        rw [if_neg fun hdot => hhere rest (by rw [hdot])]
        exact hcons []

/-- The steps of a relative path come behind those of a path that it is put behind. -/
theorem steps_join_of_relative {path other : Path} (hother : other.isAbsolute = false)
    (hne : path.text ≠ "") :
    (path.join other).steps = path.steps ++ other.parts.filterMap PathStep.ofPart? := by
  have hidle : PathStep.ofPart? "" = none := rfl
  obtain ⟨habsolute, parts, hpath, hjoined⟩ := exists_parts_join_of_relative hother hne
  cases parts with
  | nil =>
      have hparts : path.parts = [""] := hpath.resolve_left path.parts_ne_nil
      have hrooted : path.isAbsolute = true := by
        rw [← Bool.not_eq_false]
        exact fun hrelative => hne (text_eq_empty_of_parts hrelative hparts)
      rw [steps, steps, habsolute, hrooted, if_pos rfl, if_pos rfl, hjoined, hparts]
      simp [hidle]
  | cons first rest =>
      rw [steps_of_parts hjoined, habsolute]
      rcases hpath with hpath | hpath <;> rw [steps_of_parts hpath] <;> simp [hidle]

/-- **A plain name is one more step**, whatever the path that it is put behind. -/
theorem steps_join (path : Path) (hname : IsPlainName name) :
    (path / name).steps = path.steps ++ [.name name] := by
  have hstep : PathStep.ofPart? name = some (.name name) := by
    simp [PathStep.ofPart?, hname.ne_empty, hname.ne_here, hname.ne_parent]
  have hrelative := isAbsolute_of_isPlainName hname
  by_cases hempty : path.text = ""
  · obtain ⟨hjoin, hparts⟩ := join_of_empty hname hempty
    have hsteps : path.steps = [] := by
      cases path
      cases hempty
      decide
    rw [hjoin, hsteps, steps_of_parts hparts, hrelative]
    simp [firstSteps, hname.ne_here, hstep]
  · change (path.join ⟨name⟩).steps = _
    rw [steps_join_of_relative hrelative hempty, parts_of_isPlainName hname]
    simp [hstep]

end Path

end ComponentTags
