import ComponentTags.Proofs.Bytewise.Agreement
import ComponentTags.Proofs.Component.ModuleNames
import ComponentTags.Proofs.Plan.Directives
import ComponentTags.Proofs.Plan.Surveys

/-!
Planning byte by byte: where the imports of a module go, what a definition says, which identifier a
component gets, and one pass over the elements that notes all of it. No check fails in any of them.
-/

namespace ComponentTags.Bytewise

/-- Where the statement of a string is over, from behind the string on, if nothing else stands in it. -/
def directiveStop? (source : List Char) (pos : Nat) : Option Nat :=
  let stop := skipWhile isTab source pos
  match peek source stop with
  | none => some stop
  | some x =>
      if x = ';' then some (stop + 1)
      else if x = '\n' ∨ x = '\r' then some stop
      else none

/-- The end of the directives that begin at an offset. -/
def directives (source : Bytewise) (pos : Nat) : Checked Nat :=
  let here := skipWhile Ascii.isBlank source pos
  match peek source here with
  | none => pure pos
  | some quote =>
      if quote = '"' ∨ quote = '\'' then do
        let body ← slice source (here + 1) (utf8Length source)
        let inner := body.takeWhile fun ch => ch != quote && ch != '\n'
        if inner.length = body.length then
          pure pos
        else
          let closing := here + 1 + utf8Length inner
          let x ← item (signs source) closing
          if x = quote then
            match directiveStop? source (closing + 1) with
            | none => pure pos
            | some stop => source |>.directives stop
          else
            pure pos
      else
        pure pos
partial_fixpoint

/-- Where the imports of a module go. -/
def prologueEnd (source : List Char) : Checked Nat :=
  if ['#', '!'].isPrefixOf source then
    directives source (utf8Length (source.take (lengthPast ['\n'] source)))
  else
    directives source 0

/-- The text of an expression that is one plain string. -/
def plainString? (expression : String) : Checked (Option String) :=
  let text := trimChars expression.toList
  match text.head? with
  | none => pure none
  | some quote =>
      if !stringQuotes.contains quote || utf8Length text < 2 || text.getLast? != some quote then
        pure none
      else do
        let stop ← oneLess (utf8Length text)
        let inner ← slice text 1 stop
        if inner.contains quote || inner.contains '\\'
            || (quote = '\x60' && containsChars ['$', '\x7b'] inner) then
          pure none
        else
          pure (some (String.ofList inner))

/-- What the definition of an element says. -/
def reference (element : Element) (keyword : String) :
    Checked (Except DefinitionError Reference) :=
  let malformed (shown : String) : DefinitionError :=
    { tag := element.name, value := shown, problem := .malformed }
  let ofText (text : String) : Except DefinitionError Reference :=
    match Reference.ofDefinition? element.name text with
    | some reference => .ok reference
    | none => .error (malformed text)
  match element.attribute? keyword with
  | none => pure (.error { tag := element.name, value := "", problem := .missing })
  | some attr =>
      match attr.value with
      | none => pure (ofText "")
      | some (.literal text) => pure (ofText text)
      | some (.expression text) => do
          match ← plainString? text with
          | some text => pure (ofText text)
          | none => pure (.error (malformed ("\x7b" ++ text ++ "\x7d")))

/-- What a component is called, with the first eight digits of its digest. -/
def identity (naming : Naming) (reference : Reference) : Checked Identity := do
  let digest ← slice (Sha256.hex (Sha256.hash reference.digestInput)).toList 0 8
  let identifier := naming.start
    ++ identifierText (reference.tag ++ reference.space ++ reference.version)
    ++ "_" ++ String.ofList digest
  pure { identifier, path := naming.directory / (identifier ++ "." ++ naming.extension) }

/-- Notes one more element. A component is named when it is met first. -/
def note (setting : Setting) (survey : Survey) (element : Element) : Checked Survey :=
  match setting.registry.find? element.name with
  | none => pure survey
  | some rule => do
      match ← reference element rule.keyword with
      | .error error => pure (survey.addError setting element error)
      | .ok reference =>
          match survey.identifiers.lookup reference with
          | some identifier => pure (survey.addEdit element (.rename identifier))
          | none => do
              let identity ← identity setting.naming reference
              pure (survey.addComponent element reference identity)

/-- The findings of elements. -/
def plan (setting : Setting) (site : ImportSite) (elements : List Element) : Checked Findings := do
  let survey ← elements.foldlM (note setting) .blank
  pure (survey.findings site)

section Planning

variable {source rest : List Char} {ch : Char} {c : Cursor}

/-! ### Directives -/

theorem isUniform_isTab : IsUniform isTab :=
  isUniform_of_ascii (b := false) fun ch hch => by
    rw [isTab, Bool.or_eq_false_iff, decide_eq_false_iff_not, decide_eq_false_iff_not]
    exact ⟨ne_of_beyond hch rfl, ne_of_beyond hch rfl⟩

theorem item_offset (hin : c.IsIn source) (hrest : c.rest = ch :: rest) :
    item (signs source) c.offset = pure (lead ch) := by
  have hpeek := peek_cons hin hrest
  rw [peek] at hpeek
  rw [item, hpeek]

theorem head_dropWhile {p : Char → Bool} {text : List Char} (h : text.dropWhile p = ch :: rest) :
    p ch = false := by
  have hstops := List.head?_dropWhile_not p text
  rwa [h] at hstops

theorem directiveStop?_offset (hin : c.IsIn source) :
    directiveStop? source c.offset = (directiveEnd? c.rest).map fun n => (c.drop n).offset := by
  have hthere := hin.skipWhile isTab
  have hrest : c.rest.drop (c.rest.takeWhile isTab).length = (c.skipWhile isTab).rest :=
    (Cursor.rest_drop _ _).symm
  rw [directiveStop?, skipWhile_offset isUniform_isTab hin, directiveEnd?, hrest]
  cases hstop : (c.skipWhile isTab).rest with
  | nil =>
      rw [peek_end hthere hstop]
      rfl
  | cons x rest =>
      rw [peek_cons hthere hstop]
      dsimp only
      by_cases hsemicolon : x = ';'
      · subst hsemicolon
        rw [if_pos (lead_of_ascii rfl), ← offset_advance hstop rfl]
        exact congrArg (fun d : Cursor => some d.offset) (Cursor.drop_add c _ 1).symm
      · rw [if_neg (mt (lead_eq_iff rfl).1 hsemicolon)]
        by_cases hbreak : x = '\n' ∨ x = '\r'
        · rw [if_pos (hbreak.imp (lead_eq_iff rfl).2 (lead_eq_iff rfl).2)]
          rcases hbreak with rfl | rfl <;> rfl
        · rw [if_neg (mt (Or.imp (lead_eq_iff rfl).1 (lead_eq_iff rfl).1) hbreak)]
          split <;> simp_all

/-- One directive, or none. -/
theorem directives_step (hin : c.IsIn source) :
    directives source c.offset = match directiveLength? c.rest with
      | none => pure c.offset
      | some n => directives source (c.drop n).offset := by
  obtain ⟨here, hhere⟩ : ∃ d, d = c.skipWhile Ascii.isBlank := ⟨_, rfl⟩
  have hthere : here.IsIn source := hhere ▸ hin.skipWhile _
  have hafter : here.rest = c.rest.dropWhile Ascii.isBlank := by rw [hhere, rest_skipWhile]
  have hlength : directiveLength? c.rest =
      (directiveLength? here.rest).map ((c.rest.takeWhile Ascii.isBlank).length + ·) := by
    rw [hafter, ← directiveLength?_append (List.all_eq_true.1 List.all_takeWhile),
      List.takeWhile_append_dropWhile]
  rw [directives, skipWhile_offset isUniform_isBlank hin, ← hhere, hlength]
  cases hrest : here.rest with
  | nil =>
      rw [peek_end hthere hrest]
      rfl
  | cons quote body =>
      rw [peek_cons hthere hrest]
      dsimp only
      by_cases hquote : quote = '"' ∨ quote = '\''
      · have hascii : Ascii.isAscii quote = true := by rcases hquote with rfl | rfl <;> rfl
        have hnext := hthere.advance
        have hbody : here.advance.rest = body := by rw [Cursor.advance_of_rest hrest]
        obtain ⟨p, hp⟩ : ∃ p : Char → Bool, p = fun ch => ch != quote && ch != '\n' := ⟨_, rfl⟩
        have hinner : ∀ ch ∈ body.takeWhile p, (ch != quote && ch != '\n') = true := by
          subst hp
          exact List.all_eq_true.1 List.all_takeWhile
        have hsplit := List.takeWhile_append_dropWhile (p := p) (l := body)
        rw [lead_of_ascii hascii, if_pos hquote, ← offset_advance hrest hascii, slice_rest hnext,
          pure_bind, hbody, ← hp]
        generalize body.takeWhile p = inner at *
        cases hclosing : body.dropWhile p with
        | nil =>
            rw [hclosing] at hsplit
            have hno : directiveLength? (quote :: (inner ++ [])) = none :=
              directiveLength?_unclosed hquote hinner nofun nofun
            rw [hsplit] at hno
            rw [hno, if_pos (by rw [← hsplit, List.append_nil])]
            rfl
        | cons x rest =>
            have hstops : p x = false := head_dropWhile hclosing
            rw [hclosing] at hsplit
            -- the cursor at what ends the string
            have hend : (here.advance.past inner).rest = x :: rest :=
              Cursor.rest_past inner (hbody.trans hsplit.symm)
            have hendIn : (here.advance.past inner).IsIn source := hnext.drop _
            have hoffset : (here.advance.past inner).offset = here.advance.offset + utf8Length inner :=
              Cursor.offset_past inner (hbody.trans hsplit.symm)
            have hshort : inner.length ≠ body.length := by
              rw [← hsplit, List.length_append, List.length_cons]
              omega
            rw [if_neg hshort, ← hoffset, item_offset hendIn hend, pure_bind]
            by_cases hsame : x = quote
            · subst hsame
              have hbehind : (here.advance.past inner).advance.rest = rest := by
                rw [Cursor.advance_of_rest hend]
              have hplace : ∀ n, (here.advance.past inner).advance.drop n =
                  c.drop ((c.rest.takeWhile Ascii.isBlank).length + (inner.length + 2 + n)) := by
                intro n
                rw [show inner.length + 2 + n = 1 + inner.length + 1 + n by omega, Cursor.drop_add,
                  Cursor.drop_add, Cursor.drop_add, Cursor.drop_add, hhere]
                rfl
              rw [if_pos (lead_of_ascii hascii), ← offset_advance hend hascii,
                directiveStop?_offset hendIn.advance, hbehind, ← hsplit,
                directiveLength?_quoted hquote hinner]
              cases directiveEnd? rest with
              | none => rfl
              | some n => exact congrArg (fun d : Cursor => directives source d.offset) (hplace n)
            · rw [if_neg (mt (lead_eq_iff hascii).1 hsame), ← hsplit, directiveLength?_unclosed hquote hinner]
              · rfl
              · subst hp
                exact stopsAt_cons hstops
              · exact fun h => hsame (Option.some.inj h)
      · have hno : directiveLength? (quote :: body) = none :=
          directiveLength?_of_ne (head_dropWhile (hafter ▸ hrest)) (not_or.1 hquote) body
        rw [if_neg (by rwa [lead_eq_iff rfl, lead_eq_iff rfl]), hno]
        rfl

theorem directives_offset (hin : c.IsIn source) :
    directives source c.offset = pure (c.drop (directivesLength c.rest)).offset := by
  generalize htext : c.rest = text
  fun_induction directivesLength text generalizing c with
  | case1 text hlength =>
      rw [directives_step hin, htext, hlength]
      rfl
  | case2 text n hlength _ ih =>
      rw [directives_step hin, htext, hlength, Cursor.drop_add]
      exact ih (hin.drop n) (by rw [Cursor.rest_drop, htext])

theorem prologueEnd_eq (source : String) :
    prologueEnd source.toList = pure (importOffset source) := by
  have hin := Cursor.isIn_start source.toList
  have hoffset : ∀ n, ((Cursor.start source.toList).drop n).offset =
      utf8Length (source.toList.take n) := by
    intro n
    rw [Cursor.offset_drop]
    exact Nat.zero_add _
  have hplace : ∀ n, directives source.toList (utf8Length (source.toList.take n)) =
      pure (utf8Length (source.toList.take (n + directivesLength (source.toList.drop n)))) := by
    intro n
    rw [← hoffset, directives_offset (hin.drop n), ← Cursor.drop_add, hoffset, Cursor.rest_drop]
    rfl
  rw [prologueEnd, importOffset, shebangLength]
  split
  · exact hplace _
  · exact hplace 0

/-! ### Definitions -/

/-- A text behind its first character and up to its last one, both of which are of ASCII. -/
theorem slice_between {first last : Char} (hfirst : Ascii.isAscii first = true)
    (hlast : Ascii.isAscii last = true) (inner : List Char) :
    slice (first :: (inner ++ [last])) 1 (utf8Length (first :: (inner ++ [last])) - 1) =
      pure inner := by
  have hslice := @slice_covers [first] inner [last]
  have hstart : utf8Length [first] = 1 := utf8Size_of_ascii hfirst
  have hstop : utf8Length (first :: (inner ++ [last])) - 1 = 1 + utf8Length inner := by
    rw [utf8Length, utf8Length_append, utf8Length, utf8Length, utf8Size_of_ascii hfirst,
      utf8Size_of_ascii hlast]
    omega
  rw [hstart, ← hstop] at hslice
  exact hslice

theorem isAscii_of_mem_quotes (h : ch ∈ stringQuotes) : Ascii.isAscii ch = true := by
  simp only [stringQuotes, List.mem_cons, List.not_mem_nil, or_false] at h
  rcases h with rfl | rfl | rfl <;> rfl

theorem plainString?_eq (expression : String) :
    plainString? expression = pure (ComponentTags.plainString? expression) := by
  rw [plainString?, ComponentTags.plainString?]
  cases trimChars expression.toList with
  | nil => rfl
  | cons quote rest =>
      rw [List.head?_cons]
      dsimp only
      by_cases hquote : quote ∈ stringQuotes
      · have hascii := isAscii_of_mem_quotes hquote
        have hone := utf8Size_of_ascii hascii
        rcases List.eq_nil_or_concat rest with rfl | ⟨inner, last, rfl⟩
        · have hshort : utf8Length [quote] < 2 := by
            rw [utf8Length, utf8Length]
            omega
          rw [if_pos (by simp [hshort]), if_neg (by simp)]
        · have hpos := last.utf8Size_pos
          have hlong : ¬utf8Length (quote :: (inner ++ [last])) < 2 := by
            rw [utf8Length, utf8Length_append, utf8Length, utf8Length]
            omega
          have hlast : (quote :: (inner ++ [last])).getLast? = some last := by
            rw [← List.cons_append, List.getLast?_concat]
          rw [List.concat_eq_append, List.dropLast_concat]
          by_cases hsame : last = quote
          · subst hsame
            have hmem : ['"', '\'', '\x60'].contains last = true := List.contains_iff_mem.2 hquote
            rw [if_neg (by simp [hlong, hquote, hlast]), oneLess_of_pos (by omega), pure_bind,
              slice_between hascii hascii, pure_bind, hmem, List.getLast?_concat]
            cases inner.contains last <;> cases inner.contains '\\' <;>
              cases (decide (last = '\x60') && containsChars ['$', '\x7b'] inner) <;> simp
          · rw [if_pos (by simp [hsame, hlast]), if_neg (by simp [hsame])]
      · rw [if_pos (by simp [hquote]), if_neg (by rw [isPlain_iff]; exact fun h => hquote h.1)]

theorem reference_eq (element : Element) (keyword : String) :
    reference element keyword = pure (element.reference keyword) := by
  rw [reference, Element.reference]
  cases element.attribute? keyword with
  | none => rfl
  | some attr =>
      dsimp only
      cases attr.value with
      | none => cases hread : Reference.ofDefinition? element.name "" <;> simp [definitionText, hread]
      | some value =>
          cases value with
          | literal text =>
              cases hread : Reference.ofDefinition? element.name text <;> simp [definitionText, hread]
          | expression text =>
              dsimp only
              rw [plainString?_eq, pure_bind]
              cases hplain : ComponentTags.plainString? text with
              | none => simp [definitionText, hplain]
              | some text =>
                  cases hread : Reference.ofDefinition? element.name text <;>
                    simp [definitionText, hplain, hread]

/-! ### Identifiers -/

theorem utf8Length_hex (bytes : List UInt8) :
    utf8Length (Sha256.hex bytes).toList = 2 * bytes.length := by
  rw [Sha256.hex, String.toList_ofList]
  induction bytes with
  | nil => rfl
  | cons byte bytes ih =>
      have hdigit : ∀ n : Fin 16, (Nat.digitChar n).utf8Size = 1 := by decide
      have hbyte := byte.toNat_lt
      rw [List.flatMap_cons, utf8Length_append, ih, utf8Length, utf8Length, utf8Length,
        hdigit ⟨byte.toNat / 16, by omega⟩, hdigit ⟨byte.toNat % 16, by omega⟩, List.length_cons]
      omega

theorem identity_eq (naming : Naming) (reference : Reference) :
    identity naming reference = pure (naming.identity reference) := by
  have hdigest : slice (Sha256.hex (Sha256.hash reference.digestInput)).toList 0 8 =
      pure reference.digest.toList := by
    obtain ⟨bytes, hbytes⟩ : ∃ bytes, bytes = Sha256.hash reference.digestInput := ⟨_, rfl⟩
    have hlength : bytes.length = 32 := hbytes ▸ length_hash _
    have hsplit : (Sha256.hex bytes).toList =
        [] ++ ((Sha256.hex (bytes.take 4)).toList ++ (Sha256.hex (bytes.drop 4)).toList) := by
      rw [Sha256.hex, Sha256.hex, Sha256.hex, String.toList_ofList, String.toList_ofList,
        String.toList_ofList, List.nil_append, ← List.flatMap_append, List.take_append_drop]
    have hstop : 8 = utf8Length [] + utf8Length (Sha256.hex (bytes.take 4)).toList := by
      rw [utf8Length_hex, List.length_take, hlength]
      rfl
    rw [Reference.digest, ← hbytes, hsplit, hstop]
    exact slice_covers
  rw [identity, hdigest, pure_bind, String.ofList_toList]
  rfl

/-! ### Plans -/

theorem note_eq (setting : Setting) (survey : Survey) (element : Element) :
    note setting survey element = pure (survey.note setting element) := by
  rw [note, Survey.note, Setting.definition?]
  cases setting.registry.find? element.name with
  | none => rfl
  | some rule =>
      dsimp only
      rw [reference_eq, pure_bind, Option.map_some]
      cases element.reference rule.keyword with
      | error error => rfl
      | ok reference =>
          dsimp only
          rw [identity_eq, pure_bind, Survey.addComponent, Survey.identify]
          cases survey.identifiers.lookup reference <;> rfl

theorem plan_eq (setting : Setting) (site : ImportSite) (elements : List Element) :
    plan setting site elements = pure (setting.plan site elements).1 := by
  have hnotes : ∀ survey, elements.foldlM (note setting) survey =
      (pure (elements.foldl (Survey.note setting) survey) : Checked Survey) := by
    induction elements with
    | nil => exact fun _ => rfl
    | cons element elements ih =>
        intro survey
        rw [List.foldlM_cons, note_eq, pure_bind, ih, List.foldl_cons]
  rw [plan, hnotes, pure_bind, ← surveyed_eq, Setting.surveyed]

end Planning

end ComponentTags.Bytewise
