import ComponentTags.Proofs.Plan.Directives
import ComponentTags.Proofs.Plan.Rewriting
import Mathlib.Data.List.Basic

/-!
Imports behind directives. White space and comments may stand anywhere in the prologue of a script;
the place of the imports is behind all of its directives exactly if none of them has a comment or
foreign white space before it or in the rest of its statement.
-/

namespace ComponentTags

/-! ### Prologues -/

/-- A character that ends a line of a script. -/
def isLineBreak (ch : Char) : Bool :=
  ['\n', '\r', '\u2028', '\u2029'].contains ch

/-- A character of white space that does not end a line. -/
def isLineSpace (ch : Char) : Bool :=
  ['\t', '\x0b', '\x0c', ' ', '\u00a0', '\u1680', '\u202f', '\u205f', '\u3000', '\ufeff'].contains ch
    || ('\u2000' ≤ ch && ch ≤ '\u200a')

/-- White space or a comment between two statements. -/
inductive Interlude where
  | space (run : Run fun ch => isLineSpace ch || isLineBreak ch)
  | line (text : Run (!isLineBreak ·)) (ending : Char) (isBreak : isLineBreak ending = true)
  | block (text : List Char) (noEnd : ¬['*', '/'] <:+: text)

/-- White space or a comment in the line of a statement. -/
inductive LineInterlude where
  | space (run : Run isLineSpace)
  | block (text : Run (!isLineBreak ·)) (noEnd : ¬['*', '/'] <:+: text.chars)

/-- What ends a statement. A comment may stand before the line break. -/
inductive StatementEnd where
  | semicolon
  | lineBreak (comment : Option (Run (!isLineBreak ·))) (ending : Char)
      (isBreak : isLineBreak ending = true)

/-- A quoted string that is a statement of its own, with what stands before it and behind it. -/
structure Directive where
  lead : List Interlude
  quote : Quote
  value : Run (isStringChar quote)
  behind : List LineInterlude
  ending : StatementEnd

structure Shebang where
  text : Run (!isLineBreak ·)
  carriageReturn : Bool

/-- The front of a script. -/
structure Prologue where
  shebang : Option Shebang
  directives : List Directive

/-! #### Texts -/

def Interlude.chars : Interlude → List Char
  | space run => run.chars
  | line text ending _ => '/' :: '/' :: (text.chars ++ [ending])
  | block text _ => '/' :: '*' :: (text ++ ['*', '/'])

def LineInterlude.chars : LineInterlude → List Char
  | space run => run.chars
  | block text _ => '/' :: '*' :: (text.chars ++ ['*', '/'])

/-- A comment up to the end of a line. -/
def lineCommentChars : Option (Run (!isLineBreak ·)) → List Char
  | none => []
  | some text => '/' :: '/' :: text.chars

namespace StatementEnd

def chars : StatementEnd → List Char
  | semicolon => [';']
  | lineBreak comment ending _ => lineCommentChars comment ++ [ending]

/-- Whether nothing stands before a line break, which is a line feed or a carriage return. -/
def IsPlain : StatementEnd → Prop
  | semicolon => True
  | lineBreak comment ending _ => comment = none ∧ (ending = '\n' ∨ ending = '\r')

end StatementEnd

namespace Directive

variable (directive : Directive)

def leadChars : List Char :=
  directive.lead.flatMap Interlude.chars

def behindChars : List Char :=
  directive.behind.flatMap LineInterlude.chars

def stringChars : List Char :=
  directive.quote.around directive.value.chars

def chars : List Char :=
  directive.leadChars
    ++ (directive.stringChars ++ (directive.behindChars ++ directive.ending.chars))

/-- The text up to the end of the directive, to which a semicolon belongs and a line break does not. -/
def charsToEnd : List Char :=
  directive.leadChars ++ (directive.stringChars ++
    match directive.ending with
    | .semicolon => directive.behindChars ++ [';']
    | .lineBreak _ _ _ => [])

/-- Only ASCII blanks stand before the directive, and only spaces and tabs behind it in its line. -/
structure IsPlain : Prop where
  lead : ∀ ch ∈ directive.leadChars, Ascii.isBlank ch = true
  behind : ∀ ch ∈ directive.behindChars, isTab ch = true
  ending : directive.ending.IsPlain

end Directive

def Shebang.chars (shebang : Shebang) : List Char :=
  '#' :: '!' :: (shebang.text.chars ++ (if shebang.carriageReturn then ['\r', '\n'] else ['\n']))

def directivesChars (directives : List Directive) : List Char :=
  directives.flatMap Directive.chars

/-- The text up to the end of the last directive. -/
def charsToLastEnd : List Directive → List Char
  | [] => []
  | [directive] => directive.charsToEnd
  | directive :: directives => directive.chars ++ charsToLastEnd directives

namespace Prologue

variable (prologue : Prologue)

def shebangChars : List Char :=
  (prologue.shebang.map Shebang.chars).getD []

def chars : List Char :=
  prologue.shebangChars ++ directivesChars prologue.directives

def charsToEnd : List Char :=
  prologue.shebangChars ++ charsToLastEnd prologue.directives

/-- A script with that prologue. -/
def script (rest : List Char) : String :=
  String.ofList (prologue.chars ++ rest)

end Prologue

/-! ### What is read of a prologue -/

section Readings

variable {text before rest more : List Char} {ch : Char} {directive : Directive}
  {directives : List Directive} {prologue : Prologue}

/-- Of texts in one class and texts that begin with a slash: what the first of them begin with. -/
theorem head_dropWhile_flatten {p q : Char → Bool} (hslash : p '/' = false) {texts : List (List Char)}
    (h : ∀ text ∈ texts, (∀ ch ∈ text, q ch = true) ∨ text.head? = some '/') :
    ∀ ch ∈ (texts.flatten.dropWhile p).head?, ch = '/' ∨ q ch = true := by
  induction texts with
  | nil => nofun
  | cons text texts ih =>
      obtain ⟨hfirst, hlater⟩ := List.forall_mem_cons.1 h
      rw [List.flatten_cons, List.dropWhile_append]
      split
      · exact ih hlater
      · next hsome =>
          intro ch hch
          rw [List.head?_append_of_ne_nil _ (by simpa using hsome)] at hch
          rcases hfirst with hall | hhead
          · exact .inr (hall ch ((List.dropWhile_suffix _).mem (List.mem_of_head? hch)))
          · obtain ⟨others, rfl⟩ := List.head?_eq_some_iff.1 hhead
            rw [List.dropWhile_cons_of_neg (by simp [hslash])] at hch
            exact .inl (Option.some.inj hch).symm

theorem head_dropWhile_lead {p : Char → Bool} (hslash : p '/' = false) (directive : Directive) :
    ∀ ch ∈ (directive.leadChars.dropWhile p).head?,
      ch = '/' ∨ (isLineSpace ch || isLineBreak ch) = true := by
  refine head_dropWhile_flatten hslash ?_
  rw [List.forall_mem_map]
  rintro (run | text | text) -
  · exact .inl run.all
  · exact .inr rfl
  · exact .inr rfl

theorem head_dropWhile_behind {p : Char → Bool} (hslash : p '/' = false) (directive : Directive) :
    ∀ ch ∈ (directive.behindChars.dropWhile p).head?, ch = '/' ∨ isLineSpace ch = true := by
  refine head_dropWhile_flatten hslash ?_
  rw [List.forall_mem_map]
  rintro (run | text) -
  · exact .inl run.all
  · exact .inr rfl

/-- A text with a character out of a class: the first such character. -/
theorem exists_first {p : Char → Bool} (h : ¬∀ ch ∈ text, p ch = true) :
    ∃ front ch back, text = front ++ ch :: back ∧ (∀ ch ∈ front, p ch = true) ∧ p ch = false ∧
      (text.dropWhile p).head? = some ch := by
  have hsplit := List.takeWhile_append_dropWhile (p := p) (l := text)
  cases hdrop : text.dropWhile p with
  | nil =>
      rw [hdrop, List.append_nil] at hsplit
      refine absurd (fun ch hch => ?_) h
      rw [← hsplit] at hch
      exact List.all_eq_true.1 List.all_takeWhile ch hch
  | cons ch back =>
      refine ⟨text.takeWhile p, ch, back, by rw [← hdrop, hsplit],
        fun ch hch => List.all_eq_true.1 List.all_takeWhile ch hch, ?_, rfl⟩
      have hhead := List.head?_dropWhile_not p text
      simpa [hdrop] using hhead

theorem isTab_of_isLineBreak (h : isLineBreak ch = true) : isTab ch = false := by
  simp only [isLineBreak, List.contains_cons, List.contains_nil, Bool.or_false, Bool.or_eq_true,
    beq_iff_eq] at h
  rcases h with rfl | rfl | rfl | rfl <;> decide

/-- What is read of a plain directive: not the line break behind it. -/
def Directive.charsRead (directive : Directive) : List Char :=
  directive.leadChars ++ (directive.stringChars ++ (directive.behindChars ++
    match directive.ending with
    | .semicolon => [';']
    | .lineBreak _ _ _ => []))

/-- The line break, which is left to what follows. -/
def Directive.charsLeft (directive : Directive) : List Char :=
  match directive.ending with
  | .semicolon => []
  | .lineBreak _ ending _ => [ending]

theorem Directive.IsPlain.chars_eq (h : directive.IsPlain) :
    directive.chars = directive.charsRead ++ directive.charsLeft := by
  have hending := h.ending
  rw [chars, charsRead, charsLeft]
  cases hend : directive.ending with
  | semicolon => simp [StatementEnd.chars]
  | lineBreak comment ending isBreak =>
      rw [hend] at hending
      simp [StatementEnd.chars, hending.1, lineCommentChars]

theorem Directive.IsPlain.isBlank_left (h : directive.IsPlain) :
    ∀ ch ∈ directive.charsLeft, Ascii.isBlank ch = true := by
  have hending := h.ending
  rw [charsLeft]
  cases hend : directive.ending with
  | semicolon => nofun
  | lineBreak comment ending isBreak =>
      rw [hend] at hending
      intro ch hch
      obtain rfl := List.mem_singleton.1 hch
      rcases hending.2 with rfl | rfl <;> decide

theorem directiveLength?_of_isPlain (h : directive.IsPlain)
    (hbefore : ∀ ch ∈ before, Ascii.isBlank ch = true) (rest : List Char) :
    directiveLength? (before ++ (directive.chars ++ rest)) =
      some (before ++ directive.charsRead).length := by
  have hend : directiveEnd? (directive.behindChars ++ (directive.ending.chars ++ rest)) =
      some (directive.behindChars.length + (match directive.ending with
        | .semicolon => [';']
        | .lineBreak _ _ _ => []).length) := by
    have hending := h.ending
    cases hend : directive.ending with
    | semicolon => exact directiveEnd?_semicolon h.behind rest
    | lineBreak comment ending isBreak =>
        rw [hend] at hending
        obtain ⟨rfl, hbreak⟩ := hending
        exact directiveEnd?_break h.behind hbreak rest
  have hchars : directive.chars ++ rest = directive.leadChars ++ (directive.stringChars ++
      (directive.behindChars ++ (directive.ending.chars ++ rest))) := by
    simp only [Directive.chars, List.append_assoc]
  rw [directiveLength?_append hbefore, hchars, directiveLength?_append h.lead, Directive.stringChars,
    directiveLength?_around, hend]
  simp [Directive.charsRead, Directive.stringChars, Quote.around]
  omega

theorem directiveLength?_of_not_isPlain (h : ¬directive.IsPlain)
    (hbefore : ∀ ch ∈ before, Ascii.isBlank ch = true) (rest : List Char) :
    directiveLength? (before ++ (directive.chars ++ rest)) = none := by
  have hchars : directive.chars ++ rest = directive.leadChars ++ (directive.stringChars ++
      (directive.behindChars ++ (directive.ending.chars ++ rest))) := by
    simp only [Directive.chars, List.append_assoc]
  rw [directiveLength?_append hbefore, hchars, Option.map_eq_none_iff]
  by_cases hlead : ∀ ch ∈ directive.leadChars, Ascii.isBlank ch = true
  · rw [directiveLength?_append hlead, Directive.stringChars, directiveLength?_around]
    suffices hend : directiveEnd? (directive.behindChars ++ (directive.ending.chars ++ rest)) = none by
      rw [hend]
      rfl
    by_cases hbehind : ∀ ch ∈ directive.behindChars, isTab ch = true
    · have hending : ¬directive.ending.IsPlain := fun hending => h ⟨hlead, hbehind, hending⟩
      cases hend : directive.ending with
      | semicolon => exact absurd (hend ▸ trivial) hending
      | lineBreak comment ending isBreak =>
          rw [hend] at hending
          cases comment with
          | none =>
              refine directiveEnd?_eq_none hbehind (isTab_of_isLineBreak isBreak) ?_ rest
              simp only [List.mem_cons, List.not_mem_nil, or_false, not_or]
              have hplain := not_or.1 fun hplain => hending ⟨rfl, hplain⟩
              exact ⟨by rintro rfl; exact absurd isBreak (by decide), hplain.1, hplain.2⟩
          | some comment => exact directiveEnd?_eq_none hbehind (by decide) (by decide) _
    · obtain ⟨front, ch, back, hsplit, hfront, hch, hhead⟩ := exists_first hbehind
      have hends : ch ∉ [';', '\n', '\r'] := by
        simp only [List.mem_cons, List.not_mem_nil, or_false]
        rintro (rfl | rfl | rfl) <;>
          exact absurd (head_dropWhile_behind (by decide) directive _ hhead) (by decide)
      rw [hsplit, List.append_assoc, List.cons_append]
      exact directiveEnd?_eq_none hfront hch hends _
  · obtain ⟨front, ch, back, hsplit, hfront, hch, hhead⟩ := exists_first hlead
    have hquote : ch ≠ '"' ∧ ch ≠ '\'' := by
      constructor <;> rintro rfl <;>
        exact absurd (head_dropWhile_lead (by decide) directive _ hhead) (by decide)
    rw [hsplit, List.append_assoc, List.cons_append, directiveLength?_append hfront,
      directiveLength?_of_ne hch hquote]
    rfl

theorem Directive.length_stringChars_pos (directive : Directive) :
    0 < directive.stringChars.length :=
  List.length_pos_iff.2 (List.cons_ne_nil _ _)

theorem Directive.length_charsToEnd_pos (directive : Directive) : 0 < directive.charsToEnd.length := by
  have hstring := directive.length_stringChars_pos
  simp only [charsToEnd, List.length_append]
  omega

/-- **The directives are read through exactly if they are plain.** -/
theorem length_charsToLastEnd_le_iff (before : List Char) (directives : List Directive)
    (hsome : directives ≠ []) (hbefore : ∀ ch ∈ before, Ascii.isBlank ch = true) (rest : List Char) :
    (before ++ charsToLastEnd directives).length ≤
        directivesLength (before ++ (directivesChars directives ++ rest)) ↔
      ∀ directive ∈ directives, directive.IsPlain := by
  induction directives generalizing before with
  | nil => exact absurd rfl hsome
  | cons directive directives ih =>
      have hchars : directivesChars (directive :: directives) ++ rest =
          directive.chars ++ (directivesChars directives ++ rest) := by
        rw [directivesChars, List.flatMap_cons, List.append_assoc]
        rfl
      rw [hchars, List.forall_mem_cons]
      by_cases hplain : directive.IsPlain
      · have hread := directivesLength_of_some
          (directiveLength?_of_isPlain hplain hbefore (directivesChars directives ++ rest))
        have hdrop : (before ++ (directive.chars ++ (directivesChars directives ++ rest))).drop
            (before ++ directive.charsRead).length =
              directive.charsLeft ++ (directivesChars directives ++ rest) := by
          rw [hplain.chars_eq, List.append_assoc, ← List.append_assoc before, List.drop_left]
        rw [hdrop] at hread
        rw [hread, and_iff_right hplain]
        cases directives with
        | nil =>
            have hend : directive.charsToEnd.length ≤ directive.charsRead.length := by
              rw [Directive.charsToEnd, Directive.charsRead]
              cases directive.ending <;> simp
            simp only [charsToLastEnd, List.length_append, List.not_mem_nil, false_implies,
              implies_true, iff_true]
            omega
        | cons next directives =>
            rw [← ih _ (List.cons_ne_nil _ _) hplain.isBlank_left, charsToLastEnd, hplain.chars_eq]
            · simp only [List.length_append]
              omega
            · intro heq
              cases heq
      · have hnone := directivesLength_of_none
          (directiveLength?_of_not_isPlain hplain hbefore (directivesChars directives ++ rest))
        have hpos : 0 < (charsToLastEnd (directive :: directives)).length := by
          cases directives with
          | nil => exact directive.length_charsToEnd_pos
          | cons next directives =>
              have hstring := directive.length_stringChars_pos
              simp only [charsToLastEnd, Directive.chars, List.length_append]
              omega
        simp only [hnone, hplain, false_and, iff_false, List.length_append]
        omega

theorem Prologue.directivesLength_iff (prologue : Prologue) (rest : List Char) :
    (charsToLastEnd prologue.directives).length ≤
        directivesLength (directivesChars prologue.directives ++ rest) ↔
      ∀ directive ∈ prologue.directives, directive.IsPlain := by
  by_cases hnone : prologue.directives = []
  · simp [hnone, charsToLastEnd]
  · exact length_charsToLastEnd_le_iff [] prologue.directives hnone (by simp) rest

theorem shebangLength_shebang (shebang : Shebang) (rest : List Char) :
    shebangLength (shebang.chars ++ rest) = shebang.chars.length := by
  have htext : '\n' ∉ '#' :: '!' :: shebang.text.chars := by
    simp only [List.mem_cons, not_or]
    refine ⟨by decide, by decide, fun hmem => ?_⟩
    exact absurd (shebang.text.all _ hmem) (by decide)
  have hshebang : ['#', '!'].isPrefixOf (shebang.chars ++ rest) = true := by
    simp [Shebang.chars]
  rw [shebangLength, if_pos hshebang, Shebang.chars]
  cases shebang.carriageReturn with
  | false =>
      have hpast := lengthPast_append_of_notMem htext [] rest
      simpa [List.append_assoc] using hpast
  | true =>
      have htext' : '\n' ∉ '#' :: '!' :: shebang.text.chars ++ ['\r'] := by
        rw [List.mem_append, not_or]
        exact ⟨htext, by decide⟩
      have hpast := lengthPast_append_of_notMem htext' [] rest
      simpa [List.append_assoc] using hpast

/-- No directive begins as a shebang line does. -/
theorem shebangLength_directives (hsome : directives ≠ []) (rest : List Char) :
    shebangLength (directivesChars directives ++ rest) = 0 := by
  obtain ⟨directive, directives, rfl⟩ := List.exists_cons_of_ne_nil hsome
  have hhead : ∀ ch ∈ (directivesChars (directive :: directives) ++ rest).head?, ch ≠ '#' := by
    intro ch hch
    rw [directivesChars, List.flatMap_cons, Directive.chars, List.append_assoc, List.append_assoc,
      List.head?_append, Option.mem_def, Option.or_eq_some_iff] at hch
    rcases hch with hlead | ⟨-, hquote⟩
    · have hsame : directive.leadChars.dropWhile (fun _ => false) = directive.leadChars := by
        cases directive.leadChars <;> rfl
      rw [← hsame] at hlead
      have hspace := head_dropWhile_lead rfl directive ch hlead
      rintro rfl
      exact absurd hspace (by decide)
    · rw [Directive.stringChars, Quote.around, List.cons_append] at hquote
      obtain rfl := Option.some.inj hquote
      cases directive.quote <;> decide
  rw [shebangLength, if_neg]
  intro hprefix
  obtain ⟨others, hothers⟩ := List.isPrefixOf_iff_prefix.1 hprefix
  exact hhead '#' (by rw [← hothers]; rfl) rfl

/-- Of two fronts of a text, the one with fewer bytes is a front of the other one. -/
theorem isPrefix_iff_utf8Length_le (h : before <+: text) (h' : more <+: text) :
    before <+: more ↔ utf8Length before ≤ utf8Length more := by
  constructor
  · rintro ⟨between, rfl⟩
    rw [utf8Length_append]
    exact Nat.le_add_right _ _
  · intro hle
    obtain ⟨rest, rfl⟩ := h
    obtain ⟨rest', heq⟩ := h'
    obtain ⟨between, rfl, -⟩ := exists_between heq.symm hle
    exact List.prefix_append before between

theorem Directive.charsToEnd_isPrefix (directive : Directive) :
    directive.charsToEnd <+: directive.chars := by
  rw [charsToEnd, chars, List.prefix_append_right_inj, List.prefix_append_right_inj]
  cases directive.ending with
  | semicolon => exact List.prefix_refl _
  | lineBreak comment ending isBreak => exact List.nil_prefix

theorem charsToLastEnd_isPrefix (directives : List Directive) :
    charsToLastEnd directives <+: directivesChars directives := by
  induction directives with
  | nil => exact List.prefix_refl _
  | cons directive directives ih =>
      rw [directivesChars, List.flatMap_cons]
      cases directives with
      | nil => exact directive.charsToEnd_isPrefix.trans (List.prefix_append _ _)
      | cons next directives => exact List.prefix_append_right_inj _ |>.2 ih

theorem Prologue.charsToEnd_isPrefix (prologue : Prologue) (rest : List Char) :
    prologue.charsToEnd <+: prologue.chars ++ rest := by
  rw [charsToEnd, chars, List.append_assoc, List.prefix_append_right_inj]
  exact (charsToLastEnd_isPrefix _).trans (List.prefix_append _ _)

/-- **The place of the imports is behind all directives exactly if they are plain.** -/
theorem importOffset_script (prologue : Prologue) (rest : List Char) :
    utf8Length prologue.charsToEnd ≤ importOffset (prologue.script rest) ↔
      ∀ directive ∈ prologue.directives, directive.IsPlain := by
  have hprefix := prologue.charsToEnd_isPrefix rest
  rw [importOffset, Prologue.script, String.toList_ofList]
  rw [← isPrefix_iff_utf8Length_le hprefix (List.take_prefix _ _), List.prefix_take_iff,
    and_iff_right hprefix, ← prologue.directivesLength_iff rest, Prologue.chars,
    Prologue.charsToEnd, Prologue.shebangChars, List.append_assoc]
  cases prologue.shebang with
  | some shebang =>
      rw [Option.map_some, Option.getD_some, shebangLength_shebang, List.drop_left,
        List.length_append, Nat.add_le_add_iff_left]
  | none =>
      rw [Option.map_none, Option.getD_none, List.nil_append, List.nil_append]
      by_cases hnone : prologue.directives = []
      · simp [hnone, charsToLastEnd]
      · rw [shebangLength_directives hnone, List.drop_zero, Nat.zero_add]

/-! ### The imports of a script -/

variable {setting : Setting} {source : String} {findings : Findings} {warnings : List Warning}
  {imports : Splice}

theorem place_of_scan (hscan : setting.scan .jsx source = .ok (findings, warnings))
    (himports : findings.plan.importSplice? source.toList = some imports) :
    imports.span = ⟨importOffset source, importOffset source⟩ := by
  rw [span_importSplice? himports]
  unfold Setting.scan at hscan
  split at hscan
  · cases hscan
    cases himports
  · dsimp only at hscan
    cases hcode : Element.ofCode source with
    | error severed =>
        rw [hcode] at hscan
        cases hscan
    | ok elements =>
        rw [hcode] at hscan
        cases hscan
        rfl

/-- The imports are one of the patches that rewrite a source. -/
theorem exists_patch_of_imports (hscan : setting.scan .jsx source = .ok (findings, warnings))
    (himports : findings.plan.importSplice? source.toList = some imports) :
    ∃ before kept after tail,
      findings.plan.Rewrites source (before ++ ⟨kept, [], imports.text⟩ :: after) tail ∧
      utf8Length (Patch.textBefore before kept) = importOffset source := by
  obtain ⟨patches, tail, hrewrites⟩ := (scan_isApart hscan).rewrites
  have hstaged : imports ∈ Patch.splices 0 patches := by
    rw [hrewrites.splices, hrewrites.staged.mem_iff, himports]
    exact List.mem_append_left _ List.mem_cons_self
  obtain ⟨before, ⟨kept, old, new⟩, after, rfl, rfl, hstart, hstop⟩ := exists_of_mem_splices hstaged
  rw [place_of_scan hscan himports] at hstart hstop
  obtain rfl : old = [] := utf8Length_eq_zero (by dsimp only at hstop; omega)
  exact ⟨before, kept, after, tail, hrewrites, by dsimp only at hstart; omega⟩

/--
**Imports behind directives.** The place of the imports of a script is behind all directives of its
prologue exactly if they are plain: no comment and no white space but ASCII blanks before one, no
comment and no white space but spaces and tabs behind one, and a line feed or a carriage return
where no semicolon ends it. The imports of every scan are put behind the directives then, and only
then.
-/
theorem imports_behind_directives_iff (prologue : Prologue) (rest : List Char) :
    (utf8Length prologue.charsToEnd ≤ importOffset (prologue.script rest) ↔
      ∀ directive ∈ prologue.directives, directive.IsPlain) ∧
    ∀ setting findings warnings imports,
      Setting.scan setting .jsx (prologue.script rest) = .ok (findings, warnings) →
      findings.plan.importSplice? (prologue.script rest).toList = some imports →
      ∃ before kept after tail,
        findings.plan.Rewrites (prologue.script rest)
          (before ++ ⟨kept, [], imports.text⟩ :: after) tail ∧
        (prologue.charsToEnd <+: Patch.textBefore before kept ↔
          ∀ directive ∈ prologue.directives, directive.IsPlain) := by
  refine ⟨importOffset_script prologue rest, ?_⟩
  intro setting findings warnings imports hscan himports
  obtain ⟨before, kept, after, tail, hrewrites, hplace⟩ := exists_patch_of_imports hscan himports
  have htext : prologue.chars ++ rest =
      Patch.textBefore before kept ++ Patch.textBefore after tail := by
    have hsource := String.ofList_injective hrewrites.source_eq
    rwa [textBefore_append_cons] at hsource
  refine ⟨before, kept, after, tail, hrewrites, ?_⟩
  rw [isPrefix_iff_utf8Length_le (prologue.charsToEnd_isPrefix rest) ⟨_, htext.symm⟩, hplace]
  exact importOffset_script prologue rest

/-- A shebang line and two directives, of which the second one has no semicolon. -/
def plainPrologue : Prologue where
  shebang := some ⟨⟨['/', 'j', 's'], List.all_eq_true.1 rfl⟩, false⟩
  directives :=
    [⟨[], .single, ⟨['a', 's', 'm'], List.all_eq_true.1 rfl⟩, [], .semicolon⟩,
      ⟨[.space ⟨['\n', ' '], List.all_eq_true.1 rfl⟩], .double,
        ⟨['s', 't', 'r', 'i', 'c', 't'], List.all_eq_true.1 rfl⟩,
        [.space ⟨[' '], List.all_eq_true.1 rfl⟩], .lineBreak none '\n' (by decide)⟩]

/-- A license before a directive. -/
def licensedPrologue : Prologue where
  shebang := none
  directives :=
    [⟨[.block ['M', 'I', 'T'] (by decide), .space ⟨['\n'], List.all_eq_true.1 rfl⟩], .single,
      ⟨['u', 's', 'e', ' ', 'c', 'l', 'i', 'e', 'n', 't'], List.all_eq_true.1 rfl⟩, [], .semicolon⟩]

/-- A use of the tag `Widget`. -/
def widgetUse : List Char :=
  ['<', 'W', 'i', 'd', 'g', 'e', 't', '/', '>']

set_option maxRecDepth 100000 in
theorem imports_behind_directives_of_plain :
    (∀ directive ∈ plainPrologue.directives, directive.IsPlain) ∧
    ∃ findings warnings imports,
      widgetSetting.scan .jsx (plainPrologue.script widgetUse) = .ok (findings, warnings) ∧
      findings.plan.importSplice? (plainPrologue.script widgetUse).toList = some imports ∧
      ∃ before kept after tail,
        findings.plan.Rewrites (plainPrologue.script widgetUse)
          (before ++ ⟨kept, [], imports.text⟩ :: after) tail ∧
        (plainPrologue.charsToEnd <+: Patch.textBefore before kept ↔
          ∀ directive ∈ plainPrologue.directives, directive.IsPlain) := by
  have hplain : ∀ directive ∈ plainPrologue.directives, directive.IsPlain := by
    simp only [plainPrologue, List.forall_mem_cons, List.not_mem_nil, false_implies, implies_true,
      and_true]
    exact ⟨⟨List.all_eq_true.1 rfl, List.all_eq_true.1 rfl, trivial⟩,
      ⟨List.all_eq_true.1 rfl, List.all_eq_true.1 rfl, rfl, .inl rfl⟩⟩
  refine ⟨hplain, ?_⟩
  have hcomputed : (widgetSetting.scan .jsx (plainPrologue.script widgetUse)).toOption.any
      (fun found =>
        (found.1.plan.importSplice? (plainPrologue.script widgetUse).toList).isSome) = true := by
    decide +kernel
  obtain ⟨findings, warnings, hscan, hsome⟩ := exists_scan_of_any hcomputed
  obtain ⟨imports, himports⟩ := Option.isSome_iff_exists.1 hsome
  exact ⟨findings, warnings, imports, hscan, himports,
    (imports_behind_directives_iff plainPrologue widgetUse).2 _ _ _ _ hscan himports⟩

set_option maxRecDepth 100000 in
/-- The import displaces the directive. -/
theorem import_before_licensed_directive :
    ¬utf8Length licensedPrologue.charsToEnd ≤ importOffset (licensedPrologue.script widgetUse) ∧
    ∃ findings warnings,
      widgetSetting.scan .jsx (licensedPrologue.script widgetUse) = .ok (findings, warnings) ∧
      (findings.plan.apply (licensedPrologue.script widgetUse)).toList =
        "import CloudComponentDefError from \"/w/fallback\";\n".toList ++
          ("/*MIT*/\n'use client';".toList ++
            "<CloudComponentDefError tagName=\"Widget\" defValue=\"\"/>".toList) := by
  refine ⟨by decide +kernel, ?_⟩
  have hcomputed : (widgetSetting.scan .jsx (licensedPrologue.script widgetUse)).toOption.any
      (fun found =>
        let splices := found.1.plan.splices (licensedPrologue.script widgetUse).toList
        splices.Pairwise (fun first second => first.before second = true) ∧
        Splice.applyFrom (licensedPrologue.script widgetUse).toList 0 splices =
          "import CloudComponentDefError from \"/w/fallback\";\n".toList ++
            ("/*MIT*/\n'use client';".toList ++
              "<CloudComponentDefError tagName=\"Widget\" defValue=\"\"/>".toList)) = true := by
    decide +kernel
  obtain ⟨findings, warnings, hscan, hcheck⟩ := exists_scan_of_any hcomputed
  obtain ⟨hsorted, houtput⟩ := of_decide_eq_true hcheck
  exact ⟨findings, warnings, hscan, (toList_apply_of_pairwise hsorted).trans houtput⟩

end Readings

end ComponentTags
