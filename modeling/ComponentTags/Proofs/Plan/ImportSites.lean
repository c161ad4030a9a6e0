import ComponentTags.Plan.Scan
import ComponentTags.Proofs.Element.MarkupLayout

/-!
Where imports go. It is never inside a name: it is the front of the source, or its end, or it stands
behind a character that no name has.
-/

namespace ComponentTags

/-- A place of a text that no name of the text goes across. -/
structure IsSite (source : List Char) (offset : Nat) : Prop where
  split : ∃ front rest, source = front ++ rest ∧ offset = utf8Length front ∧
    (rest = [] ∨ ∀ ch ∈ front.getLast?, Lexical.isNameChar ch = false)

/-- The first characters of a text end in one that no name has, or are all that it has. -/
def StopsPlain (text : List Char) (length : Nat) : Prop :=
  text.drop length = [] ∨ ∀ ch ∈ (text.take length).getLast?, Lexical.isNameChar ch = false

/-- The offset of an import site. -/
def ImportSite.place : ImportSite → Nat
  | offset place => place
  | setupScript place => place
  | newSetupScript => 0

section Sites

variable {source text : List Char} {offset length other : Nat} {span : Span}

theorem isSite_zero (source : List Char) : IsSite source 0 :=
  ⟨[], source, rfl, rfl, .inr (by simp)⟩

theorem EndsTag.isSite (h : EndsTag source offset) : IsSite source offset := by
  obtain ⟨front, rest, hsource, hoffset, hends⟩ := h.split
  refine ⟨front, rest, hsource, hoffset, hends.imp_right ?_⟩
  intro hlast ch hch
  rw [hlast] at hch
  cases hch
  decide

theorem IsSite.isWord (h : IsSite source offset) : IsWord source ⟨offset, offset⟩ := by
  obtain ⟨front, rest, hsource, hoffset, -⟩ := h.split
  exact ⟨front, [], rest, hsource, hoffset, hoffset, by simp⟩

/-- A name would have to go on over the character before the site. -/
theorem IsSite.apart (h : IsSite source offset) (hword : IsWord source span) :
    Span.Apart ⟨offset, offset⟩ span := by
  obtain ⟨front, rest, hsource, hoffset, hends⟩ := h.split
  obtain ⟨start, word, behind, hsplit, hstart, hstop, hname⟩ := hword.split
  by_cases hinside : span.start < offset ∧ offset < span.stop
  · obtain ⟨hafter, hbefore⟩ := hinside
    rw [hoffset] at hafter hbefore
    rw [hstart] at hafter
    rw [hstop, ← utf8Length_append] at hbefore
    obtain ⟨head, rfl, hhead⟩ := exists_between (hsplit.symm.trans hsource) (Nat.le_of_lt hafter)
    obtain ⟨tail, htail, hrest⟩ := exists_between
      (hsource.symm.trans (hsplit.trans (List.append_assoc _ _ _).symm)) (Nat.le_of_lt hbefore)
    have hsplitword : word = head ++ tail := by
      rw [List.append_assoc] at htail
      exact List.append_cancel_left htail
    cases hends with
    | inl hend =>
        rw [hend] at hrest
        obtain ⟨rfl, -⟩ := List.append_eq_nil_iff.1 hrest.symm
        rw [hsplitword, List.append_nil] at hbefore
        exact absurd hbefore (Nat.lt_irrefl _)
    | inr hplain =>
        cases hlast : head.getLast? with
        | none =>
            rw [List.getLast?_eq_none_iff.1 hlast, List.append_nil] at hafter
            exact absurd hafter (Nat.lt_irrefl _)
        | some ch =>
            have hch : Lexical.isNameChar ch = true := by
              apply hname
              rw [hsplitword]
              exact List.mem_append_left _ (List.mem_of_getLast? hlast)
            have hnot := hplain ch (by rw [List.getLast?_append, hlast]; rfl)
            rw [hch] at hnot
            cases hnot
  · unfold Span.Apart
    dsimp only
    omega

/-! ### The front of a module of code -/

theorem StopsPlain.isSite (h : StopsPlain text length) :
    IsSite text (utf8Length (text.take length)) :=
  ⟨text.take length, text.drop length, (List.take_append_drop _ _).symm, rfl, h⟩

theorem stopsPlain_zero (text : List Char) : StopsPlain text 0 :=
  .inr (by simp)

theorem StopsPlain.add (h : StopsPlain text length) (h' : StopsPlain (text.drop length) other) :
    StopsPlain text (length + other) := by
  unfold StopsPlain at *
  rw [List.drop_drop] at h'
  rw [List.take_add, List.getLast?_append]
  rcases h' with hend | hplain
  · exact .inl hend
  · cases hlast : ((text.drop length).take other).getLast? with
    | some ch =>
        right
        rw [hlast] at hplain
        exact hplain
    | none =>
        rcases h with hend | hfirst
        · left
          rw [← List.drop_drop, hend, List.drop_nil]
        · exact .inr hfirst

theorem StopsPlain.of_eq (h : StopsPlain text other) (heq : other = length) :
    StopsPlain text length :=
  heq ▸ h

theorem stopsPlain_of_getElem? {ch : Char} (hch : text[length]? = some ch)
    (hplain : Lexical.isNameChar ch = false) : StopsPlain text (length + 1) := by
  right
  rw [List.getLast?_take, if_neg (Nat.succ_ne_zero _), Nat.add_sub_cancel, hch]
  intro last hlast
  cases hlast
  exact hplain

theorem stopsPlain_lengthPast (text : List Char) : StopsPlain text (lengthPast ['\n'] text) := by
  induction text with
  | nil => exact .inl rfl
  | cons ch text ih =>
      rw [lengthPast]
      split
      · next hbreak =>
          have hch : '\n' = ch := by simpa using hbreak
          subst hch
          exact stopsPlain_of_getElem? rfl (by decide)
      · rcases ih with hend | hplain
        · exact .inl hend
        · by_cases hnil : text = []
          · subst hnil
            exact .inl rfl
          · have hpositive := lengthPast_pos ['\n'] text (by simp) hnil
            right
            rw [List.take_succ_cons, List.getLast?_cons]
            cases hlast : (text.take (lengthPast ['\n'] text)).getLast? with
            | none =>
                rcases List.take_eq_nil_iff.1 (List.getLast?_eq_none_iff.1 hlast) with hzero | hempty
                · omega
                · exact absurd hempty hnil
            | some last =>
                rw [hlast] at hplain
                exact hplain

theorem stopsPlain_takeWhile {p : Char → Bool} (text : List Char)
    (hplain : ∀ ch, p ch = true → Lexical.isNameChar ch = false) :
    StopsPlain text (text.takeWhile p).length := by
  right
  rw [← List.prefix_iff_eq_take.1 (List.takeWhile_prefix p)]
  intro ch hlast
  exact hplain ch (List.all_eq_true.1 List.all_takeWhile ch (List.mem_of_getLast? hlast))

theorem drop_succ_of_drop {ch : Char} {rest : List Char} (h : text.drop length = ch :: rest) :
    text[length]? = some ch ∧ text.drop (length + 1) = rest := by
  refine ⟨?_, ?_⟩
  · rw [← List.head?_drop, h]
    rfl
  · rw [← List.drop_drop, h]
    rfl

/-- A directive ends in a semicolon, a blank or its closing quote. -/
theorem stopsPlain_directive (h : directiveLength? text = some length) :
    StopsPlain text length := by
  unfold directiveLength? at h
  extract_lets blanks at h
  split at h
  · cases h
  · next quote body hbody =>
      split at h
      · next hquote =>
          extract_lets inner at h
          split at h
          · cases h
          · next ch after hafter =>
              split at h
              · next hclose =>
                  extract_lets spaces at h
                  have hplain : Lexical.isNameChar ch = false := by
                    rw [hclose]
                    rcases (by simpa using hquote : quote = '"' ∨ quote = '\'') with rfl | rfl <;>
                      decide
                  have hspaces : StopsPlain after spaces := by
                    apply stopsPlain_takeWhile
                    intro space hspace
                    rcases (by simpa using hspace : space = ' ' ∨ space = '\t') with rfl | rfl <;>
                      decide
                  rw [← (drop_succ_of_drop hbody).2, List.drop_drop] at hafter
                  obtain ⟨hcloseAt, hrest⟩ := drop_succ_of_drop hafter
                  rw [← hrest] at hspaces
                  have hdirective := (stopsPlain_of_getElem? hcloseAt hplain).add hspaces
                  split at h
                  · next tail hsemicolon =>
                      rw [← hrest, List.drop_drop] at hsemicolon
                      obtain ⟨hsemicolonAt, -⟩ := drop_succ_of_drop hsemicolon
                      have hlength := Option.some.inj h
                      exact (stopsPlain_of_getElem? hsemicolonAt (by decide)).of_eq (by omega)
                  · exact hdirective.of_eq (by have hlength := Option.some.inj h; omega)
                  · exact hdirective.of_eq (by have hlength := Option.some.inj h; omega)
                  · exact hdirective.of_eq (by have hlength := Option.some.inj h; omega)
                  · cases h
              · cases h
      · cases h

theorem stopsPlain_directives (text : List Char) : StopsPlain text (directivesLength text) := by
  fun_induction directivesLength text with
  | case1 text _ => exact stopsPlain_zero text
  | case2 text length hdirective _ ih => exact (stopsPlain_directive hdirective).add ih

theorem isSite_importOffset (source : String) : IsSite source.toList (importOffset source) := by
  unfold importOffset
  dsimp only
  apply StopsPlain.isSite
  apply StopsPlain.add _ (stopsPlain_directives _)
  unfold shebangLength
  split
  · exact stopsPlain_lengthPast _
  · exact stopsPlain_zero _

/-! ### The setup script of a single-file component -/

theorem isSite_setupScriptSite {elements : List Element}
    (hends : ∀ element ∈ elements, EndsTag source element.span.stop) :
    IsSite source (setupScriptSite elements).place := by
  unfold setupScriptSite
  dsimp only
  split
  · next script hscript => exact (hends script (List.mem_of_find?_eq_some hscript)).isSite
  · exact isSite_zero source

end Sites

end ComponentTags
