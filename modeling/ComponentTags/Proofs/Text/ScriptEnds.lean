import ComponentTags.Proofs.Artifact.Shapes
import ComponentTags.Proofs.Element.MarkupTrees
import ComponentTags.Proofs.Text.Quotes

/-!
The ends of scripts. A script ends where the beginning of its closing tag stands, in letters of either
case, and it does not matter what the text around is. In what is put together from texts and
characters that the tag does not have, the end of a script stands in one of the texts.
-/

namespace ComponentTags

/-- The beginning of the closing tag of a script, in lower case. -/
def scriptEnd : List Char :=
  ['<', '/', 's', 'c', 'r', 'i', 'p', 't']

/-- The text would end the script that it stands in. -/
def EndsScript (text : List Char) : Prop :=
  scriptEnd <:+: text.map Char.toLower

instance (text : List Char) : Decidable (EndsScript text) :=
  inferInstanceAs (Decidable (scriptEnd <:+: text.map Char.toLower))

section Patterns

variable {pattern front text : List Char} {ch : Char}

theorem isPrefix_append_cons (h : ch ∉ pattern) (hstarts : pattern <+: front ++ ch :: text) :
    pattern <+: front := by
  induction front generalizing pattern with
  | nil =>
      cases pattern with
      | nil => exact List.nil_prefix
      | cons first pattern =>
          obtain ⟨rest, heq⟩ := hstarts
          exact absurd (List.cons.inj heq).1 (fun hfirst => h (hfirst ▸ List.mem_cons_self))
  | cons other front ih =>
      cases pattern with
      | nil => exact List.nil_prefix
      | cons first pattern =>
          obtain ⟨rfl, hrest⟩ := List.cons_prefix_cons.1 hstarts
          exact List.cons_prefix_cons.2 ⟨rfl, ih (fun hmem => h (List.mem_cons_of_mem _ hmem)) hrest⟩

/-- A pattern stands before a character that it does not have, or behind it. -/
theorem isInfix_append_cons_iff (hne : pattern ≠ []) (h : ch ∉ pattern) :
    pattern <:+: front ++ ch :: text ↔ pattern <:+: front ∨ pattern <:+: text := by
  induction front with
  | nil =>
      rw [List.nil_append, List.infix_cons_iff, List.infix_nil]
      refine or_congr_left ⟨fun hstarts => ?_, fun hnil => absurd hnil hne⟩
      exact List.prefix_nil.1 (isPrefix_append_cons h hstarts)
  | cons other front ih =>
      rw [List.cons_append, List.infix_cons_iff, List.infix_cons_iff, ih, or_assoc]
      refine or_congr_left ⟨fun hstarts => isPrefix_append_cons h hstarts, fun hstarts => ?_⟩
      exact hstarts.trans (List.prefix_append (other :: front) (ch :: text))

end Patterns

section Ends

variable {front text skipped : List Char} {ch : Char}

theorem endsScript_nil : ¬EndsScript [] := by
  decide

/-- The closing tag does not have the character, in either case. -/
def Parts (ch : Char) : Prop :=
  ch.toLower ∉ scriptEnd

instance (ch : Char) : Decidable (Parts ch) :=
  inferInstanceAs (Decidable (ch.toLower ∉ scriptEnd))

theorem endsScript_append_cons_iff (h : Parts ch) :
    EndsScript (front ++ ch :: text) ↔ EndsScript front ∨ EndsScript text := by
  rw [EndsScript, List.map_append, List.map_cons]
  exact isInfix_append_cons_iff (by decide) h

theorem endsScript_cons_iff (h : ch ≠ '<') : EndsScript (ch :: text) ↔ EndsScript text := by
  rw [EndsScript, List.map_cons, List.infix_cons_iff, scriptEnd, List.cons_prefix_cons]
  exact or_iff_right fun hstarts => h (eq_less_of_toLower_eq hstarts.1.symm)

/-- What has no `<` does not matter in front of a text. -/
theorem endsScript_skip_iff (h : '<' ∉ skipped) : EndsScript (skipped ++ text) ↔ EndsScript text := by
  induction skipped with
  | nil => rfl
  | cons ch skipped ih =>
      obtain ⟨hch, hskipped⟩ := not_or.1 (mt List.mem_cons.2 h)
      rw [List.cons_append, endsScript_cons_iff (Ne.symm hch), ih hskipped]

theorem parts_of_escaped (h : ch = '"' ∨ ch = '\\' ∨ ch.toNat < 0x20) : Parts ch := by
  rcases h with rfl | rfl | hcontrol
  · decide
  · decide
  · have hlower : ch.toLower = ch := by
      unfold Char.toLower
      split
      · next hupper =>
          have hlow : 65 ≤ ch.toNat := UInt32.le_iff_toNat_le.1 hupper.1
          omega
      · rfl
    have hall : (scriptEnd.all fun other => 0x20 ≤ other.toNat) = true := by decide
    intro hmem
    rw [hlower] at hmem
    have hle : 0x20 ≤ ch.toNat := of_decide_eq_true (List.all_eq_true.1 hall ch hmem)
    omega

/-- Quoting leaves the end of a script where it is, and makes none. -/
theorem endsScript_encode_iff (front text : List Char) :
    EndsScript (front ++ text.flatMap Quoted.encodeChar) ↔ EndsScript (front ++ text) := by
  induction text generalizing front with
  | nil => rfl
  | cons ch text ih =>
      have hencodes := Quoted.encodes_encodeChar ch
      rw [List.flatMap_cons]
      generalize Quoted.encodeChar ch = written at hencodes
      cases hencodes with
      | itself =>
          have hfront := ih (front ++ [ch])
          simpa only [List.append_assoc, List.singleton_append] using hfront
      | @escape letter digits hch hletter hdigits =>
          have hskipped : '<' ∉ letter :: digits := by
            intro hmem
            rcases List.mem_cons.1 hmem with rfl | hmem
            · exact absurd hletter (by decide)
            · exact absurd (hdigits _ hmem) (by decide)
          rw [List.cons_append, endsScript_append_cons_iff (by decide), endsScript_skip_iff hskipped,
            endsScript_append_cons_iff (parts_of_escaped hch)]
          exact or_congr_right (ih [])

theorem endsScript_quoted_iff (text : String) (back : List Char) :
    EndsScript ((Quoted.encode text).toList ++ back) ↔ EndsScript text.toList ∨ EndsScript back := by
  have hquote : Parts '"' := by decide
  rw [Quoted.encode, String.toList_ofList, Quoted.encodeChars, List.cons_append, List.cons_append,
    endsScript_cons_iff (by decide), List.append_assoc, List.singleton_append,
    endsScript_append_cons_iff hquote]
  exact or_congr_left (endsScript_encode_iff [] text.toList)

/-- A text without `<`, from a character on that the closing tag does not have. -/
theorem endsScript_between_iff (h : Parts ch) (hskipped : '<' ∉ skipped) :
    EndsScript (front ++ (ch :: skipped ++ text)) ↔ EndsScript front ∨ EndsScript text := by
  rw [List.cons_append, endsScript_append_cons_iff h, endsScript_skip_iff hskipped]

end Ends

/-! ### Several texts -/

/-- One of the texts would end the script that they stand in. -/
def AnyEnds (texts : List String) : Prop :=
  ∃ text ∈ texts, EndsScript text.toList

section AnyEnds

variable {texts others : List String} {text : String} {α : Type}

theorem anyEnds_nil : ¬AnyEnds [] := by
  simp [AnyEnds]

@[simp]
theorem anyEnds_cons : AnyEnds (text :: texts) ↔ EndsScript text.toList ∨ AnyEnds texts := by
  simp [AnyEnds]

theorem anyEnds_singleton : AnyEnds [text] ↔ EndsScript text.toList := by
  simp [AnyEnds]

@[simp]
theorem anyEnds_append : AnyEnds (texts ++ others) ↔ AnyEnds texts ∨ AnyEnds others := by
  simp [AnyEnds, or_and_right, exists_or]

theorem anyEnds_flatMap (items : List α) (f : α → List String) :
    AnyEnds (items.flatMap f) ↔ ∃ item ∈ items, AnyEnds (f item) := by
  simp only [AnyEnds, List.mem_flatMap]
  exact ⟨fun ⟨text, ⟨item, hitem, htext⟩, hends⟩ => ⟨item, hitem, text, htext, hends⟩,
    fun ⟨item, hitem, text, htext, hends⟩ => ⟨text, ⟨item, hitem, htext⟩, hends⟩⟩

theorem anyEnds_map (items : List α) (f : α → String) :
    AnyEnds (items.map f) ↔ ∃ item ∈ items, EndsScript (f item).toList := by
  simp only [AnyEnds, List.mem_map]
  exact ⟨fun ⟨_, ⟨item, hitem, htext⟩, hends⟩ => ⟨item, hitem, htext ▸ hends⟩,
    fun ⟨item, hitem, hends⟩ => ⟨f item, ⟨item, hitem, rfl⟩, hends⟩⟩

/-- Lines end a script where one of them does. -/
theorem endsScript_textLines_iff (lines : List String) :
    EndsScript (textLines lines).toList ↔ AnyEnds lines := by
  induction lines with
  | nil => exact iff_of_false endsScript_nil anyEnds_nil
  | cons line lines ih =>
      rw [textLines_cons, endsScript_append_cons_iff (by decide), ih, anyEnds_cons]

end AnyEnds

end ComponentTags
