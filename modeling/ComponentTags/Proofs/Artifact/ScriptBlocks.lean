import ComponentTags.Proofs.Text.ScriptEnds

/-!
Modules as scripts. The module of a component in a single-file component is one script, read back as a
whole, exactly if none of the texts that go into it has the beginning of a script's closing tag;
quoting a text does not help it.
-/

namespace ComponentTags

/-- The one element of a script whose code is that: the opening tag at the start, the closing tag
behind the code. -/
def scriptElement (code : List Char) : Element where
  name := "script"
  nameSpan := ⟨1, 7⟩
  span := ⟨0, 8⟩
  attributes := []
  attrsEnd := 7
  selfClosing := false
  depth := 0
  close := some
    { nameSpan := ⟨10 + utf8Length code, 16 + utf8Length code⟩
      span := ⟨8 + utf8Length code, 17 + utf8Length code⟩ }

/-- A text that is read as one script, whose raw text is all between its first tag and its last. -/
structure IsOneScript (source : String) : Prop where
  exists_code : ∃ code,
    source.toList = "<script>".toList ++ (code ++ "</script>\n".toList) ∧
      Element.ofMarkup source = [scriptElement code] ∧
        rawTextLength "script" (code ++ "</script>\n".toList) = code.length

/-- What a module shows of a registration. -/
def Registration.texts (registration : Registration) : List String :=
  [registration.key, registration.identifier, registration.specifier]

/-- Code that is put into a module, or else the path that it is imported from. -/
def embeddedText (companion : Path) (payload : Payload) : String :=
  match payload.kind with
  | .source => payload.trimmedRuntime
  | .compiled => companion.specifier

def dependencyTexts (companion : Path) (payload : Payload) (registrations : List Registration) :
    List String :=
  embeddedText companion payload :: registrations.flatMap Registration.texts

def vueEntryTexts (support : Support) (reference : Reference) (companion : Path) (payload : Payload)
    (registrations : List Registration) : List String :=
  [support.errorBoundary.specifier, support.renderFunction.specifier, reference.space,
    reference.version] ++ dependencyTexts companion payload registrations

/-! ### Scripts -/

section Scripts

variable {source : String} {code : List Char}

def scriptTag : TagName where
  first := 's'
  isStart := by decide
  others := ⟨['c', 'r', 'i', 'p', 't'], List.all_eq_true.1 rfl⟩

theorem isRaw_scriptTag : scriptTag.IsRaw := by
  decide

theorem lengthBefore_lt {pattern text : List Char} (hne : pattern ≠ []) (h : pattern <:+: text)
    (rest : List Char) : lengthBefore pattern (text ++ rest) < text.length := by
  induction text with
  | nil => exact absurd (List.infix_nil.1 h) hne
  | cons ch text ih =>
      rw [List.cons_append, lengthBefore]
      split
      · exact Nat.zero_lt_succ _
      · next hno =>
          refine Nat.succ_lt_succ (ih ((List.infix_cons_iff.1 h).resolve_left fun hstarts => hno ?_))
          exact List.isPrefixOf_iff_prefix.2 (hstarts.trans (List.prefix_append (ch :: text) rest))

theorem rawTextLength_script (text : List Char) :
    rawTextLength "script" text = lengthBefore scriptEnd (text.map Char.toLower) := by
  have hpattern : '<' :: '/' :: (Ascii.lower "script").toList = scriptEnd := by decide +kernel
  rw [rawTextLength, hpattern]

theorem rawTextLength_eq_iff (code : List Char) :
    rawTextLength "script" (code ++ "</script>\n".toList) = code.length ↔ ¬EndsScript code := by
  have htail : "</script>\n".toList.map Char.toLower = scriptEnd ++ ['>', '\n'] := by decide
  rw [rawTextLength_script, List.map_append, htail]
  constructor
  · intro hlength hends
    have hlt := lengthBefore_lt (by decide) hends (scriptEnd ++ ['>', '\n'])
    rw [hlength, List.length_map] at hlt
    exact Nat.lt_irrefl _ hlt
  · intro hends
    have hunbordered : Unbordered scriptEnd := unbordered_cons (by decide)
    exact (lengthBefore_append (by decide) hunbordered hends _).trans (List.length_map _)

/-- A script and the line feed behind it. -/
def scriptForest (code : List Char) (h : ¬EndsScript code) : List MarkupNode :=
  [.raw scriptTag isRaw_scriptTag [] ⟨code, h⟩, .text ⟨['\n'], List.all_eq_true.1 rfl⟩]

theorem scriptForest_chars (h : ¬EndsScript code) :
    forestChars (scriptForest code h) = "<script>".toList ++ (code ++ "</script>\n".toList) := by
  have hopening : scriptTag.openingChars [] false = "<script>".toList := by decide
  have hclosing : scriptTag.closingChars ++ ['\n'] = "</script>\n".toList := by decide
  simp only [scriptForest, forestChars, MarkupNode.chars, List.append_nil, List.append_assoc,
    hopening, hclosing]

theorem scriptForest_elements (h : ¬EndsScript code) :
    forestElements 0 0 (scriptForest code h) = [scriptElement code] := by
  have hname : String.ofList scriptTag.chars = "script" := by decide
  have hlength : utf8Length (scriptTag.openingChars [] false ++ code) = 8 + utf8Length code :=
    utf8Length_append _ _
  have hclosing : scriptTag.placedClosing (8 + utf8Length code) =
      { nameSpan := ⟨10 + utf8Length code, 16 + utf8Length code⟩
        span := ⟨8 + utf8Length code, 17 + utf8Length code⟩ } := by
    have hchars : utf8Length scriptTag.chars = 6 := by decide
    have htag : utf8Length scriptTag.closingChars = 9 := by decide
    rw [TagName.placedClosing, hchars, htag]
    simp only [ClosingTag.mk.injEq, Span.mk.injEq, true_and]
    omega
  simp only [scriptForest, forestElements, MarkupNode.elements, Nat.zero_add, hlength, hclosing,
    List.append_nil]
  rw [TagName.opened, TagName.placed, hname]
  rfl

theorem ofMarkup_script (h : source.toList = "<script>".toList ++ (code ++ "</script>\n".toList))
    (hends : ¬EndsScript code) : Element.ofMarkup source = [scriptElement code] := by
  rw [ofMarkup_of_forest (h.trans (scriptForest_chars hends).symm), scriptForest_elements]

/-- **A script is read as one exactly if nothing in its code ends it.** -/
theorem isOneScript_iff (h : source.toList = "<script>".toList ++ (code ++ "</script>\n".toList)) :
    IsOneScript source ↔ ¬EndsScript code := by
  constructor
  · rintro ⟨other, htext, -, hraw⟩
    have hsame : other = code := by
      rw [h, List.append_cancel_left_eq, List.append_cancel_right_eq] at htext
      exact htext.symm
    rw [hsame] at hraw
    exact (rawTextLength_eq_iff code).1 hraw
  · intro hends
    exact ⟨code, h, ofMarkup_script h hends, (rawTextLength_eq_iff code).2 hends⟩

end Scripts

/-! ### The texts of lines -/

section Lines

variable {companion : Path} {payload : Payload} {registrations : List Registration}

theorem endsScript_import_iff (declaration : Import) :
    EndsScript declaration.text.toList ↔
      EndsScript declaration.name.toList ∨ EndsScript declaration.specifier.toList := by
  have hfrom : " from ".toList = ' ' :: "from ".toList := by decide
  have hend : ¬EndsScript ";".toList := by decide
  unfold Import.text
  simp only [String.toList_append, List.append_assoc]
  rw [endsScript_skip_iff (by decide), hfrom,
    endsScript_between_iff (by decide) (by decide), endsScript_quoted_iff,
    or_iff_left hend]

theorem endsScript_importLine_iff {name : String} (hname : ¬EndsScript name.toList) (path : Path) :
    EndsScript (importLine name path).toList ↔ EndsScript path.specifier.toList :=
  (endsScript_import_iff _).trans (or_iff_right hname)

theorem endsScript_registrationLines_iff (registration : Registration) :
    AnyEnds
        ["comDefs[" ++ Quoted.encode registration.key ++ "] = \x7b",
          "  runtime: " ++ registration.identifier ++ ",",
          "\x7d;"] ↔
      EndsScript registration.key.toList ∨ EndsScript registration.identifier.toList := by
  have hopen : ¬EndsScript "] = \x7b".toList := by decide
  have hclose : ¬EndsScript "\x7d;".toList := by decide
  have hcomma : ",".toList = ',' :: [] := by decide
  simp only [anyEnds_cons, String.toList_append, List.append_assoc]
  rw [endsScript_skip_iff (by decide), endsScript_quoted_iff, or_iff_left hopen,
    endsScript_skip_iff (by decide), hcomma, endsScript_append_cons_iff (by decide),
    or_iff_left endsScript_nil, or_iff_left (not_or.2 ⟨hclose, anyEnds_nil⟩)]

/-- The lines of registrations end a script where their keys, names or specifiers do. -/
theorem anyEnds_registryLines_iff :
    AnyEnds (registryLines registrations) ↔ AnyEnds (registrations.flatMap Registration.texts) := by
  have hobject : ¬AnyEnds ["", "const comDefs = \x7b\x7d;"] := by
    have hall : ∀ line ∈ ["", "const comDefs = \x7b\x7d;"], ¬EndsScript line.toList := by
      decide +kernel
    exact fun ⟨line, hline, hends⟩ => hall line hline hends
  rw [registryLines, anyEnds_append, anyEnds_append, or_iff_left hobject, anyEnds_map, anyEnds_flatMap,
    anyEnds_flatMap, ← exists_or]
  refine exists_congr fun registration => ?_
  rw [← and_or_left, endsScript_import_iff, endsScript_registrationLines_iff]
  refine and_congr_right fun _ => ?_
  simp only [Registration.texts, anyEnds_cons, anyEnds_nil, or_false]
  grind

theorem endsScript_bindRuntime_iff (runtime : String) :
    EndsScript (bindRuntime runtime).toList ↔ EndsScript runtime.toList := by
  unfold bindRuntime
  dsimp only
  split
  · next hfunction =>
      have hstarts := (Bool.and_eq_true_iff.1 hfunction).1
      obtain ⟨rest, hrest⟩ := List.isPrefixOf_iff_prefix.1 hstarts
      have hdrop : runtime.toList.drop "function".length = rest := by
        rw [← hrest]
        exact List.drop_left
      rw [hdrop, String.toList_append, ← hrest, endsScript_skip_iff (by decide),
        endsScript_skip_iff (by decide), String.toList_ofList]
  · have hend : ";".toList = ';' :: [] := by decide
    simp only [String.toList_append, List.append_assoc]
    rw [endsScript_skip_iff (by decide), hend, endsScript_append_cons_iff (by decide),
      or_iff_left endsScript_nil]

theorem anyEnds_runtime_iff (companion : Path) (payload : Payload) :
    AnyEnds (companionLines companion payload) ∨ AnyEnds (runtimeLines payload) ↔
      EndsScript (embeddedText companion payload).toList := by
  unfold companionLines runtimeLines embeddedText
  cases payload.kind with
  | source =>
      rw [or_iff_right anyEnds_nil]
      simp only [anyEnds_cons, endsScript_bindRuntime_iff, String.toList_empty]
      rw [or_iff_right endsScript_nil, or_iff_left anyEnds_nil]
  | compiled =>
      rw [or_iff_left anyEnds_nil, anyEnds_cons, or_iff_left anyEnds_nil,
        endsScript_importLine_iff (by decide +kernel)]

end Lines

/-! ### Entries and dependencies -/

section Modules

variable (support : Support) (reference : Reference) (companion : Path) (payload : Payload)
  (registrations : List Registration)

/-- The first lines of the code of an entry. -/
def sharedLines (support : Support) : List String :=
  ["import React from \"react\";",
   "import \x7b applyPureReactInVue \x7d from \"veaury\";",
   importLine "ErrorBoundary" support.errorBoundary,
   importLine "renderCom" support.renderFunction]

def windowLines : List String :=
  ["",
   "if (!window.React) \x7b",
   "  window.React = React;",
   "\x7d"]

def exportLines : List String :=
  ["",
   "export default applyPureReactInVue(function () \x7b",
   "  return React.createElement(",
   "    ErrorBoundary,"]

def propertiesLine (reference : Reference) : String :=
  "    \x7b namespace: " ++ Quoted.encode reference.space ++ ", version: "
    ++ Quoted.encode reference.version ++ " \x7d,"

def renderLines : List String :=
  ["    React.createElement(RenderCom, \x7b",
   "      env: \x7b",
   "        renderCom: (json, opts) => renderCom(json, opts, comDefs),",
   "      \x7d,",
   "    \x7d)",
   "  );",
   "\x7d);"]

/-- The lines of an entry between the tags of its script. -/
def vueEntryLines (support : Support) (reference : Reference) (companion : Path) (payload : Payload)
    (registrations : List Registration) : List String :=
  sharedLines support ++ (companionLines companion payload ++ (registryLines registrations ++
    (windowLines ++ (runtimeLines payload ++ (exportLines ++ propertiesLine reference
      :: renderLines)))))

theorem vueEntryText_eq :
    (vueEntryText support reference companion payload registrations).toList =
      "<script>".toList ++ (('\n' ::
        (textLines (vueEntryLines support reference companion payload registrations)).toList) ++
          "</script>\n".toList) := by
  have hlines : vueEntryText support reference companion payload registrations =
      textLines ("<script>" :: (vueEntryLines support reference companion payload registrations
        ++ ["</script>"])) := by
    unfold vueEntryText vueEntryLines sharedLines windowLines exportLines propertiesLine renderLines
    simp only [List.append_assoc, List.cons_append, List.nil_append]
  have hend : (textLines ["</script>"]).toList = "</script>\n".toList := by decide
  rw [hlines, textLines_cons, textLines_append, hend, List.cons_append]

theorem not_anyEnds {lines : List String} (h : ∀ line ∈ lines, ¬EndsScript line.toList) :
    ¬AnyEnds lines :=
  fun ⟨line, hline, hends⟩ => h line hline hends

theorem anyEnds_sharedLines_iff :
    AnyEnds (sharedLines support) ↔
      AnyEnds [support.errorBoundary.specifier, support.renderFunction.specifier] := by
  have hfixed : ∀ line ∈ ["import React from \"react\";",
      "import \x7b applyPureReactInVue \x7d from \"veaury\";", "ErrorBoundary", "renderCom"],
      ¬EndsScript line.toList := by
    decide +kernel
  simp only [List.forall_mem_cons] at hfixed
  obtain ⟨hreact, hveaury, hboundary, hrender, -⟩ := hfixed
  simp only [sharedLines, anyEnds_cons]
  rw [or_iff_right hreact, or_iff_right hveaury, endsScript_importLine_iff hboundary,
    endsScript_importLine_iff hrender]

theorem endsScript_propertiesLine_iff :
    EndsScript (propertiesLine reference).toList ↔ AnyEnds [reference.space, reference.version] := by
  have hend : ¬EndsScript " \x7d,".toList := by decide
  unfold propertiesLine
  simp only [String.toList_append, List.append_assoc, anyEnds_cons]
  rw [endsScript_skip_iff (by decide), endsScript_quoted_iff,
    endsScript_skip_iff (by decide), endsScript_quoted_iff, or_iff_left hend,
    or_iff_left anyEnds_nil]

theorem anyEnds_vueEntryLines_iff :
    AnyEnds (vueEntryLines support reference companion payload registrations) ↔
      AnyEnds (vueEntryTexts support reference companion payload registrations) := by
  have hfixed : ¬AnyEnds windowLines ∧ ¬AnyEnds exportLines ∧ ¬AnyEnds renderLines :=
    ⟨not_anyEnds (by decide +kernel), not_anyEnds (by decide +kernel),
      not_anyEnds (by decide +kernel)⟩
  have hruntime := anyEnds_runtime_iff companion payload
  simp only [vueEntryLines, vueEntryTexts, dependencyTexts, anyEnds_append, anyEnds_cons,
    anyEnds_sharedLines_iff, anyEnds_registryLines_iff, endsScript_propertiesLine_iff, ← hruntime]
  grind

/-- The lines of a dependency between the tags of its script. -/
def dependencyLines (companion : Path) (payload : Payload) (registrations : List Registration) :
    List String :=
  (if registrations.isEmpty then [] else registryLines registrations ++ [""])
    ++ match payload.kind with
      | .source => [payload.trimmedRuntime]
      | .compiled => [importLine "RenderCom" companion, "", "export default RenderCom;"]

theorem dependencyText_eq :
    (dependencyText .vue companion payload registrations).toList =
      "<script>".toList ++ (('\n' ::
        (textLines (dependencyLines companion payload registrations)).toList) ++
          "</script>\n".toList) := by
  have hcode : dependencyCode companion payload registrations =
      textLines (dependencyLines companion payload registrations) := by
    unfold dependencyCode dependencyLines
    cases payload.kind with
    | source | compiled => rfl
  have hopening : "<script>\n".toList = "<script>".toList ++ ['\n'] := by decide
  unfold dependencyText
  dsimp only
  rw [hcode, String.toList_append, String.toList_append, hopening, List.append_assoc,
    List.append_assoc, List.singleton_append, List.cons_append]

theorem anyEnds_dependencyLines_iff :
    AnyEnds (dependencyLines companion payload registrations) ↔
      AnyEnds (dependencyTexts companion payload registrations) := by
  have hregistry : AnyEnds
      (if registrations.isEmpty then [] else registryLines registrations ++ [""]) ↔
        AnyEnds (registrations.flatMap Registration.texts) := by
    split
    · next hempty => rw [List.isEmpty_iff.1 hempty, List.flatMap_nil]
    · rw [anyEnds_append, anyEnds_registryLines_iff]
      exact or_iff_left (not_anyEnds (by decide))
  have hcode : AnyEnds (match payload.kind with
      | .source => [payload.trimmedRuntime]
      | .compiled => [importLine "RenderCom" companion, "", "export default RenderCom;"]) ↔
        EndsScript (embeddedText companion payload).toList := by
    unfold embeddedText
    cases payload.kind with
    | source => exact anyEnds_singleton
    | compiled =>
        have hfixed : ¬AnyEnds ["", "export default RenderCom;"] := not_anyEnds (by decide +kernel)
        rw [anyEnds_cons, or_iff_left hfixed, endsScript_importLine_iff (by decide +kernel)]
  rw [dependencyLines, dependencyTexts, anyEnds_append, anyEnds_cons, hregistry, hcode]
  exact or_comm

end Modules

/--
**Which modules are one script.** A module is read back as one, with all its code as the raw text,
exactly if no text that goes into it, quoted or not, has the beginning of a script's closing tag.
-/
theorem isOneScript_module_iff (support : Support) (reference : Reference) (companion : Path)
    (payload : Payload) (registrations : List Registration) :
    (IsOneScript (vueEntryText support reference companion payload registrations) ↔
        ∀ text ∈ vueEntryTexts support reference companion payload registrations,
          ¬EndsScript text.toList) ∧
      (IsOneScript (dependencyText .vue companion payload registrations) ↔
        ∀ text ∈ dependencyTexts companion payload registrations, ¬EndsScript text.toList) := by
  have hlines : ∀ lines texts, (AnyEnds lines ↔ AnyEnds texts) →
      (¬EndsScript ('\n' :: (textLines lines).toList) ↔
        ∀ text ∈ texts, ¬EndsScript text.toList) := by
    intro lines texts h
    rw [endsScript_cons_iff (by decide), endsScript_textLines_iff, h, AnyEnds]
    simp
  exact ⟨(isOneScript_iff (vueEntryText_eq ..)).trans (hlines _ _ (anyEnds_vueEntryLines_iff ..)),
    (isOneScript_iff (dependencyText_eq ..)).trans (hlines _ _ (anyEnds_dependencyLines_iff ..))⟩

/-- Code with the closing tag of a script in one of its strings. -/
def endingPayload : Payload where
  runtime := "function () \x7b return '</script><a>'; \x7d"
  deps := []

set_option maxRecDepth 100000 in
theorem script_ended_by_string :
    ¬∀ (support : Support) (reference : Reference) (companion : Path) (payload : Payload)
        (registrations : List Registration),
      IsOneScript (vueEntryText support reference companion payload registrations) ∧
        IsOneScript (dependencyText .vue companion payload registrations) := by
  intro h
  obtain ⟨code, -, helements, -⟩ :=
    (h ⟨⟨"/proj"⟩, "r"⟩ ⟨"Widget", "a", "1"⟩ ⟨"/com/a.js"⟩ endingPayload []).2.exists_code
  have hnames := congrArg (List.map Element.name) helements
  have hread : (Element.ofMarkup (dependencyText .vue ⟨"/com/a.js"⟩ endingPayload [])).map
      Element.name = ["script", "a"] := by
    decide +kernel
  rw [hread] at hnames
  simp at hnames

end ComponentTags
